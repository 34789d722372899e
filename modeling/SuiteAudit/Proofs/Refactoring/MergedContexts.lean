import SuiteAudit.Proofs.Refactoring.Definitions
import SuiteAudit.Proofs.Refactoring.Naming

/-! # Merged contexts

Two tables in one have the keys of the second one first (`keys_mergeTables`) and the values of the
first one where both have a key (`get?_mergeTables`).  A table without a key twice is known by its keys
in order and what is found under them (`Table.ext`), so contexts under `merge` are a monoid in which each
context is its own double.  Merged in order, the contexts of many proposals give each key the name
that the first of them has for it (`Context.merge_laws`). -/

namespace SuiteAudit
namespace Table

variable {κ β : Type} [DecidableEq κ] {key : κ} {table table' : Table κ β}

theorem keys_modify (key : κ) (f : Option β → β) (table : Table κ β) :
    keys (modify key f table) = if key ∈ table.keys then table.keys else table.keys ++ [key] := by
  induction table with
  | nil => rfl
  | cons p rest ih =>
      obtain ⟨k, v⟩ := p
      rw [modify]
      by_cases hk : k = key
      · have hm : key ∈ keys ((k, v) :: rest) := List.mem_cons.mpr (.inl hk.symm)
        rw [if_pos hk, if_pos hm]
        rfl
      · have hm : key ∈ keys ((k, v) :: rest) ↔ key ∈ keys rest := by
          simp [keys, Ne.symm hk]
        rw [if_neg hk, if_congr hm rfl rfl]
        change k :: keys (modify key f rest) = _
        rw [ih]
        split <;> rfl

theorem nodup_keys_set (value : β) (h : table.keys.Nodup) : (set key value table).keys.Nodup := by
  rw [set, keys_modify]
  split
  · exact h
  · next hk =>
      rw [← List.concat_eq_append]
      exact List.Nodup.concat hk h

theorem get?_eq_none_iff : get? key table = none ↔ key ∉ table.keys := by
  rw [← has_eq_false_iff, ← has_iff_mem_keys, Bool.not_eq_true]

/-- A table without a key twice is known by its keys in order and what is found under them. -/
theorem ext : ∀ {table table' : Table κ β}, table.keys.Nodup → table'.keys = table.keys →
    (∀ key, get? key table' = get? key table) → table' = table
  | [], [], _, _, _ => rfl
  | (k, v) :: rest, (k', v') :: rest', hn, hkeys, h => by
      obtain ⟨hk, hrest⟩ := List.nodup_cons.mp hn
      obtain ⟨rfl, hrest'⟩ : k' = k ∧ keys rest' = keys rest := List.cons.inj hkeys
      have hv : v' = v := by simpa [get?] using h k'
      have hsame : ∀ key, get? key rest' = get? key rest := by
        intro key
        by_cases hkey : k' = key
        · subst hkey
          rw [get?_eq_none_iff.mpr hk, get?_eq_none_iff.mpr (hrest' ▸ hk)]
        · simpa [get?, hkey] using h key
      rw [hv, ext hrest hrest' hsame]

end Table

namespace Context

open Table (get? keys)

variable {first second third : Table Text Text} {key name : Text} {a b c : Context}

/-! ### Two tables in one -/

theorem mergeTables_cons (key value : Text) (rest second : Table Text Text) :
    mergeTables ((key, value) :: rest) second = mergeTables rest (Table.set key value second) := rfl

theorem get?_mergeTables : ∀ {first : Table Text Text} (second : Table Text Text) (key : Text),
    first.keys.Nodup → get? key (mergeTables first second) = (get? key first).or (get? key second)
  | [], _, _, _ => rfl
  | (k, v) :: rest, second, key, hn => by
      obtain ⟨hk, hrest⟩ := List.nodup_cons.mp hn
      rw [mergeTables_cons, get?_mergeTables _ key hrest, get?]
      by_cases hkey : k = key
      · subst hkey
        rw [if_pos rfl, Table.get?_eq_none_iff.mpr hk, Table.get?_set_self]
        rfl
      · rw [if_neg hkey, Table.get?_set_of_ne (Ne.symm hkey)]

theorem keys_mergeTables : ∀ {first : Table Text Text} (second : Table Text Text),
    first.keys.Nodup →
    keys (mergeTables first second) = second.keys ++ first.keys.filter (· ∉ second.keys)
  | [], second, _ => (List.append_nil second.keys).symm
  | (k, v) :: rest, second, hn => by
      obtain ⟨hk, hrest⟩ := List.nodup_cons.mp hn
      change _ = second.keys ++ (k :: keys rest).filter (· ∉ second.keys)
      rw [mergeTables_cons, keys_mergeTables _ hrest, Table.set, Table.keys_modify]
      by_cases hm : k ∈ second.keys
      · rw [if_pos hm, List.filter_cons_of_neg (by simpa using hm)]
      · rw [if_neg hm, List.filter_cons_of_pos (by simpa using hm), List.append_assoc]
        refine congrArg (second.keys ++ k :: ·) (List.filter_congr fun key hkey => ?_)
        have hne : key ≠ k := fun e => hk (e ▸ hkey)
        simp [hne]

theorem nodup_keys_mergeTables : ∀ (first : Table Text Text) {second : Table Text Text},
    second.keys.Nodup → (mergeTables first second).keys.Nodup
  | [], _, h => h
  | (_, v) :: rest, _, h => nodup_keys_mergeTables rest (Table.nodup_keys_set v h)

theorem mergeTables_assoc (hf : first.keys.Nodup) (hs : second.keys.Nodup)
    (ht : third.keys.Nodup) : mergeTables (mergeTables first second) third =
      mergeTables first (mergeTables second third) := by
  have hfs : (mergeTables first second).keys.Nodup := nodup_keys_mergeTables _ hs
  have hst : (mergeTables second third).keys.Nodup := nodup_keys_mergeTables _ ht
  refine Table.ext (nodup_keys_mergeTables _ hst) ?_ fun key => ?_
  · rw [keys_mergeTables _ hfs, keys_mergeTables _ hf, keys_mergeTables _ hf,
      keys_mergeTables _ hs, List.filter_append, List.filter_filter, List.append_assoc]
    congr 2
    refine List.filter_congr fun key _ => ?_
    rw [← Bool.decide_and, decide_eq_decide, List.mem_append, List.mem_filter, decide_eq_true_eq]
    tauto
  · rw [get?_mergeTables _ _ hfs, get?_mergeTables _ _ hf, get?_mergeTables _ _ hf,
      get?_mergeTables _ _ hs, Option.or_assoc]

theorem mergeTables_empty (h : first.keys.Nodup) : mergeTables first [] = first :=
  Table.ofPairs_of_nodup h

theorem mergeTables_self (h : first.keys.Nodup) : mergeTables first first = first := by
  refine Table.ext h ?_ fun key => ?_
  · rw [keys_mergeTables _ h, List.filter_eq_nil_iff.mpr fun key hkey => by simpa using hkey,
      List.append_nil]
  · rw [get?_mergeTables _ _ h, Option.or_self]

/-! ### Two contexts in one -/

/-- The tables of a context. -/
def parts : List (Context → Table Text Text) := [timeouts, data, methods]

/-- No table of a context has a key twice. -/
def Lawful (c : Context) : Prop := ∀ part ∈ parts, (part c).keys.Nodup

theorem forall_part {P : (Context → Table Text Text) → Prop} :
    (∀ part ∈ parts, P part) ↔ P timeouts ∧ P data ∧ P methods := by
  simp [parts]

theorem ext_part (h : ∀ part ∈ parts, part a = part b) : a = b := by
  obtain ⟨ht, hd, hm⟩ := forall_part.mp h
  cases a
  cases b
  simp_all

/-- Contexts are merged table by table. -/
theorem part_merge (a b : Context) :
    ∀ part ∈ parts, part (a.merge b) = mergeTables (part a) (part b) :=
  forall_part.mpr ⟨rfl, rfl, rfl⟩

theorem part_empty : ∀ part ∈ parts, part {} = [] := forall_part.mpr ⟨rfl, rfl, rfl⟩

theorem lawful_empty : Lawful {} := fun part h => by
  rw [part_empty part h]
  exact List.nodup_nil

theorem Lawful.merge (hb : b.Lawful) : (a.merge b).Lawful := fun part h => by
  rw [part_merge a b part h]
  exact nodup_keys_mergeTables _ (hb part h)

theorem merge_assoc (ha : a.Lawful) (hb : b.Lawful) (hc : c.Lawful) :
    (a.merge b).merge c = a.merge (b.merge c) := by
  refine ext_part fun part h => ?_
  rw [part_merge _ _ part h, part_merge _ _ part h, part_merge _ _ part h, part_merge _ _ part h,
    mergeTables_assoc (ha part h) (hb part h) (hc part h)]

theorem empty_merge (a : Context) : Context.merge {} a = a := rfl

theorem merge_empty (ha : a.Lawful) : a.merge {} = a := by
  refine ext_part fun part h => ?_
  rw [part_merge _ _ part h, part_empty part h, mergeTables_empty (ha part h)]

theorem merge_self (ha : a.Lawful) : a.merge a = a := by
  refine ext_part fun part h => ?_
  rw [part_merge _ _ part h, mergeTables_self (ha part h)]

/-! ### Many contexts in one -/

/-- Some contexts merged in order. -/
def mergeAll (contexts : List Context) : Context := contexts.foldl merge {}

theorem mergeAll_concat (contexts : List Context) (c : Context) :
    mergeAll (contexts ++ [c]) = (mergeAll contexts).merge c :=
  List.foldl_concat merge {} c contexts

theorem lawful_mergeAll {contexts : List Context} (h : ∀ c ∈ contexts, c.Lawful) :
    (mergeAll contexts).Lawful := by
  induction contexts using List.reverseRecOn with
  | nil => exact lawful_empty
  | append_singleton front c ih =>
      rw [mergeAll_concat]
      exact .merge (h c (by simp))

/-- Under a key stands what the first context has there that has anything. -/
theorem get?_mergeAll {contexts : List Context} (h : ∀ c ∈ contexts, c.Lawful)
    {part : Context → Table Text Text} (hpart : part ∈ parts) (key : Text) :
    get? key (part (mergeAll contexts)) = contexts.findSome? fun c => get? key (part c) := by
  -- by the last one, which is merged into all before it
  induction contexts using List.reverseRecOn with
  | nil =>
      rw [mergeAll, List.foldl_nil, part_empty part hpart]
      rfl
  | append_singleton front c ih =>
      have hfront : ∀ c ∈ front, c.Lawful := fun c hc => h c (List.mem_append_left _ hc)
      rw [mergeAll_concat, part_merge _ _ part hpart,
        get?_mergeTables _ _ (lawful_mergeAll hfront part hpart), ih hfront,
        List.findSome?_append]
      simp

/-- What a context holds of some contexts that were merged in order: under each key of theirs the name
that the first of them has there, and no other key. -/
structure FirstOf (contexts : List Context) (merged : Context) : Prop where
  lawful : merged.Lawful
  get?_eq_some_iff : ∀ part ∈ parts, ∀ key name, get? key (part merged) = some name ↔
    ∃ before c after, contexts = before ++ c :: after ∧ get? key (part c) = some name ∧
      ∀ b ∈ before, key ∉ (part b).keys
  mem_keys_iff : ∀ part ∈ parts, ∀ key,
    key ∈ (part merged).keys ↔ ∃ c ∈ contexts, key ∈ (part c).keys

theorem firstOf_mergeAll {contexts : List Context} (h : ∀ c ∈ contexts, c.Lawful) :
    FirstOf contexts (mergeAll contexts) where
  lawful := lawful_mergeAll h
  get?_eq_some_iff part hpart key name := by
    simp only [get?_mergeAll h hpart key, List.findSome?_eq_some_iff, Table.get?_eq_none_iff]
  mem_keys_iff part hpart key := by
    have hnone : key ∉ (part (mergeAll contexts)).keys ↔ ∀ c ∈ contexts, key ∉ (part c).keys := by
      simp only [← Table.get?_eq_none_iff, get?_mergeAll h hpart key, List.findSome?_eq_none_iff]
    rw [← not_iff_not, hnone]
    simp

end Context

/-! ### The contexts of proposals -/

namespace Extraction

variable {content : Text} {context : Context} {e e' : Extraction}

theorem lawful_nameTimeout (h : e.context.Lawful) (value : Text) (ms : Nat) :
    (e.nameTimeout value ms).2.context.Lawful := by
  obtain ⟨ht, hd, hm⟩ := Context.forall_part.mp h
  unfold nameTimeout
  split
  · exact h
  · exact Context.forall_part.mpr ⟨Table.nodup_keys_set _ ht, hd, hm⟩

theorem lawful_nameData (h : e.context.Lawful) (value : Text) :
    (e.nameData value).2.context.Lawful := by
  obtain ⟨ht, hd, hm⟩ := Context.forall_part.mp h
  unfold nameData
  split
  · exact h
  · exact Context.forall_part.mpr ⟨ht, Table.nodup_keys_set _ hd, hm⟩

theorem lawful_addTimeout {hit : Hit} (h : e.context.Lawful)
    (ha : addTimeout content e hit = .ok e') : e'.context.Lawful := by
  obtain ⟨ms, -, ⟨-, rfl⟩ | ⟨-, -, name, e₁, hname, rfl⟩⟩ := addTimeout_cases ha
  · exact h
  · have := lawful_nameTimeout h (hit.group 1) ms
    rwa [hname] at this

theorem lawful_addData (content : Text) (hit : Hit) (h : e.context.Lawful) :
    (addData content e hit).context.Lawful := by
  obtain ⟨-, heq⟩ | ⟨-, -, name, e₁, hname, heq⟩ := addData_cases content e hit
  · rwa [heq]
  · rw [heq]
    have := lawful_nameData h (hit.group 2)
    rwa [hname] at this

theorem lawful_foldl_addData (content : Text) : ∀ (hits : List Hit) {e : Extraction},
    e.context.Lawful → (hits.foldl (addData content) e).context.Lawful
  | [], _, h => h
  | hit :: hits, _, h => lawful_foldl_addData content hits (lawful_addData content hit h)

theorem lawful_of_ofText (he : ofText content context = .ok e) (h : context.Lawful) :
    e.context.Lawful := by
  obtain ⟨e₁, hlawful, rfl⟩ :=
    exists_waits_of_ofText (P := fun _ e => e.context.Lawful) lawful_addTimeout h he
  exact lawful_foldl_addData content _ hlawful

end Extraction

namespace Methods

theorem lawful_add {state : Context × List Text × List Change} (entry : Text × List Nat)
    (h : state.1.Lawful) : (add state entry).1.Lawful := by
  obtain ⟨ht, hd, hm⟩ := Context.forall_part.mp h
  unfold add
  dsimp only
  split
  · exact h
  · exact Context.forall_part.mpr ⟨ht, hd, Table.nodup_keys_set _ hm⟩

theorem lawful_foldl_add : ∀ (entries : Table Text (List Nat))
    {state : Context × List Text × List Change},
    state.1.Lawful → (entries.foldl add state).1.Lawful
  | [], _, h => h
  | entry :: entries, _, h => lawful_foldl_add entries (lawful_add entry h)

end Methods

theorem Proposal.lawful_of_ofText {content path : Text} {context : Context} {p : Proposal}
    (h : ofText content path context = .ok p) (hc : context.Lawful) : p.context.Lawful := by
  obtain ⟨e, he, -, hcontext, -⟩ := parts_of_ofText h
  rw [hcontext]
  exact Methods.lawful_foldl_add _ (Extraction.lawful_of_ofText he hc)

/-! ### The result -/

/-- Contexts in which no key stands twice are a monoid under `merge`, in which each is its own double;
such a context is that of each proposal made with one.  The constants of a summary have under each key
of a file the name that it has in the first file that has it, and no other key. -/
theorem Context.merge_laws :
    (∀ a b c : Context, a.Lawful → b.Lawful → c.Lawful →
      (a.merge b).Lawful ∧ (a.merge b).merge c = a.merge (b.merge c)) ∧
    (∀ a : Context, a.Lawful → Context.merge {} a = a ∧ a.merge {} = a ∧ a.merge a = a) ∧
    (∀ content path context p, Proposal.ofText content path context = .ok p → context.Lawful →
      p.context.Lawful) ∧
    ∀ proposals failures, (∀ p ∈ proposals, p.context.Lawful) →
      FirstOf (proposals.map (·.context)) (ProposalReport.ofProposals proposals failures).constants := by
  refine ⟨fun a b c ha hb hc => ⟨hb.merge, merge_assoc ha hb hc⟩,
    fun a ha => ⟨empty_merge a, merge_empty ha, merge_self ha⟩,
    fun content path context p h hc => Proposal.lawful_of_ofText h hc, fun ps fs h => ?_⟩
  have hconstants : (ProposalReport.ofProposals ps fs).constants = mergeAll (ps.map (·.context)) :=
    List.foldl_map.symm
  rw [hconstants]
  exact firstOf_mergeAll (List.forall_mem_map.mpr h)

/-- Two proposals with a key in common, and one without names. -/
def keyInBoth : List Proposal :=
  [{ filePath := "a.spec.ts", before := [], after := [],
     context := { data := [("x@example.com", "TEST_EMAIL"), ("y@example.com", "TEST_EMAIL_2")] } },
   { filePath := "b.spec.ts", before := [], after := [],
     context := { data := [("z@example.com", "TEST_EMAIL"), ("x@example.com", "TEST_EMAIL_2")] } },
   { filePath := "c.spec.ts", before := [], after := [] }]

/-- The first file gives the name, and the last one the order. -/
theorem keyInBoth_merged : (∀ p ∈ keyInBoth, p.context.Lawful) ∧
    (ProposalReport.ofProposals keyInBoth []).constants.data =
      ([("z@example.com", "TEST_EMAIL"), ("x@example.com", "TEST_EMAIL"),
        ("y@example.com", "TEST_EMAIL_2")] : Table Text Text) ∧
    (ProposalReport.ofProposals keyInBoth []).constants.data.get? ("x@example.com" : Text) =
      some ("TEST_EMAIL" : Text) := by
  have h : ∀ p ∈ keyInBoth, p.context.Lawful := by
    simp only [Context.Lawful, Context.forall_part]
    decide
  have hfirst := Context.merge_laws.2.2.2 keyInBoth [] h
  have hdata : Context.data ∈ Context.parts := by simp [Context.parts]
  refine ⟨h, by decide, (hfirst.get?_eq_some_iff _ hdata _ _).mpr ?_⟩
  exact ⟨[], _, _, rfl, by decide, by simp⟩

end SuiteAudit
