import Mathlib.Data.List.Dedup
import SuiteAudit.Proofs.Refactoring.FreeNames
import SuiteAudit.Proofs.Refactoring.SharedNames

/-! # The new names of a file

A value that the context does not know gets a new name, and a new name is chosen among the names of
the context only; the words of the file play no part.  `Extraction.Allots` follows what is given: the
new names are the first free candidates of the names that the new values ask for, as many of each as
there are values that ask for it.  So a new name is a word of the file already exactly when one of
these candidates is (`Proposal.new_names_iff`), as in a file that declares such a name itself
(`Proposal.new_name_is_declared`). -/

namespace SuiteAudit

/-- A text holds a name as a maximal run of word characters. -/
def HoldsIdentifier (content name : Text) : Prop :=
  ∃ a b, content = a ++ name ++ b ∧ name ≠ [] ∧ (∀ c ∈ name, Text.isWordChar c = true) ∧
    a.getLast?.any Text.isWordChar = false ∧ b.head?.any Text.isWordChar = false

/-- The names of constants that a context has and an earlier one had not. -/
def Context.newConstants (earlier later : Context) : List Text :=
  Table.values (later.timeouts.drop earlier.timeouts.length) ++
    Table.values (later.data.drop earlier.data.length)

/-! ### What the new values ask for -/

/-- The name that a wait asks for, if it is long. -/
def waitBase? (value : Text) : Option Text :=
  match readNumeral value with
  | .ok ms => if Literal.minNamedTimeout ≤ ms then some (Literal.timeoutName ms) else none
  | .error _ => none

theorem isSome_waitBase?_iff {value : Text} : (waitBase? value).isSome = true ↔ IsLongWait value := by
  unfold waitBase? IsLongWait
  cases readNumeral value with
  | error cause => simp
  | ok ms => simp

/-- The long waits of a file without a name in the context, each once. -/
def newWaits (content : Text) (context : Context) : List Text :=
  ((Literal.timeoutCall.findAll content).map (·.group 1)).dedup.filter fun v =>
    (waitBase? v).isSome && !context.timeouts.has v

/-- The same for test data. -/
def newTexts (content : Text) (context : Context) : List Text :=
  ((Literal.longText.findAll content).map (·.group 2)).dedup.filter fun v =>
    Literal.looksLikeTestData v && !context.data.has v

/-- The names that some waits and texts ask for. -/
def basesOf (waits texts : List Text) : List Text :=
  waits.filterMap waitBase? ++ texts.map Literal.dataName

theorem isBase_of_mem_basesOf {waits texts : List Text} {b : Text} (h : b ∈ basesOf waits texts) :
    IsBase b := by
  rcases List.mem_append.mp h with h | h
  · obtain ⟨v, -, hv⟩ := List.mem_filterMap.mp h
    unfold waitBase? at hv
    split at hv
    · next ms _ =>
      split at hv
      · exact Or.inl ⟨ms, (Option.some.inj hv).symm⟩
      · cases hv
    · cases hv
  · obtain ⟨v, -, rfl⟩ := List.mem_map.mp h
    exact Or.inr ⟨v, rfl⟩

theorem basesOf_wait {v base : Text} (h : waitBase? v = some base) (waits texts : List Text) :
    (basesOf (waits ++ [v]) texts).Perm (base :: basesOf waits texts) := by
  unfold basesOf
  rw [List.filterMap_append, List.filterMap_cons_some h, List.filterMap_nil, List.append_assoc]
  exact List.perm_middle

theorem basesOf_text (v : Text) (waits texts : List Text) :
    (basesOf waits (texts ++ [v])).Perm (Literal.dataName v :: basesOf waits texts) := by
  unfold basesOf
  rw [List.map_append, ← List.append_assoc]
  exact List.perm_append_singleton _ _

namespace Extraction

/-! ### One value more -/

/-- What has been given so far: the entries `waits` and `texts` are new in the context, one for each
value of this file that the first context does not know; their names are the first free ones, and
besides the names of the first context only they are taken. -/
structure Allots (context : Context) (waits texts : Table Text Text) (e : Extraction) : Prop where
  timeouts_eq : e.context.timeouts = context.timeouts ++ waits
  data_eq : e.context.data = context.data ++ texts
  waits_keys : waits.keys = e.timeouts.keys.filter fun v => !context.timeouts.has v
  texts_keys : texts.keys = e.data.keys.filter fun v => !context.data.has v
  names_iff : ∀ n, n ∈ waits.values ++ texts.values ↔
    IsAmong context.names (basesOf waits.keys texts.keys) n
  taken_iff : ∀ n, n ∈ e.taken ↔
    n ∈ context.names ∨ IsAmong context.names (basesOf waits.keys texts.keys) n

theorem allots_start (context : Context) : Allots context [] [] (start context) where
  timeouts_eq := (List.append_nil _).symm
  data_eq := (List.append_nil _).symm
  waits_keys := rfl
  texts_keys := rfl
  names_iff := fun n => ⟨fun h => by (cases h), fun h => absurd h not_isAmong_nil⟩
  taken_iff := fun n => ⟨Or.inl, fun h => h.resolve_right not_isAmong_nil⟩

/-- A value that is new in a file is known to the context if it was known before. -/
theorem has_eq_of_append {given entries larger used : Table Text Text} {v : Text}
    (he : larger = given ++ entries)
    (hk : entries.keys = used.keys.filter fun v => !given.has v) (hv : used.has v = false) :
    larger.has v = given.has v := by
  rw [Bool.eq_iff_iff, Table.has_iff_mem_keys, Table.has_iff_mem_keys, he, Table.keys,
    List.map_append, List.mem_append]
  refine ⟨fun h => h.resolve_right fun hm => ?_, Or.inl⟩
  have hm : v ∈ entries.keys := hm
  rw [hk] at hm
  exact Table.not_mem_keys_of_has_eq_false hv (List.mem_of_mem_filter hm)

/-- The values without a name before, when one more has come in. -/
theorem keys_filter_set {used : Table Text Text} {v : Text} (hv : used.has v = false)
    (given : Table Text Text) (name : Text) :
    (used.set v name).keys.filter (fun v => !given.has v) =
      used.keys.filter (fun v => !given.has v) ++ if given.has v then [] else [v] := by
  rw [Table.set_of_has_eq_false hv, Table.keys, List.map_append, List.filter_append]
  cases h : given.has v <;> simp [h, Table.keys]

theorem has_of_get? {table : Table Text Text} {v name : Text} (h : table.get? v = some name) :
    table.has v = true := Table.has_iff.mpr ⟨name, h⟩

variable {content : Text} {context : Context} {e e' : Extraction} {hit : Hit}
  {waits texts : Table Text Text}

/-- A new name for a base is the next of the first free ones. -/
theorem Allots.next (h : Allots context waits texts e) {base : Text} {asked : List Text}
    (hb : IsBase base) (hp : asked.Perm (base :: basesOf waits.keys texts.keys)) :
    (∀ n, n ∈ unusedName base e.taken :: (waits.values ++ texts.values) ↔
      IsAmong context.names asked n) ∧
    ∀ n, n ∈ unusedName base e.taken :: e.taken ↔
      n ∈ context.names ∨ IsAmong context.names asked n := by
  have hnext : ∀ n, IsAmong context.names asked n ↔ n = unusedName base e.taken ∨
      IsAmong context.names (basesOf waits.keys texts.keys) n := by
    intro n
    rw [isAmong_congr hp]
    exact isAmong_cons (fun _ => isBase_of_mem_basesOf) hb h.taken_iff n
  constructor <;> intro n
  · rw [List.mem_cons, h.names_iff, hnext]
  · rw [List.mem_cons, h.taken_iff, hnext, or_left_comm]

theorem Allots.addTimeout (h : Allots context waits texts e)
    (hs : addTimeout content e hit = .ok e') : ∃ waits', Allots context waits' texts e' := by
  obtain ⟨ms, hr, ⟨-, rfl⟩ | ⟨hms, hh, name, e₁, hn, rfl⟩⟩ := addTimeout_cases hs
  · exact ⟨waits, h⟩
  · have hknown := has_eq_of_append h.timeouts_eq h.waits_keys hh
    have hkeys := keys_filter_set hh context.timeouts name
    cases hg : e.context.timeouts.get? (hit.group 1) with
    | some old =>
        rw [nameTimeout_of_some hg] at hn
        obtain ⟨rfl, rfl⟩ := Prod.mk.inj hn
        rw [has_of_get? hg] at hknown
        rw [← hknown, if_pos rfl, List.append_nil, ← h.waits_keys] at hkeys
        exact ⟨waits, { h with waits_keys := hkeys.symm }⟩
    | none =>
        rw [nameTimeout_of_none hg] at hn
        obtain ⟨rfl, rfl⟩ := Prod.mk.inj hn
        rw [Table.has_eq_false_iff.mpr hg] at hknown
        rw [← hknown, if_neg Bool.false_ne_true, ← h.waits_keys] at hkeys
        have hbase : waitBase? (hit.group 1) = some (Literal.timeoutName ms) := by
          unfold waitBase?
          rw [hr]
          exact if_pos hms
        obtain ⟨hnames, htaken⟩ := h.next (Or.inl ⟨ms, rfl⟩) (basesOf_wait hbase _ _)
        refine ⟨waits ++ [(hit.group 1, unusedName (Literal.timeoutName ms) e.taken)], {
          timeouts_eq := ?_
          data_eq := h.data_eq
          waits_keys := (Table.keys_concat _ _ _).trans hkeys.symm
          texts_keys := h.texts_keys
          names_iff := fun n => ?_
          taken_iff := fun n => ?_ }⟩
        · simp only
          rw [h.timeouts_eq, List.append_assoc]
        · rw [Table.keys_concat, Table.values_concat, List.append_assoc, List.singleton_append,
            List.perm_middle.mem_iff]
          exact hnames n
        · rw [Table.keys_concat]
          exact htaken n

theorem Allots.addData (h : Allots context waits texts e) (content : Text) (hit : Hit) :
    ∃ texts', Allots context waits texts' (addData content e hit) := by
  obtain ⟨-, he⟩ | ⟨-, hh, name, e₁, hn, he⟩ := addData_cases content e hit <;> rw [he]
  · exact ⟨texts, h⟩
  · have hknown := has_eq_of_append h.data_eq h.texts_keys hh
    have hkeys := keys_filter_set hh context.data name
    cases hg : e.context.data.get? (hit.group 2) with
    | some old =>
        rw [nameData_of_some hg] at hn
        obtain ⟨rfl, rfl⟩ := Prod.mk.inj hn
        rw [has_of_get? hg] at hknown
        rw [← hknown, if_pos rfl, List.append_nil, ← h.texts_keys] at hkeys
        exact ⟨texts, { h with texts_keys := hkeys.symm }⟩
    | none =>
        rw [nameData_of_none hg] at hn
        obtain ⟨rfl, rfl⟩ := Prod.mk.inj hn
        rw [Table.has_eq_false_iff.mpr hg] at hknown
        rw [← hknown, if_neg Bool.false_ne_true, ← h.texts_keys] at hkeys
        obtain ⟨hnames, htaken⟩ := h.next (Or.inr ⟨hit.group 2, rfl⟩) (basesOf_text _ _ _)
        refine ⟨texts ++ [(hit.group 2, unusedName (Literal.dataName (hit.group 2)) e.taken)], {
          timeouts_eq := h.timeouts_eq
          data_eq := ?_
          waits_keys := h.waits_keys
          texts_keys := (Table.keys_concat _ _ _).trans hkeys.symm
          names_iff := fun n => ?_
          taken_iff := fun n => ?_ }⟩
        · simp only
          rw [h.data_eq, List.append_assoc]
        · rw [Table.keys_concat, Table.values_concat, ← List.append_assoc,
            (List.perm_append_singleton _ _).mem_iff]
          exact hnames n
        · rw [Table.keys_concat]
          exact htaken n

/-! ### A whole file -/

theorem Allots.foldl : ∀ (hits : List Hit) {texts : Table Text Text} {e : Extraction},
    Allots context waits texts e →
      ∃ texts', Allots context waits texts' (hits.foldl (Extraction.addData content) e)
  | [], texts, _, h => ⟨texts, h⟩
  | hit :: hits, _, _, h => by
      obtain ⟨_, h'⟩ := h.addData content hit
      exact Allots.foldl hits h'

theorem allots_of_ofText (he : ofText content context = .ok e) :
    ∃ waits texts, Allots context waits texts e := by
  obtain ⟨e₁, ⟨waits, h⟩, rfl⟩ :=
    exists_waits_of_ofText (P := fun _ e => ∃ waits, Allots context waits [] e)
      (fun ⟨_, h⟩ ha => h.addTimeout ha) ⟨[], allots_start context⟩ he
  obtain ⟨texts, h⟩ := h.foldl (Literal.longText.findAll content)
  exact ⟨waits, texts, h⟩

/-- The values of a file that are entered without having been known are its new ones. -/
theorem Allots.perm_bases (h : Allots context waits texts e)
    (he : ofText content context = .ok e) :
    (basesOf waits.keys texts.keys).Perm
      (basesOf (newWaits content context) (newTexts content context)) := by
  have hh := holds_of_ofText he
  obtain ⟨_, _, hr⟩ := recorded_of_ofText he
  have hkeys : e.timeouts.keys.Nodup ∧ e.data.keys.Nodup := by
    rw [hr.timeouts_eq, hr.data_eq, Table.keys, Table.keys, List.map_map, List.map_map]
    exact ⟨hr.waits_nodup, hr.texts_nodup⟩
  have hwaits : waits.keys.Perm (newWaits content context) := by
    rw [h.waits_keys, newWaits,
      List.perm_ext_iff_of_nodup (hkeys.1.filter _) ((List.nodup_dedup _).filter _)]
    intro v
    simp only [List.mem_filter, List.mem_dedup, List.mem_map, Bool.and_eq_true,
      isSome_waitBase?_iff, ← Table.has_iff_mem_keys, hh.timeouts_iff]
    tauto
  have htexts : texts.keys.Perm (newTexts content context) := by
    rw [h.texts_keys, newTexts,
      List.perm_ext_iff_of_nodup (hkeys.2.filter _) ((List.nodup_dedup _).filter _)]
    intro v
    simp only [List.mem_filter, List.mem_dedup, List.mem_map, Bool.and_eq_true,
      ← Table.has_iff_mem_keys, hh.data_iff]
    tauto
  exact (hwaits.filterMap _).append (htexts.map _)

end Extraction

namespace Proposal

variable {content path : Text} {context : Context} {p : Proposal}

/-- The new names of a proposal are no names of the given context.  They are the first free
candidates of the names that the new values of the file ask for, as many of each as there are values
that ask for it.  So no new name is a word of the file exactly when none of these candidates is. -/
theorem new_names_iff (h : ofText content path context = .ok p) :
    (context.timeouts <+: p.context.timeouts ∧ context.data <+: p.context.data) ∧
    (∀ n ∈ context.newConstants p.context, n ∉ context.names) ∧
    (∀ n, n ∈ context.newConstants p.context ↔ IsAmong context.names
      (basesOf (newWaits content context) (newTexts content context)) n) ∧
    ((∀ n ∈ context.newConstants p.context, ¬ HoldsIdentifier content n) ↔
      ∀ base j, candidate base j ∉ context.names → freeBefore context.names base j <
        (basesOf (newWaits content context) (newTexts content context)).count base →
        ¬ HoldsIdentifier content (candidate base j)) := by
  obtain ⟨e, he, -, hcontext, -⟩ := parts_of_ofText h
  obtain ⟨taken, hm⟩ := Methods.keeps_extract content e.context
  obtain ⟨waits, texts, ha⟩ := Extraction.allots_of_ofText he
  have htimeouts : p.context.timeouts = context.timeouts ++ waits := by
    rw [hcontext, hm.timeouts_eq, ha.timeouts_eq]
  have hdata : p.context.data = context.data ++ texts := by
    rw [hcontext, hm.data_eq, ha.data_eq]
  have hnew : ∀ n, n ∈ context.newConstants p.context ↔ IsAmong context.names
      (basesOf (newWaits content context) (newTexts content context)) n := by
    intro n
    rw [Context.newConstants, htimeouts, hdata, List.drop_left, List.drop_left, ha.names_iff,
      isAmong_congr (ha.perm_bases he)]
  refine ⟨⟨htimeouts ▸ List.prefix_append _ _, hdata ▸ List.prefix_append _ _⟩,
    fun n hn => ((hnew n).mp hn).not_mem, hnew, fun hall base j hj hlt => ?_, fun hall n hn => ?_⟩
  · exact hall _ ((hnew _).mpr ⟨base, j, rfl, hj, hlt⟩)
  · obtain ⟨base, j, rfl, hj, hlt⟩ := (hnew n).mp hn
    exact hall base j hj hlt

/-- A file that declares the name that one of its waits asks for. -/
def declaringContent : Text := "const SHORT_TIMEOUT = 500;\nawait page.waitForTimeout(1000);"

/-- With a context in which that name stands for another wait, the new name is the next one. -/
theorem second_name_is_new : ∃ p, ofText declaringContent "a.spec.ts" Context.givenContext = .ok p ∧
    Context.givenContext.newConstants p.context = [("SHORT_TIMEOUT_2" : Text)] ∧
    ("SHORT_TIMEOUT_2" : Text) ∉ Context.givenContext.names ∧
    IsAmong Context.givenContext.names (basesOf (newWaits declaringContent Context.givenContext)
      (newTexts declaringContent Context.givenContext)) "SHORT_TIMEOUT_2" := by
  have h : (ofText declaringContent "a.spec.ts" Context.givenContext).toOption.any (fun p =>
      Context.givenContext.newConstants p.context = [("SHORT_TIMEOUT_2" : Text)]) = true := by
    decide +kernel
  obtain ⟨p, hp, hnames⟩ := Extraction.exists_ok_of_any h
  obtain ⟨-, hfree, hnew, -⟩ := new_names_iff hp
  have hnames := of_decide_eq_true hnames
  have hmem : ("SHORT_TIMEOUT_2" : Text) ∈ Context.givenContext.newConstants p.context := by
    rw [hnames]
    exact List.mem_cons_self
  exact ⟨p, hp, hnames, hfree _ hmem, (hnew _).mp hmem⟩

/-- Without that context the file gets a name that it declares itself. -/
theorem new_name_is_declared : ∃ p, ofText declaringContent "a.spec.ts" {} = .ok p ∧
    ("SHORT_TIMEOUT" : Text) ∈ Context.newConstants {} p.context ∧
    HoldsIdentifier declaringContent "SHORT_TIMEOUT" := by
  have h : (ofText declaringContent "a.spec.ts" {}).toOption.any (fun p =>
      ("SHORT_TIMEOUT" : Text) ∈ Context.newConstants {} p.context) = true := by
    decide +kernel
  obtain ⟨p, hp, hmem⟩ := Extraction.exists_ok_of_any h
  exact ⟨p, hp, of_decide_eq_true hmem, "const ", " = 500;\nawait page.waitForTimeout(1000);", rfl,
    by decide, Text.forall_mem_of_all (by decide), by decide, by decide⟩

end Proposal
end SuiteAudit
