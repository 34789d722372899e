import SuiteAudit.Proofs.Literal.TextLines
import SuiteAudit.Proofs.Refactoring.Naming
import SuiteAudit.Proofs.Refactoring.Replaced

/-! # Quoted texts before and after waits are named

Naming the waits of a text leaves its quoted texts where they are, up to the waits in them: a search
for quoted texts goes through both in step (`Named.inStep`).  Only a named wait that runs over the end
of a line behind a mark could put it out of step, since the line feed goes with it
(`Unbroken`).  The texts are compared as characters that carry what they take the place of, which
are followed through the second replacement (`InStep.keeps`, `InStep.puts_in`). -/

namespace SuiteAudit
namespace Extraction

open Literal

/-- The call of a wait with a name. -/
def namedWait (name : Text) : Text := waitStart ++ (name ++ [')'])

/-- A text and its characters once some waits are named; those put in carry the wait that they take
the place of. -/
inductive Named (timeouts : Table Text Text) : Text → List (Char × Option Text) → Prop
  | nil : Named timeouts [] []
  | keep {c : Char} {t : Text} {cells : List (Char × Option Text)} :
      Named timeouts t cells → Named timeouts (c :: t) ((c, none) :: cells)
  | name {d w n t : Text} {cells : List (Char × Option Text)} : IsWait d w →
      timeouts.get? d = some n → Named timeouts t cells →
      Named timeouts (w ++ t) ((namedWait n).map (·, some w) ++ cells)

variable {timeouts data : Table Text Text} {t v w d n : Text} {cells u : List (Char × Option Text)}
  {q : Char}

theorem Named.keep_all (h : Named timeouts t cells) : ∀ s : Text,
    Named timeouts (s ++ t) (s.map (·, none) ++ cells)
  | [] => h
  | _ :: s => (h.keep_all s).keep

/-- The characters of a text with its waits named. -/
theorem named_findAllFrom (e : Extraction) (b : Option Char) (o : Nat) (t : Text) :
    Named e.timeouts t (Pattern.inscribe (some ·.text)
      (Pattern.edits e.waitEdit (timeoutCall.findAllFrom 0 b o t)) o (t.map (·, none))) := by
  induction b, o, t using Pattern.scan_induction timeoutCall_advances with
  | nil b o => exact .nil
  | miss b o c t hm ih =>
      rw [List.map_cons, Pattern.inscribe_passed timeoutCall_advances _ _ hm]
      exact ih.keep
  | hit b o h r hne hm ih =>
      obtain ⟨d, w, -, hw, -, rfl⟩ := matchAt_timeoutCall_iff.mp hm
      rw [List.map_append, Pattern.inscribe_taken timeoutCall_advances _ _ hne hm (List.length_map _),
        waitEdit, waitHit_value]
      cases hg : e.timeouts.get? d with
      | none => exact ih.keep_all w
      | some n => exact ih.name hw hg

/-! ### What it is made of -/

theorem IsNameText.not_mark_mem (hn : IsNameText n) {c : Char} (hc : c ∈ n) : isMark c = false := by
  refine Bool.eq_false_iff.mpr fun hm => ?_
  rcases isMark_iff.mp hm with rfl | rfl <;> exact hn.not_mem (by decide) hc

theorem isPlainQuoted_of_mem_namedWait (hn : IsNameText n) {c : Char} (hc : c ∈ namedWait n) :
    isPlainQuoted c = true := by
  have hstart : ∀ c ∈ waitStart, isPlainQuoted c = true := Text.forall_mem_of_all (by decide)
  simp only [namedWait, List.mem_append, List.mem_singleton] at hc
  rcases hc with hc | hc | rfl
  · exact hstart c hc
  · exact isPlainQuoted_iff.mpr
      ⟨IsNameText.not_mark_mem hn hc, fun e => hn.not_mem (by decide) (e ▸ hc)⟩
  · decide

theorem not_mark_mem_namedWait (hn : IsNameText n) {c : Char} (hc : c ∈ namedWait n) :
    isMark c = false := (isPlainQuoted_iff.mp (isPlainQuoted_of_mem_namedWait hn hc)).1

/-- Without a named wait nothing is put in. -/
theorem Named.eq_of_not_infix (h : Named timeouts v u)
    (hv : ∀ d w, IsWait d w → (timeouts.get? d).isSome → ¬w <:+: v) : u = v.map (·, none) := by
  induction h with
  | nil => rfl
  | @keep c v u _ ih =>
      rw [ih fun d w hw hd hin => hv d w hw hd (hin.trans (List.suffix_cons c v).isInfix)]
      rfl
  | @name d w n v u hw hg _ _ =>
      exact absurd (List.prefix_append w v).isInfix (hv d w hw (by rw [hg]; rfl))

/-- A text is as long as before, or long on both sides. -/
theorem Named.length_cases (h : Named timeouts v u) :
    u.length = v.length ∨ minDataLength ≤ v.length ∧ minDataLength ≤ u.length := by
  induction h with
  | nil => exact .inl rfl
  | keep _ ih =>
      simp only [List.length_cons]
      omega
  | name hw _ _ _ =>
      have hstart : waitStart.length = minDataLength := by decide
      have := hw.start_prefix_text.length_le
      simp only [namedWait, List.length_append, List.length_map]
      omega

theorem Named.plain (h : Named timeouts v u) (hn : ∀ n ∈ timeouts.values, IsNameText n)
    (hv : ∀ c ∈ v, isPlainQuoted c = true) : ∀ x ∈ u, isPlainQuoted x.1 = true := by
  induction h with
  | nil => exact fun x hx => by cases hx
  | keep _ ih =>
      obtain ⟨hc, hv⟩ := List.forall_mem_cons.mp hv
      exact List.forall_mem_cons.mpr ⟨hc, ih hv⟩
  | name _ hg _ ih =>
      refine List.forall_mem_append.mpr ⟨List.forall_mem_map.mpr fun c hc => ?_,
        ih (List.forall_mem_append.mp hv).2⟩
      exact isPlainQuoted_of_mem_namedWait (hn _ (Table.mem_values_of_get? hg)) hc

theorem Named.not_mark (h : Named timeouts v u) (hu : ∀ x ∈ u, isMark x.1 = false) :
    ∀ c ∈ v, isMark c = false := by
  induction h with
  | nil => exact fun c hc => by cases hc
  | keep _ ih =>
      obtain ⟨hc, hu⟩ := List.forall_mem_cons.mp hu
      exact List.forall_mem_cons.mpr ⟨hc, ih hu⟩
  | name hw _ _ ih =>
      refine List.forall_mem_append.mpr ⟨fun c hc => (hw.not_mark_mem hc).1, ?_⟩
      exact ih (List.forall_mem_append.mp hu).2

/-- A line feed that is gone was part of a named wait. -/
theorem Named.newline_cases (h : Named timeouts v u) (hu : ∀ x ∈ u, x.1 ≠ '\n') : '\n' ∉ v ∨
    ∃ a d w r, v = a ++ (w ++ r) ∧ '\n' ∉ a ∧ IsWait d w ∧ (timeouts.get? d).isSome ∧ '\n' ∈ w := by
  induction h with
  | nil => exact .inl List.not_mem_nil
  | keep _ ih =>
      obtain ⟨hc, hu⟩ := List.forall_mem_cons.mp hu
      rcases ih hu with h | ⟨a, d, w, r, rfl, ha, hw, hg, hn⟩
      · exact .inl (List.not_mem_cons_of_ne_of_not_mem hc.symm h)
      · exact .inr ⟨_ :: a, d, w, r, rfl, List.not_mem_cons_of_ne_of_not_mem hc.symm ha, hw, hg, hn⟩
  | @name d w n v u hw hg _ ih =>
      have hsome : (timeouts.get? d).isSome := by rw [hg]; rfl
      by_cases hn : '\n' ∈ w
      · exact .inr ⟨[], d, w, v, rfl, List.not_mem_nil, hw, hsome, hn⟩
      · rcases ih (List.forall_mem_append.mp hu).2 with h | ⟨a, d', w', r, rfl, ha, hw', hg', hn'⟩
        · exact .inl fun hm => (List.mem_append.mp hm).elim hn h
        · refine .inr ⟨w ++ a, d', w', r, (List.append_assoc _ _ _).symm, ?_, hw', hg', hn'⟩
          exact fun hm => (List.mem_append.mp hm).elim hn ha

/-! ### Cut at a mark -/

/-- A mark of the text stands among the characters, with the same before and behind it. -/
theorem Named.cut {r : Text} (h : Named timeouts t cells) (hq : isMark q = true) : ∀ {v : Text},
    t = v ++ q :: r → ∃ u rest, cells = u ++ (q, none) :: rest ∧ Named timeouts v u ∧
      Named timeouts r rest := by
  induction h with
  | nil => exact fun e => by simp at e
  | keep h ih =>
      intro v e
      cases v with
      | nil =>
          obtain ⟨rfl, rfl⟩ := List.cons.inj e
          exact ⟨[], _, rfl, .nil, h⟩
      | cons c v =>
          obtain ⟨rfl, e'⟩ := List.cons.inj e
          obtain ⟨u, rest, rfl, hu, hr⟩ := ih e'
          exact ⟨_ :: u, rest, rfl, hu.keep, hr⟩
  | name hw hg _ ih =>
      intro v e
      have hnot : q ∉ _ := fun hm => by
        have := (hw.not_mark_mem hm).1
        rw [hq] at this
        cases this
      obtain ⟨s, rfl, e'⟩ := Text.exists_of_append_eq hnot e
      obtain ⟨u, rest, rfl, hu, hr⟩ := ih e'
      exact ⟨_, rest, (List.append_assoc _ _ _).symm, hu.name hw hg, hr⟩

/-- A mark among the characters stands in the text, with the same before and behind it. -/
theorem Named.cut_cells {r : Text} (h : Named timeouts t cells)
    (hn : ∀ n ∈ timeouts.values, IsNameText n) (hq : isMark q = true) : ∀ {v : Text},
    cells.map Prod.fst = v ++ q :: r → ∃ x u y, t = x ++ q :: y ∧ u.map Prod.fst = v ∧
      Named timeouts x u := by
  induction h with
  | nil => exact fun e => by simp at e
  | @keep _ t _ h ih =>
      intro v e
      rw [List.map_cons] at e
      cases v with
      | nil =>
          obtain ⟨rfl, -⟩ := List.cons.inj e
          exact ⟨[], [], t, rfl, rfl, .nil⟩
      | cons c v =>
          obtain ⟨rfl, e'⟩ := List.cons.inj e
          obtain ⟨x, u, y, rfl, rfl, hu⟩ := ih e'
          exact ⟨_ :: x, _ :: u, y, rfl, rfl, hu.keep⟩
  | name hw hg _ ih =>
      intro v e
      have hnot : q ∉ namedWait _ := fun hm => by
        have := not_mark_mem_namedWait (hn _ (Table.mem_values_of_get? hg)) hm
        rw [hq] at this
        cases this
      rw [List.map_append, Pattern.map_fst_map_mark] at e
      obtain ⟨s, rfl, e'⟩ := Text.exists_of_append_eq hnot e
      obtain ⟨x, u, y, rfl, rfl, hu⟩ := ih e'
      refine ⟨_, _, y, (List.append_assoc _ _ _).symm, ?_, hu.name hw hg⟩
      rw [List.map_append, Pattern.map_fst_map_mark]

/-! ### In step -/

/-- No mark stands before a long wait that runs over the end of the line on which it begins. -/
def Unbroken (t : Text) : Prop :=
  ∀ q s d w, isMark q = true → '\n' ∉ s → IsWait d w → IsLongWait d → '\n' ∈ w →
    ¬q :: (s ++ w) <:+: t

theorem Unbroken.of_infix {s t : Text} (h : Unbroken t) (hs : s <:+: t) : Unbroken s :=
  fun q x d w hq hx hw hd hn hin => h q x d w hq hx hw hd hn (hin.trans hs)

/-- A long quoted text stands at the beginning. -/
def BeginsLong (t : Text) : Prop := ∃ q v r, IsLong q v ∧ t = q :: (v ++ q :: r)

theorem matchAt_eq_none_of_not_beginsLong (h : ¬BeginsLong t) (b : Option Char) (o : Nat) :
    longText.matchAt ⟨b, t, o⟩ = none := by
  cases hm : longText.matchAt ⟨b, t, o⟩ with
  | none => rfl
  | some hit =>
      obtain ⟨q, v, r, hv, e, -⟩ := matchAt_longText_iff.mp hm
      exact absurd ⟨q, v, r, hv, e⟩ h

/-- The steps of a search for long quoted texts through a text and its characters with the waits
named: both pass over a character, both pass over a wait, or both take a quoted text. -/
inductive InStep (timeouts : Table Text Text) : Text → List (Char × Option Text) → Prop
  | nil : InStep timeouts [] []
  | passed {c : Char} {t : Text} {cells : List (Char × Option Text)} : ¬BeginsLong (c :: t) →
      ¬BeginsLong (c :: cells.map Prod.fst) → InStep timeouts t cells →
      InStep timeouts (c :: t) ((c, none) :: cells)
  | named {d w n t : Text} {cells : List (Char × Option Text)} : IsWait d w →
      timeouts.get? d = some n → InStep timeouts t cells →
      InStep timeouts (w ++ t) ((namedWait n).map (·, some w) ++ cells)
  | quoted {q : Char} {v t : Text} {u cells : List (Char × Option Text)} : IsLong q v →
      IsLong q (u.map Prod.fst) → Named timeouts v u → InStep timeouts t cells →
      InStep timeouts (quote q v ++ t) ((q, none) :: (u ++ [(q, none)]) ++ cells)

theorem Named.isLong (h : Named timeouts v u) (hn : ∀ n ∈ timeouts.values, IsNameText n)
    (hv : IsLong q v) : IsLong q (u.map Prod.fst) := by
  refine ⟨hv.mark, List.forall_mem_map.mpr (h.plain hn hv.plain), ?_⟩
  have := hv.long
  rw [List.length_map]
  rcases h.length_cases with e | ⟨-, hu⟩
  · omega
  · exact hu

/-- A quoted text once the waits are named was one before. -/
theorem Named.isLong_of_cells {r : Text} (h : Named timeouts v u)
    (hlong : ∀ d, (timeouts.get? d).isSome → IsLongWait d) (ht : Unbroken (q :: (v ++ r)))
    (hu : IsLong q (u.map Prod.fst)) : IsLong q v := by
  have hplain : ∀ x ∈ u, isPlainQuoted x.1 = true := List.forall_mem_map.mp hu.plain
  have hmark := h.not_mark fun x hx => (isPlainQuoted_iff.mp (hplain x hx)).1
  have hline : '\n' ∉ v := by
    rcases h.newline_cases fun x hx => (isPlainQuoted_iff.mp (hplain x hx)).2 with hv | hv
    · exact hv
    · obtain ⟨a, d, w, s, rfl, ha, hw, hg, hn⟩ := hv
      refine absurd ?_ (ht q a d w hu.mark ha hw (hlong d hg) hn)
      exact ⟨[], s ++ r, by simp⟩
  refine ⟨hu.mark, fun c hc => isPlainQuoted_iff.mpr ⟨hmark c hc, fun e => hline (e ▸ hc)⟩, ?_⟩
  have := hu.long
  rw [List.length_map] at this
  rcases h.length_cases with e | ⟨hv, -⟩
  · omega
  · exact hv

/-- A search for long quoted texts goes in step through a text before and after its waits are
named. -/
theorem Named.inStep (h : Named timeouts t cells) (hn : ∀ n ∈ timeouts.values, IsNameText n)
    (hlong : ∀ d, (timeouts.get? d).isSome → IsLongWait d) (ht : Unbroken t) :
    InStep timeouts t cells := by
  -- a quoted text is passed over as a whole, so the induction is on the length of the rest
  induction hl : t.length using Nat.strongRecOn generalizing t cells with
  | ind l ih =>
  subst hl
  cases h with
  | nil => exact .nil
  | @name d w n t cells hw hg h =>
      have hlt : t.length < (w ++ t).length := by
        obtain ⟨s, rfl, -⟩ := hw.exists_cons
        simp only [List.cons_append, List.length_cons, List.length_append]
        omega
      exact .named hw hg (ih _ hlt h (ht.of_infix (List.suffix_append w t).isInfix) rfl)
  | @keep c t cells h =>
      by_cases hb : BeginsLong (c :: t)
      · obtain ⟨q, v, r, hv, e⟩ := hb
        obtain ⟨rfl, rfl⟩ := List.cons.inj e
        obtain ⟨u, rest, rfl, hvu, hr⟩ := h.cut hv.mark rfl
        have hlt : r.length < (c :: (v ++ c :: r)).length := by
          simp only [List.length_cons, List.length_append]
          omega
        have hsuffix : r <:+: c :: (v ++ c :: r) := ⟨c :: v ++ [c], [], by simp⟩
        have := InStep.quoted hv (hvu.isLong hn hv) hvu (ih _ hlt hr (ht.of_infix hsuffix) rfl)
        simpa [quote] using this
      · refine .passed hb ?_ (ih _ (Nat.lt_succ_self _) h
          (ht.of_infix (List.suffix_cons c t).isInfix) rfl)
        rintro ⟨q, v, r, hv, e⟩
        obtain ⟨rfl, e⟩ := List.cons.inj e
        obtain ⟨x, u, y, rfl, rfl, hxu⟩ := h.cut_cells hn hv.mark e
        exact hb ⟨c, x, y, hxu.isLong_of_cells hlong ht hv, rfl⟩

/-! ### Through the second replacement -/

/-- Characters with names in place of the quoted texts that have one. -/
def quotesNamed (data : Table Text Text) (b : Option Char) (o : Nat)
    (cells : List (Char × Option Text)) : List (Char × Option Text) :=
  Pattern.inscribe (some ·.text) (Pattern.edits (fun hit => data.get? (hit.group 2))
    (longText.findAllFrom 0 b o (cells.map Prod.fst))) o cells

theorem quotesNamed_passed {c : Char} {m : Option Text} (b : Option Char) (o : Nat)
    (h : ¬BeginsLong (c :: cells.map Prod.fst)) :
    quotesNamed data b o ((c, m) :: cells) =
      (c, m) :: quotesNamed data (some c) (o + 1) cells :=
  Pattern.inscribe_passed longText_advances _ _ (matchAt_eq_none_of_not_beginsLong h b o)

/-- What holds no mark stays as it is. -/
theorem exists_quotesNamed_append (data : Table Text Text) (cells : List (Char × Option Text)) :
    ∀ (s : List (Char × Option Text)) (b : Option Char) (o : Nat), (∀ x ∈ s, isMark x.1 = false) →
      ∃ b' o', quotesNamed data b o (s ++ cells) = s ++ quotesNamed data b' o' cells
  | [], b, o, _ => ⟨b, o, rfl⟩
  | (c, m) :: s, b, o, hs => by
      obtain ⟨hc, hs⟩ := List.forall_mem_cons.mp hs
      obtain ⟨b', o', e⟩ := exists_quotesNamed_append data cells s (some c) (o + 1) hs
      have hnot : ¬BeginsLong (c :: (s ++ cells).map Prod.fst) := by
        rintro ⟨q, v, r, hv, e⟩
        obtain ⟨rfl, -⟩ := List.cons.inj e
        rw [hv.mark] at hc
        cases hc
      refine ⟨b', o', ?_⟩
      rw [List.cons_append, quotesNamed_passed b o hnot, e, List.cons_append]

/-- A long quoted text gives way to its name, if it has one. -/
theorem exists_quotesNamed_quote (data : Table Text Text) (cells : List (Char × Option Text))
    (b : Option Char) (o : Nat) (hu : IsLong q (u.map Prod.fst)) : ∃ b' o',
      quotesNamed data b o ((q, none) :: (u ++ [(q, none)]) ++ cells) =
        ((data.get? (u.map Prod.fst)).map fun name =>
            name.map (·, some (quote q (u.map Prod.fst)))).getD ((q, none) :: (u ++ [(q, none)])) ++
          quotesNamed data b' o' cells := by
  let h := quoteHit o q (u.map Prod.fst)
  have hm : longText.matchAt ⟨b, h.text ++ cells.map Prod.fst, o⟩ = some h :=
    matchAt_longText_iff.mpr ⟨q, _, cells.map Prod.fst, hu, by simp [h, quote], rfl⟩
  have htext : ((q, none) :: (u ++ [(q, none)]) ++ cells).map Prod.fst =
      h.text ++ cells.map Prod.fst := by
    simp [h, quote]
  refine ⟨h.text.getLast?.or b, o + h.text.length, ?_⟩
  rw [quotesNamed, htext]
  exact Pattern.inscribe_taken longText_advances _ _ (quote_ne_nil q _) hm (by simp [h])

/-- What was put in for waits is still there when no quoted text that holds some of it has a name. -/
theorem InStep.keeps (h : InStep timeouts t cells) (hn : ∀ n ∈ timeouts.values, IsNameText n)
    (hq : ∀ q v, (quote q v, [(2, v), (1, [q])]) ∈ found t → ∀ u, Named timeouts v u →
      (data.get? (u.map Prod.fst)).isSome → u = v.map (·, none))
    {l : List (Char × Option Text)} (hl : ∀ x ∈ l, x.2.isSome) :
    ∀ (a : List (Char × Option Text)) (b : Option Char) (o : Nat), l <:+: a ++ cells →
      l <:+: a ++ quotesNamed data b o cells := by
  induction h with
  | nil => exact fun _ _ _ h => h
  | @passed c t cells hb hb' h ih =>
      intro a b o hin
      rw [found_cons_of_none (matchAt_eq_none_of_not_beginsLong hb none 0)] at hq
      rw [quotesNamed_passed b o hb', List.append_cons]
      rw [List.append_cons] at hin
      exact ih hq _ _ _ hin
  | @named d w n t cells hw hg h ih =>
      intro a b o hin
      rw [found_append_of_not_mark t fun c hc => (hw.not_mark_mem hc).1] at hq
      obtain ⟨b', o', e⟩ := exists_quotesNamed_append data cells
        ((namedWait n).map (·, some w)) b o (List.forall_mem_map.mpr fun c hc =>
          not_mark_mem_namedWait (hn _ (Table.mem_values_of_get? hg)) hc)
      rw [e, ← List.append_assoc]
      rw [← List.append_assoc] at hin
      exact ih hq _ _ _ hin
  | @quoted q v t u cells hv hu hvu h ih =>
      intro a b o hin
      rw [found_quote hv] at hq
      obtain ⟨b', o', e⟩ := exists_quotesNamed_quote data cells b o hu
      have ih := ih fun q v hm => hq q v (List.mem_cons_of_mem _ hm)
      rw [e]
      cases hg : data.get? (u.map Prod.fst) with
      | none =>
          rw [Option.map_none, Option.getD_none, ← List.append_assoc]
          rw [← List.append_assoc] at hin
          exact ih _ _ _ hin
      | some n =>
          -- nothing in a text that is replaced was put in, so that all of it stands aside
          have hnone := hq q v List.mem_cons_self u hvu (by rw [hg]; rfl)
          have hgap : ∀ x ∈ (q, none) :: (u ++ [(q, none)]), x ∉ l := by
            intro x hx hm
            have : x.2 = none := by
              rw [hnone] at hx
              simp only [List.mem_cons, List.mem_append, List.mem_map, List.not_mem_nil,
                or_false] at hx
              rcases hx with rfl | ⟨c, -, rfl⟩ | rfl <;> rfl
            have hsome := hl x hm
            rw [this] at hsome
            cases hsome
          rcases Text.infix_of_gap (List.cons_ne_nil _ _) hgap hin with hin | hin
          · exact hin.trans (List.prefix_append _ _).isInfix
          · have hin : l <:+: [] ++ quotesNamed data b' o' cells := ih [] b' o' hin
            exact hin.trans ⟨a ++ n.map (·, some (quote q (u.map Prod.fst))), [], by simp⟩

/-- The name of a quoted text without a named wait is put in where that stands. -/
theorem InStep.puts_in (h : InStep timeouts t cells) (hn : ∀ n ∈ timeouts.values, IsNameText n)
    (hv : (quote q v, [(2, v), (1, [q])]) ∈ found t) (hg : data.get? v = some n)
    (hu : ∀ u, Named timeouts v u → u = v.map (·, none)) : ∀ (b : Option Char) (o : Nat),
    n.map (·, some (quote q v)) <:+: quotesNamed data b o cells := by
  induction h with
  | nil => cases hv
  | passed hb hb' _ ih =>
      intro b o
      rw [found_cons_of_none (matchAt_eq_none_of_not_beginsLong hb none 0)] at hv
      rw [quotesNamed_passed b o hb']
      exact (ih hv _ _).trans (List.suffix_cons _ _).isInfix
  | @named d w n t cells hw hg h ih =>
      intro b o
      rw [found_append_of_not_mark t fun c hc => (hw.not_mark_mem hc).1] at hv
      obtain ⟨b', o', e⟩ := exists_quotesNamed_append data cells
        ((namedWait n).map (·, some w)) b o (List.forall_mem_map.mpr fun c hc =>
          not_mark_mem_namedWait (hn _ (Table.mem_values_of_get? hg)) hc)
      rw [e]
      exact (ih hv _ _).trans (List.suffix_append _ _).isInfix
  | @quoted q' v' t u cells hlong hlong' hvu h ih =>
      intro b o
      rw [found_quote hlong] at hv
      obtain ⟨b', o', e⟩ := exists_quotesNamed_quote data cells b o hlong'
      rw [e]
      rcases List.mem_cons.mp hv with e' | hv
      · obtain ⟨rfl, rfl⟩ : v = v' ∧ q = q' := by simpa using (Prod.mk.inj e').2
        have htext : u.map Prod.fst = v := by
          rw [hu u hvu]
          exact Pattern.map_fst_map_mark none v
        rw [htext, hg]
        exact (List.prefix_append _ _).isInfix
      · exact (ih hv _ _).trans (List.suffix_append _ _).isInfix

end Extraction
end SuiteAudit
