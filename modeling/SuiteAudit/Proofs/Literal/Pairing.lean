import SuiteAudit.Proofs.Literal.LongText

/-! # Quotation marks in pairs

The marks of a line pair up from left to right: a mark outside of all literals opens one, and the
next equal mark of the line closes it.  `literals` gives the literals of a text with their offsets.

The pattern for long quoted texts knows nothing of pairs.  It looks at two marks that follow each
other on a line, an `Interval`, whether the text between them is a literal, lies between two
literals or is part of a longer one, and of the long ones it takes those that do not overlap,
from the left (`findAll_longText`).  What it takes is a literal exactly when its first mark opens
one (`mem_literals_iff_opens`). -/

namespace SuiteAudit
namespace Literal

/-! ### Literals -/

/-- The mark that is open behind a character, when `opened` was open before it; no literal runs over
the end of a line. -/
def openAfter (opened : Option Char) (c : Char) : Option Char :=
  if c = '\n' then none
  else match opened with
    | none => if isMark c then some c else none
    | some q => if c = q then none else some q

/-- The rest of the line up to the next `q`. -/
def upTo (q : Char) (t : Text) : Text := t.takeWhile fun c => c != q && c != '\n'

/-- The literal that a mark opens, if the line closes it. -/
def literalAt? (q : Char) (t : Text) : Option Text :=
  if (t.drop (upTo q t).length).head? = some q then some (quote q (upTo q t)) else none

/-- The literals of the rest of a text with their offsets, when the mark `opened` is open. -/
def literalsFrom : Option Char → Nat → Text → List (Nat × Text)
  | _, _, [] => []
  | opened, o, c :: t =>
    (if opened.isNone && isMark c then ((literalAt? c t).map (o, ·)).toList else []) ++
      literalsFrom (openAfter opened c) (o + 1) t

/-- The literals of a text with their offsets. -/
def literals (t : Text) : List (Nat × Text) := literalsFrom none 0 t

/-! ### Intervals -/

/-- Two marks that follow each other on a line, with the text between them; `opens` says whether the
first one opens a literal. -/
structure Interval where
  offset : Nat
  mark : Char
  value : Text
  next : Char
  opens : Bool
  deriving DecidableEq

namespace Interval

/-- The offset behind the second mark. -/
def stop (i : Interval) : Nat := i.offset + i.value.length + 2

/-- Whether the marks are equal and the text between them is long. -/
def isLong (i : Interval) : Bool := i.mark == i.next && minDataLength ≤ i.value.length

end Interval

/-- The interval that begins with a mark, if another mark follows on the line. -/
def intervalAt? (opened : Option Char) (o : Nat) (q : Char) (t : Text) : Option Interval :=
  match t.dropWhile isPlainQuoted with
  | [] => none
  | d :: _ => if isMark d then some ⟨o, q, t.takeWhile isPlainQuoted, d, opened.isNone⟩ else none

/-- The intervals of the rest of a text, when the mark `opened` is open. -/
def intervalsFrom : Option Char → Nat → Text → List Interval
  | _, _, [] => []
  | opened, o, c :: t =>
    (if isMark c then (intervalAt? opened o c t).toList else []) ++
      intervalsFrom (openAfter opened c) (o + 1) t

/-- The intervals of a text. -/
def intervals (t : Text) : List Interval := intervalsFrom none 0 t

/-- The long intervals from an offset on that do not overlap, chosen from the left. -/
def chosenFrom : Nat → List Interval → List Interval
  | _, [] => []
  | free, i :: rest =>
    if i.isLong && free ≤ i.offset then i :: chosenFrom i.stop rest else chosenFrom free rest

/-- The long intervals that do not overlap, chosen from the left. -/
def chosen (is : List Interval) : List Interval := chosenFrom 0 is

/-! ### The pattern chooses intervals -/

theorem intervalsFrom_cons_of_not_mark {opened : Option Char} {o : Nat} {c : Char} {t : Text}
    (hc : isMark c = false) :
    intervalsFrom opened o (c :: t) = intervalsFrom (openAfter opened c) (o + 1) t := by
  simp [intervalsFrom, hc]

/-- No interval begins in a text without marks. -/
theorem exists_intervalsFrom_append : ∀ (v : Text), (∀ c ∈ v, isMark c = false) →
    ∀ (opened : Option Char) (o : Nat) (r : Text), ∃ opened',
      intervalsFrom opened o (v ++ r) = intervalsFrom opened' (o + v.length) r
  | [], _, opened, o, r => ⟨opened, by simp⟩
  | c :: v, hv, opened, o, r => by
      obtain ⟨opened', e⟩ := exists_intervalsFrom_append v
        (fun d hd => hv d (List.mem_cons_of_mem c hd)) (openAfter opened c) (o + 1) r
      refine ⟨opened', ?_⟩
      rw [List.cons_append, intervalsFrom_cons_of_not_mark (hv c List.mem_cons_self), e,
        List.length_cons, Nat.add_right_comm, Nat.add_assoc]

theorem intervalAt?_quote {q : Char} {v r : Text} (h : IsLong q v) (opened : Option Char) (o : Nat) :
    intervalAt? opened o q (v ++ q :: r) = some ⟨o, q, v, q, opened.isNone⟩ := by
  have hq : isPlainQuoted q = false := by
    cases hp : isPlainQuoted q with
    | false => rfl
    | true => exact absurd h.mark (by simp [(isPlainQuoted_iff.mp hp).1])
  have htake : (v ++ q :: r).takeWhile isPlainQuoted = v := by
    rw [List.takeWhile_append_of_pos h.plain]
    simp [hq]
  have hdrop : (v ++ q :: r).dropWhile isPlainQuoted = q :: r := by
    rw [List.dropWhile_append_of_pos h.plain]
    simp [hq]
  simp [intervalAt?, htake, hdrop, h.mark]

theorem exists_of_intervalAt? {opened : Option Char} {o : Nat} {q : Char} {t : Text} {i : Interval}
    (hi : intervalAt? opened o q t = some i) :
    ∃ d r, t = i.value ++ d :: r ∧ (∀ c ∈ i.value, isPlainQuoted c = true) ∧
      i = ⟨o, q, i.value, d, opened.isNone⟩ := by
  unfold intervalAt? at hi
  split at hi
  · cases hi
  · next d r hd =>
    split at hi
    · obtain rfl := Option.some.inj hi
      refine ⟨d, r, ?_, fun c hc => List.all_eq_true.mp List.all_takeWhile c hc, rfl⟩
      rw [← hd, List.takeWhile_append_dropWhile]
    · cases hi

theorem intervalAt?_offset {opened : Option Char} {o : Nat} {q : Char} {t : Text} {i : Interval}
    (hi : intervalAt? opened o q t = some i) : i.offset = o := by
  obtain ⟨d, r, -, -, e⟩ := exists_of_intervalAt? hi
  rw [e]

/-- An interval that is long is taken by the pattern. -/
theorem matchAt_of_isLong {opened : Option Char} {o : Nat} {q : Char} {t : Text} {i : Interval}
    (hq : isMark q = true) (hi : intervalAt? opened o q t = some i) (hl : i.isLong = true)
    (b : Option Char) : longText.matchAt ⟨b, q :: t, o⟩ = some (quoteHit o q i.value) := by
  obtain ⟨d, r, rfl, hp, e⟩ := exists_of_intervalAt? hi
  rw [e] at hl
  simp only [Interval.isLong, Bool.and_eq_true, beq_iff_eq, decide_eq_true_eq] at hl
  obtain ⟨rfl, hlen⟩ := hl
  exact matchAt_longText_iff.mpr ⟨q, _, r, ⟨hq, hp, hlen⟩, rfl, rfl⟩

/-- The long intervals that overlap what was chosen last are passed over. -/
theorem chosenFrom_toList_append {free : Nat} {i? : Option Interval} {rest : List Interval}
    (h : ∀ i, i? = some i → i.isLong = false ∨ i.offset < free) :
    chosenFrom free (i?.toList ++ rest) = chosenFrom free rest := by
  cases i? with
  | none => rfl
  | some i =>
      rw [Option.toList_some, List.singleton_append, chosenFrom, if_neg]
      rw [Bool.and_eq_true, decide_eq_true_eq]
      rintro ⟨hl, hf⟩
      rcases h i rfl with h | h
      · rw [h] at hl; cases hl
      · omega

/-- The intervals of a text that begins with a long quoted text: this one, perhaps one that begins
with its second mark, and those of the rest. -/
theorem exists_intervalsFrom_quote {q : Char} {v : Text} (hv : IsLong q v) (opened : Option Char)
    (o : Nat) (r : Text) : ∃ opened' i?, (∀ i, i? = some i → i.offset = o + v.length + 1) ∧
      intervalsFrom opened o (quote q v ++ r) = ⟨o, q, v, q, opened.isNone⟩ ::
        (i?.toList ++ intervalsFrom opened' (o + (quote q v).length) r) := by
  obtain ⟨opened', e⟩ := exists_intervalsFrom_append v (fun c hc => hv.not_mark_mem hc)
    (openAfter opened q) (o + 1) (q :: r)
  refine ⟨openAfter opened' q, intervalAt? opened' (o + 1 + v.length) q r, ?_, ?_⟩
  · intro i hi
    rw [intervalAt?_offset hi]
    omega
  · have e' : quote q v ++ r = q :: (v ++ q :: r) := by simp [quote]
    have eo : o + 1 + v.length + 1 = o + (quote q v).length := by rw [length_quote]; omega
    rw [e', intervalsFrom, if_pos hv.mark, intervalAt?_quote hv, e, intervalsFrom,
      if_pos hv.mark, eo]
    rfl

theorem findAllFrom_longText (b : Option Char) (o : Nat) (t : Text) :
    ∀ (opened : Option Char) (free : Nat), free ≤ o →
      longText.findAllFrom 0 b o t =
        (chosenFrom free (intervalsFrom opened o t)).map fun i => quoteHit i.offset i.mark i.value := by
  induction b, o, t using Pattern.scan_induction longText_advances with
  | nil b o => intro opened free _; rfl
  | miss b o c t hm ih =>
      intro opened free hf
      rw [Pattern.findAllFrom_miss hm, ih (openAfter opened c) free (by omega), intervalsFrom]
      cases hc : isMark c with
      | false => simp
      | true =>
          rw [if_pos rfl, chosenFrom_toList_append]
          intro i hi
          left
          refine Bool.eq_false_iff.mpr fun hl => ?_
          rw [matchAt_of_isLong hc hi hl] at hm
          cases hm
  | hit b o h r hne hm ih =>
      intro opened free hf
      obtain ⟨q, v, -, hv, -, rfl⟩ := matchAt_longText_iff.mp hm
      obtain ⟨opened', i?, hi, e⟩ := exists_intervalsFrom_quote hv opened o r
      have hstop : Interval.stop ⟨o, q, v, q, opened.isNone⟩ ≤ o + (quote q v).length := by
        rw [length_quote]
        exact Nat.le_refl _
      rw [Pattern.findAllFrom_hit hne hm]
      simp only [quoteHit_text] at ih ⊢
      rw [e, chosenFrom, if_pos (by simpa [Interval.isLong] using ⟨hv.long, hf⟩),
        chosenFrom_toList_append (fun i h => Or.inr (by rw [hi i h]; simp [Interval.stop])),
        List.map_cons, ih opened' _ hstop]

/-- The pattern takes the long intervals that do not overlap, from the left. -/
theorem findAll_longText (t : Text) :
    longText.findAll t = (chosen (intervals t)).map fun i => quoteHit i.offset i.mark i.value :=
  findAllFrom_longText none 0 t none 0 (Nat.le_refl 0)

/-! ### Literals among the intervals -/

theorem le_offset_of_mem_intervalsFrom {i : Interval} : ∀ (t : Text) (opened : Option Char) (o : Nat),
    i ∈ intervalsFrom opened o t → o ≤ i.offset
  | [], _, _, h => by cases h
  | c :: t, opened, o, h => by
      rw [intervalsFrom, List.mem_append] at h
      rcases h with h | h
      · split at h
        · exact Nat.le_of_eq (intervalAt?_offset (Option.mem_toList.mp h)).symm
        · cases h
      · have := le_offset_of_mem_intervalsFrom t _ _ h
        omega

theorem le_offset_of_mem_literalsFrom {l : Nat × Text} : ∀ (t : Text) (opened : Option Char) (o : Nat),
    l ∈ literalsFrom opened o t → o ≤ l.1
  | [], _, _, h => by cases h
  | c :: t, opened, o, h => by
      rw [literalsFrom, List.mem_append] at h
      rcases h with h | h
      · split at h
        · obtain ⟨s, -, rfl⟩ := Option.map_eq_some_iff.mp (Option.mem_toList.mp h)
          exact Nat.le_refl o
        · cases h
      · have := le_offset_of_mem_literalsFrom t _ _ h
        omega

theorem literalAt?_append {q : Char} {v r : Text} (hv : ∀ c ∈ v, c ≠ q ∧ c ≠ '\n') :
    literalAt? q (v ++ q :: r) = some (quote q v) := by
  have e : upTo q (v ++ q :: r) = v := by
    rw [upTo, List.takeWhile_append_of_pos (by simpa using hv)]
    simp
  simp [literalAt?, e]

/-- Equal marks that follow each other stand around a literal exactly when the first of them opens
one. -/
theorem mem_literalsFrom_iff_opens {i : Interval} (he : i.mark = i.next) :
    ∀ (t : Text) (opened : Option Char) (o : Nat), i ∈ intervalsFrom opened o t →
      ((i.offset, quote i.mark i.value) ∈ literalsFrom opened o t ↔ i.opens = true)
  | [], _, _, h => by cases h
  | c :: t, opened, o, h => by
      rw [intervalsFrom, List.mem_append] at h
      rw [literalsFrom, List.mem_append]
      rcases h with h | h
      · split at h
        · next hc =>
          obtain ⟨d, r, rfl, hp, e⟩ := exists_of_intervalAt? (Option.mem_toList.mp h)
          obtain rfl : d = c := by rw [e] at he; exact he.symm
          have hv : ∀ x ∈ i.value, x ≠ d ∧ x ≠ '\n' := by
            intro x hx
            obtain ⟨hm, hn⟩ := isPlainQuoted_iff.mp (hp x hx)
            refine ⟨?_, hn⟩
            rintro rfl
            rw [hc] at hm
            cases hm
          have hlater : (o, quote d i.value) ∉ literalsFrom (openAfter opened d) (o + 1)
              (i.value ++ d :: r) := by
            intro hl
            have := le_offset_of_mem_literalsFrom _ _ _ hl
            simp only at this
            omega
          rw [e]
          simp only [literalAt?_append hv, hc, Bool.and_true]
          cases opened <;> simp [hlater]
        · cases h
      · have hlt := le_offset_of_mem_intervalsFrom t _ _ h
        rw [← mem_literalsFrom_iff_opens he t _ _ h]
        refine ⟨fun hl => hl.resolve_left fun hl => ?_, Or.inr⟩
        split at hl
        · obtain ⟨s, -, e⟩ := Option.map_eq_some_iff.mp (Option.mem_toList.mp hl)
          have := congrArg Prod.fst e
          simp only at this
          omega
        · cases hl

theorem mem_of_mem_chosenFrom {i : Interval} : ∀ (is : List Interval) (free : Nat),
    i ∈ chosenFrom free is → i ∈ is ∧ i.isLong = true
  | [], _, h => by cases h
  | j :: is, free, h => by
      rw [chosenFrom] at h
      split at h
      · next hj =>
        rcases List.mem_cons.mp h with rfl | h
        · exact ⟨List.mem_cons_self, (Bool.and_eq_true _ _ ▸ hj).1⟩
        · obtain ⟨hm, hl⟩ := mem_of_mem_chosenFrom is _ h
          exact ⟨List.mem_cons_of_mem j hm, hl⟩
      · obtain ⟨hm, hl⟩ := mem_of_mem_chosenFrom is _ h
        exact ⟨List.mem_cons_of_mem j hm, hl⟩

/-- What the pattern takes is a literal exactly when its first mark opens one. -/
theorem mem_literals_iff_opens {t : Text} {i : Interval} (hi : i ∈ chosen (intervals t)) :
    (i.offset, quote i.mark i.value) ∈ literals t ↔ i.opens = true := by
  obtain ⟨hm, hl⟩ := mem_of_mem_chosenFrom _ _ hi
  have he : i.mark = i.next := by
    rw [Interval.isLong, Bool.and_eq_true] at hl
    exact beq_iff_eq.mp hl.1
  exact mem_literalsFrom_iff_opens he t none 0 hm

end Literal
end SuiteAudit
