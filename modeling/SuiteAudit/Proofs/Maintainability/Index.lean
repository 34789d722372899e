import Mathlib.Data.List.Perm.Subperm
import SuiteAudit.Maintainability.Metrics
import SuiteAudit.Proofs.Maintainability.LocalSmells
import SuiteAudit.Proofs.Number.Nearest
import SuiteAudit.Proofs.Run.WorstFiles

/-! # The maintainability index

The index and the mean complexity are computed in floating-point numbers
(`value_maintainabilityIndex`, `value_meanComplexity`).  What is said about the index here holds in
every arithmetic that rounds without changing the order, so also where nothing is rounded
(`Arithmetic.exact`): it stays between 0 and 100 (`Arithmetic.index_mem`), the order of the smells
does not count (`Arithmetic.index_perm`), and a file for which nothing speaks more than for another
one has no higher index (`Arithmetic.index_mono`), as each penalty grows with what it is for.  A mean
of scores is at most 10 as long as no sum of them is rounded up beyond its bound
(`Arithmetic.meanComplexity_le`).

An analysis needs numerals that can be read and numbers that are near floating-point numbers
(`Metrics.ofText_eq_ok_iff`, `checkIndexNumbers_ok_iff`), so that it does not always end with metrics
(`ofText_not_total`). -/

namespace SuiteAudit

/-! ### Arithmetics -/

/-- A way to compute with rationals: each result is rounded, the greater one no lower, and the whole
numbers up to a hundred stay as they are. -/
structure Arithmetic where
  round : Rat → Rat
  mono : ∀ {r s : Rat}, r ≤ s → round r ≤ round s
  whole : ∀ n : Nat, n ≤ 100 → round n = n

namespace Arithmetic

/-- Nothing is rounded. -/
def exact : Arithmetic := ⟨id, id, fun _ _ => rfl⟩

/-- Each result is the nearest binary floating-point number. -/
def binary : Arithmetic where
  round r := (Binary64.nearest r).value
  mono := Binary64.nearest_mono
  whole n hn := Binary64.nearest_intCast (n := n) (by rw [Int.natAbs_natCast]; omega)

variable (ρ : Arithmetic)

theorem round_zero : ρ.round 0 = 0 := ρ.whole 0 (by decide)

theorem round_nonneg {r : Rat} (h : 0 ≤ r) : 0 ≤ ρ.round r := by
  rw [← ρ.round_zero]
  exact ρ.mono h

/-- The decimal with so many places that is nearest. -/
def roundTo (places : Nat) (r : Rat) : Rat :=
  ρ.round (roundEven (r * ratPow 10 places) / ratPow 10 places)

theorem roundTo_mono {r s : Rat} (h : r ≤ s) : ρ.roundTo 2 r ≤ ρ.roundTo 2 s := by
  have hscale : (0 : Rat) < ratPow 10 2 := by decide +kernel
  refine ρ.mono (div_le_div_of_nonneg_right ?_ hscale.le)
  exact_mod_cast roundEven_mono (mul_le_mul_of_nonneg_right h hscale.le)

theorem roundTo_whole {n : Nat} (hn : n ≤ 100) : ρ.roundTo 2 n = n := by
  have hscale : ratPow 10 2 = (100 : Int) := by decide +kernel
  have hround : (roundEven (n * ratPow 10 2) : Rat) / ratPow 10 2 = n := by
    rw [hscale, ← Int.cast_natCast n, ← Int.cast_mul, roundEven_intCast, Int.cast_mul,
      mul_div_cancel_right₀ _ (by decide +kernel)]
  exact (congrArg ρ.round hround).trans (ρ.whole n hn)

end Arithmetic

/-! ### The index -/

/-- What the index of a file is made from. -/
structure Measures where
  linesOfCode : Int
  averageTestLength : Int
  complexity : Rat
  duplicatedCode : Int
  smells : List Smell
  maxTestLength : Int

/-- Nothing speaks more for one file than for another one. -/
structure Measures.IsNoBetter (a b : Measures) : Prop where
  linesOfCode : b.linesOfCode ≤ a.linesOfCode
  averageTestLength : b.averageTestLength ≤ a.averageTestLength
  complexity : b.complexity ≤ a.complexity
  duplicatedCode : b.duplicatedCode ≤ a.duplicatedCode
  smells : b.smells.Subperm a.smells
  maxTestLength : a.maxTestLength ≤ b.maxTestLength

namespace Arithmetic

variable (ρ : Arithmetic)

def sizePenalty (linesOfCode : Int) : Rat :=
  if 500 < linesOfCode then ρ.round 20 else if 300 < linesOfCode then ρ.round 10 else 0

def lengthPenalty (averageTestLength maxTestLength : Int) : Rat :=
  if maxTestLength < averageTestLength then ρ.round 15
  else if ρ.round (ρ.round maxTestLength * ρ.round (mkRat 8 10)) < averageTestLength then ρ.round 8
  else 0

/-- What the index loses, for one thing after the other. -/
def penalties (m : Measures) : List Rat :=
  [ρ.sizePenalty m.linesOfCode,
   ρ.lengthPenalty m.averageTestLength m.maxTestLength,
   ρ.round (m.complexity * ρ.round 2),
   ρ.round (m.duplicatedCode * 3 : Int),
   ρ.round (countSeverity .high m.smells * 5 : Nat),
   ρ.round (countSeverity .medium m.smells * 3 : Nat),
   ρ.round (countSeverity .low m.smells)]

/-- A hundred less some penalties. -/
def remaining (penalties : List Rat) : Rat :=
  penalties.foldl (fun left penalty => ρ.round (left - penalty)) (ρ.round 100)

/-- The maintainability index in this arithmetic. -/
def index (m : Measures) : Rat :=
  ρ.roundTo 2 (max 0 (min (ρ.round 100) (ρ.remaining (ρ.penalties m))))

variable {ρ} {a b m : Measures}

theorem index_mem (ρ : Arithmetic) (m : Measures) : 0 ≤ ρ.index m ∧ ρ.index m ≤ 100 := by
  have hround : ρ.round 100 = 100 := ρ.whole 100 (Nat.le_refl _)
  have hzero := ρ.roundTo_whole (n := 0) (by decide)
  have hhundred := ρ.roundTo_whole (n := 100) (Nat.le_refl _)
  constructor
  · refine hzero.symm.le.trans (ρ.roundTo_mono ?_)
    exact_mod_cast le_max_left _ _
  · refine (ρ.roundTo_mono ?_).trans hhundred.le
    rw [hround]
    exact max_le (by norm_num) (min_le_left _ _)

/-! ### Each penalty grows -/

/-- A penalty in two steps grows when the conditions of both are met more easily. -/
theorem steps_mono {small large : Rat} {c d c' d' : Prop} [Decidable c] [Decidable d]
    [Decidable c'] [Decidable d'] (hsmall : 0 ≤ small) (hlarge : small ≤ large) (hc : c → c')
    (hd : d → d') : (if c then large else if d then small else 0) ≤
      if c' then large else if d' then small else 0 := by
  by_cases h : c
  · rw [if_pos h, if_pos (hc h)]
  · rw [if_neg h]
    by_cases h' : d
    · rw [if_pos h', if_pos (hd h')]
      split
      · exact hlarge
      · exact le_rfl
    · rw [if_neg h']
      split
      · exact hsmall.trans hlarge
      · split
        · exact hsmall
        · exact le_rfl

theorem sizePenalty_mono {m n : Int} (h : m ≤ n) : ρ.sizePenalty m ≤ ρ.sizePenalty n :=
  steps_mono (ρ.round_nonneg (by norm_num)) (ρ.mono (by norm_num)) (fun hm => hm.trans_le h)
    fun hm => hm.trans_le h

/-- Also for limits below zero: four fifths of a limit grow with it. -/
theorem lengthPenalty_mono {length length' limit limit' : Int} (hlength : length ≤ length')
    (hlimit : limit' ≤ limit) : ρ.lengthPenalty length limit ≤ ρ.lengthPenalty length' limit' := by
  have hfifths : ρ.round (ρ.round limit' * ρ.round (mkRat 8 10)) ≤
      ρ.round (ρ.round limit * ρ.round (mkRat 8 10)) := by
    refine ρ.mono (mul_le_mul_of_nonneg_right (ρ.mono ?_) (ρ.round_nonneg (by decide +kernel)))
    exact_mod_cast hlimit
  have hcast : (length : Rat) ≤ length' := by exact_mod_cast hlength
  exact steps_mono (ρ.round_nonneg (by norm_num)) (ρ.mono (by norm_num))
    (fun h => hlimit.trans_lt (h.trans_le hlength)) fun h => hfifths.trans_lt (h.trans_le hcast)

theorem countSeverity_mono (severity : Level) (h : b.smells.Subperm a.smells) :
    countSeverity severity b.smells ≤ countSeverity severity a.smells :=
  h.countP_le _

theorem penalties_mono (h : a.IsNoBetter b) :
    List.Forall₂ (· ≤ ·) (ρ.penalties b) (ρ.penalties a) := by
  have hcount (severity : Level) := countSeverity_mono severity h.smells
  refine .cons (sizePenalty_mono h.linesOfCode) <|
    .cons (lengthPenalty_mono h.averageTestLength h.maxTestLength) <|
    .cons (ρ.mono (mul_le_mul_of_nonneg_right h.complexity (ρ.round_nonneg (by norm_num)))) <|
    .cons (ρ.mono ?_) <| .cons (ρ.mono ?_) <| .cons (ρ.mono ?_) <| .cons (ρ.mono ?_) .nil
  · exact_mod_cast mul_le_mul_of_nonneg_right h.duplicatedCode (by decide)
  · exact_mod_cast Nat.mul_le_mul_right 5 (hcount .high)
  · exact_mod_cast Nat.mul_le_mul_right 3 (hcount .medium)
  · exact_mod_cast hcount .low

/-- What is left falls with each step, as nothing is rounded the wrong way. -/
theorem foldl_sub_antitone {ps qs : List Rat} (h : List.Forall₂ (· ≤ ·) ps qs) {left left' : Rat}
    (hleft : left' ≤ left) : qs.foldl (fun left penalty => ρ.round (left - penalty)) left' ≤
      ps.foldl (fun left penalty => ρ.round (left - penalty)) left := by
  induction h generalizing left left' with
  | nil => exact hleft
  | cons hpq _ ih => exact ih (ρ.mono (sub_le_sub hleft hpq))

theorem remaining_antitone {ps qs : List Rat} (h : List.Forall₂ (· ≤ ·) ps qs) :
    ρ.remaining qs ≤ ρ.remaining ps := foldl_sub_antitone h le_rfl

theorem index_mono (h : a.IsNoBetter b) : ρ.index a ≤ ρ.index b :=
  ρ.roundTo_mono (max_le_max_left _ (min_le_min_left _ (remaining_antitone (penalties_mono h))))

theorem index_perm {smells : List Smell} (h : smells.Perm m.smells) :
    ρ.index { m with smells := smells } = ρ.index m := by
  have hcount (severity : Level) : countSeverity severity smells = countSeverity severity m.smells :=
    h.countP_eq _
  simp only [index, penalties, hcount]

end Arithmetic

/-! ### The mean complexity -/

namespace Arithmetic

variable (ρ : Arithmetic)

/-- The score of a test case, between 0 and 10. -/
def score (b : Block) : Rat := ρ.round (mkRat (Complexity.ofText b.content).tenths 10)

/-- A sum from left to right that begins with a total. -/
def sumFrom (total : Rat) (xs : List Rat) : Rat := xs.foldl (fun total x => ρ.round (total + x)) total

/-- The mean complexity of some test cases in this arithmetic. -/
def meanComplexity (cases : List Block) : Rat :=
  if cases.isEmpty then 0
  else ρ.roundTo 2 (ρ.round (ρ.sumFrom 0 (cases.map ρ.score) / ρ.round cases.length))

/-- The whole numbers up to a limit stay as they are. -/
def KeepsWhole (limit : Nat) : Prop := ∀ n : Nat, n ≤ limit → ρ.round n = n

theorem exact_keepsWhole (limit : Nat) : exact.KeepsWhole limit := fun _ _ => rfl

theorem binary_keepsWhole {limit : Nat} (h : limit < 2 ^ 53) : binary.KeepsWhole limit :=
  fun n hn => Binary64.nearest_intCast (n := n) (by rw [Int.natAbs_natCast]; omega)

theorem score_mem (b : Block) : 0 ≤ ρ.score b ∧ ρ.score b ≤ 10 := by
  have htenths : (Complexity.ofText b.content).tenths ≤ 100 := Nat.min_le_left ..
  have hten : ρ.round 10 = 10 := ρ.whole 10 (by decide)
  have hcast : ((Complexity.ofText b.content).tenths : Rat) ≤ 100 := by exact_mod_cast htenths
  have hvalue : mkRat (Complexity.ofText b.content).tenths 10 =
      ((Complexity.ofText b.content).tenths : Rat) / 10 := by
    rw [Rat.mkRat_eq_div]
    rfl
  refine ⟨ρ.round_nonneg ?_, (ρ.mono ?_).trans hten.le⟩
  · rw [hvalue]
    exact div_nonneg (Nat.cast_nonneg _) (by norm_num)
  · rw [hvalue]
    linarith

variable {ρ}

theorem sumFrom_nonneg {xs : List Rat} (hxs : ∀ x ∈ xs, 0 ≤ x) :
    ∀ total : Rat, 0 ≤ total → 0 ≤ ρ.sumFrom total xs := by
  induction xs with
  | nil => exact fun _ h => h
  | cons x xs ih =>
      intro total h
      obtain ⟨hx, hxs⟩ := List.forall_mem_cons.mp hxs
      exact ih hxs _ (ρ.round_nonneg (add_nonneg h hx))

/-- A sum of so many scores is at most ten times as large, as long as those multiples of ten can be
had. -/
theorem sumFrom_le {limit : Nat} (hwhole : ρ.KeepsWhole limit) {xs : List Rat}
    (hxs : ∀ x ∈ xs, x ≤ 10) : ∀ (total : Rat) (k : Nat), total ≤ 10 * k →
      10 * (k + xs.length) ≤ limit → ρ.sumFrom total xs ≤ 10 * (k + xs.length : Nat) := by
  induction xs with
  | nil => exact fun _ _ h _ => h
  | cons x xs ih =>
      intro total k h hlimit
      obtain ⟨hx, hxs⟩ := List.forall_mem_cons.mp hxs
      rw [List.length_cons, Nat.add_comm xs.length, ← Nat.add_assoc] at hlimit ⊢
      have hround := hwhole (10 * (k + 1)) (by omega)
      refine ih hxs _ _ ?_ hlimit
      push_cast at hround ⊢
      refine (ρ.mono ?_).trans hround.le
      linarith

theorem meanComplexity_nonneg (cases : List Block) : 0 ≤ ρ.meanComplexity cases := by
  unfold meanComplexity
  split
  · exact le_rfl
  · have hzero : ρ.roundTo 2 0 = 0 := ρ.roundTo_whole (n := 0) (by decide)
    have hscores : ∀ x ∈ cases.map ρ.score, 0 ≤ x :=
      List.forall_mem_map.mpr fun b _ => (ρ.score_mem b).1
    have hsum : 0 ≤ ρ.sumFrom 0 (cases.map ρ.score) := sumFrom_nonneg hscores 0 le_rfl
    refine hzero.symm.le.trans (ρ.roundTo_mono (ρ.round_nonneg (div_nonneg hsum ?_)))
    exact ρ.round_nonneg (Nat.cast_nonneg _)

theorem meanComplexity_le {cases : List Block} (hwhole : ρ.KeepsWhole (10 * cases.length)) :
    ρ.meanComplexity cases ≤ 10 := by
  unfold meanComplexity
  split
  · norm_num
  · next hne =>
      have hpos : 0 < cases.length := List.length_pos_iff.mpr fun h => hne (by rw [h]; rfl)
      have hcast : (0 : Rat) < cases.length := by exact_mod_cast hpos
      have hscores : ∀ x ∈ cases.map ρ.score, x ≤ 10 :=
        List.forall_mem_map.mpr fun b _ => (ρ.score_mem b).2
      have hsum := sumFrom_le hwhole hscores 0 0 (by simp) (by simp)
      rw [List.length_map, Nat.zero_add] at hsum
      have hten : ρ.round 10 = 10 := ρ.whole 10 (by decide)
      have hround : ρ.roundTo 2 10 = 10 := ρ.roundTo_whole (n := 10) (by decide)
      rw [hwhole cases.length (by omega)]
      refine (ρ.roundTo_mono ((ρ.mono ?_).trans hten.le)).trans hround.le
      exact (div_le_iff₀ hcast).mpr hsum

end Arithmetic

/-! ### The numbers of the program -/

theorem value_binaryMax (a b : Binary64) : (Binary64.max a b).value = max a.value b.value := by
  rw [Binary64.max]
  split
  · next h => exact (max_eq_right (le_of_lt h)).symm
  · next h => exact (max_eq_left (not_lt.mp h)).symm

theorem value_binaryMin (a b : Binary64) : (Binary64.min a b).value = min a.value b.value := by
  rw [Binary64.min]
  split
  · next h => exact (min_eq_right (le_of_lt h)).symm
  · next h => exact (min_eq_left (not_lt.mp h)).symm

open Arithmetic

theorem value_sizePenalty (linesOfCode : Int) :
    (SuiteAudit.sizePenalty linesOfCode).value = binary.sizePenalty linesOfCode := by
  unfold SuiteAudit.sizePenalty Arithmetic.sizePenalty
  split
  · rfl
  · exact apply_ite Binary64.value _ _ _

theorem value_lengthPenalty (averageTestLength maxTestLength : Int) :
    (SuiteAudit.lengthPenalty averageTestLength maxTestLength).value =
      binary.lengthPenalty averageTestLength maxTestLength := by
  unfold SuiteAudit.lengthPenalty Arithmetic.lengthPenalty
  split
  · rfl
  · exact apply_ite Binary64.value _ _ _

/-- The index of the program is that of the floating-point numbers. -/
theorem value_maintainabilityIndex (linesOfCode averageTestLength : Int) (complexity : Binary64)
    (duplicatedCode : Int) (smells : List Smell) (maxTestLength : Int) :
    (maintainabilityIndex linesOfCode averageTestLength complexity duplicatedCode smells
      maxTestLength).value = binary.index ⟨linesOfCode, averageTestLength, complexity.value,
        duplicatedCode, smells, maxTestLength⟩ := by
  rw [maintainabilityIndex, Arithmetic.index, penalties, ← value_sizePenalty, ← value_lengthPenalty]
  change binary.roundTo 2 _ = _
  rw [value_binaryMax, value_binaryMin]
  rfl

theorem value_foldl_add (xs : List Binary64) (total : Binary64) :
    (xs.foldl (· + ·) total).value = binary.sumFrom total.value (xs.map (·.value)) := by
  induction xs generalizing total with
  | nil => rfl
  | cons x xs ih => exact ih (total + x)

theorem value_meanComplexity (cases : List Block) :
    (Metrics.meanComplexity cases).value = binary.meanComplexity cases := by
  unfold Metrics.meanComplexity Arithmetic.meanComplexity
  split
  · rfl
  · change binary.roundTo 2 (binary.round (Binary64.value (Binary64.sum _) / _)) = _
    rw [Binary64.sum, value_foldl_add, List.map_map]
    rfl

/-! ### The metrics of a file -/

/-- A whole number for which there is a floating-point number. -/
def IsNearFinite (n : Int) : Prop := (Binary64.nearest n).value.abs < Extended.bound

theorem ofInt_ok_iff {n : Int} : (∃ x, Extended.ofInt n = .ok x) ↔ IsNearFinite n := by
  unfold Extended.ofInt Extended.ofRat IsNearFinite
  -- only zero is rounded to zero, so that no minus is kept
  have hsign : ¬((Binary64.nearest n).value = 0 ∧ (n : Rat) < 0) := by
    rintro ⟨hzero, hneg⟩
    have hneg : n < 0 := by exact_mod_cast hneg
    have hle : (n : Rat) ≤ (-1 : Int) := by exact_mod_cast (by omega : n ≤ -1)
    have hmono := Binary64.nearest_mono hle
    rw [hzero, Binary64.nearest_intCast (by decide)] at hmono
    exact absurd hmono (by decide +kernel)
  by_cases hbound : Extended.bound ≤ (Binary64.nearest n).value.abs
  · simp [hbound]
  · simp only [if_neg hbound, if_neg hsign]
    exact ⟨fun _ => not_le.mp hbound, fun _ => ⟨_, rfl⟩⟩

theorem checkIndexNumbers_ok_iff {length duplicated limit : Int} :
    checkIndexNumbers length duplicated limit = .ok () ↔
      (length ≤ limit → IsNearFinite limit) ∧ IsNearFinite (duplicated * 3) := by
  rw [← ofInt_ok_iff, ← ofInt_ok_iff, checkIndexNumbers]
  by_cases hle : length ≤ limit
  · cases Extended.ofInt limit <;> cases Extended.ofInt (duplicated * 3) <;>
      simp [hle, bind, Except.bind, pure, Except.pure]
  · cases Extended.ofInt (duplicated * 3) <;> simp [hle, bind, Except.bind, pure, Except.pure]

/-! ### What an analysis gives -/

theorem lt_ofWhole_iff {x : Binary64} {n : Int} : (x : Extended) < .ofWhole n ↔ x.value < n := by
  change (decide (x.value ≤ (n : Rat)) = true ∧ decide ((n : Rat) ≤ x.value) = false) ↔ _
  rw [decide_eq_true_iff, decide_eq_false_iff_not, not_le]
  exact and_iff_right_of_imp le_of_lt

/-- In every arithmetic the index is between 0 and 100, the order of the smells does not count, and a
file for which nothing speaks more has no higher index; the index of the program is that of the
floating-point numbers.  An analysis ends when the numerals of the code can be read, and the limit,
where it counts, and the duplication are near floating-point numbers.  Then the index it gives is this
one, with the complexity it gives, and the file is to be rewritten when the index is below the limit
for attention.  The mean complexity is between 0 and 10: in floating-point numbers as long as ten
times the number of test cases can be had, and without rounding always. -/
theorem index_laws (ρ : Arithmetic) (a b : Measures) (complexity : Binary64) (content path : Text)
    (thresholds : Thresholds) :
    (0 ≤ ρ.index a ∧ ρ.index a ≤ 100 ∧
      (∀ smells, smells.Perm a.smells → ρ.index { a with smells := smells } = ρ.index a) ∧
      (a.IsNoBetter b → ρ.index a ≤ ρ.index b)) ∧
    (maintainabilityIndex a.linesOfCode a.averageTestLength complexity a.duplicatedCode a.smells
      a.maxTestLength).value = binary.index { a with complexity := complexity.value } ∧
    ((∃ m, Metrics.ofText content path thresholds = .ok m) ↔
      (∀ line ∈ Text.lines content, isCommentLine (Text.trim line) = false →
        AreReadable (numeralsOf (Text.trim line))) ∧
      (Metrics.meanLength (casesOf content) ≤ thresholds.maxTestLength →
        IsNearFinite thresholds.maxTestLength) ∧
      IsNearFinite (DuplicateLine.count content * 3)) ∧
    (∀ m, Metrics.ofText content path thresholds = .ok m → ∃ index complexity : Binary64,
      m.maintainabilityIndex = index ∧ m.complexityScore = complexity ∧
      index.value = binary.index ⟨m.linesOfCode, m.averageTestLength, complexity.value,
        m.duplicatedCode, m.smells, thresholds.maxTestLength⟩ ∧
      0 ≤ index.value ∧ index.value ≤ 100 ∧
      complexity.value = binary.meanComplexity (casesOf content) ∧
      0 ≤ complexity.value ∧
      (10 * (casesOf content).length < 2 ^ 53 → complexity.value ≤ 10) ∧
      (Metrics.rewriteAdvice ∈ m.suggestions ↔ index.value < thresholds.attentionIndex)) ∧
    0 ≤ exact.meanComplexity (casesOf content) ∧ exact.meanComplexity (casesOf content) ≤ 10 := by
  refine ⟨?_, value_maintainabilityIndex .., ?_, fun m h => ?_, meanComplexity_nonneg _,
    meanComplexity_le (exact_keepsWhole _)⟩
  · exact ⟨(ρ.index_mem a).1, (ρ.index_mem a).2, fun _ h => index_perm h, index_mono⟩
  · simp only [Metrics.ofText_eq_ok_iff, ← smellsOf_ok_iff, ← checkIndexNumbers_ok_iff]
    exact ⟨fun ⟨_, smells, hs, hnumbers, _⟩ => ⟨⟨smells, hs⟩, hnumbers⟩,
      fun ⟨⟨smells, hs⟩, hnumbers⟩ => ⟨_, smells, hs, hnumbers, rfl⟩⟩
  · obtain ⟨smells, -, -, rfl⟩ := Metrics.ofText_eq_ok_iff.mp h
    have hindex := value_maintainabilityIndex (countCodeLines (Text.lines content))
      (Metrics.meanLength (casesOf content)) (Metrics.meanComplexity (casesOf content))
      (DuplicateLine.count content) smells thresholds.maxTestLength
    have hcomplexity := value_meanComplexity (casesOf content)
    refine ⟨_, _, rfl, rfl, hindex, ?_, ?_, hcomplexity, ?_, fun hlimit => ?_, ?_⟩
    · rw [hindex]
      exact (binary.index_mem _).1
    · rw [hindex]
      exact (binary.index_mem _).2
    · rw [hcomplexity]
      exact meanComplexity_nonneg _
    · rw [hcomplexity]
      exact meanComplexity_le (binary_keepsWhole hlimit)
    · exact Metrics.mem_suggestionsFor_iff.trans (Metrics.isBelow_iff.trans lt_ofWhole_iff)

/-- A test with a vague name. -/
def vagueFile : Text := "test('a', () => \x7b\n  const res = load();\n\x7d);"

/-- It loses four points for its complexity and one for the name, and is to be rewritten when the
limit for attention is higher. -/
theorem vagueFile_is_below : ∃ m,
    Metrics.ofText vagueFile "a.spec.ts" { attentionIndex := 96 } = .ok m ∧
      m.maintainabilityIndex = (⟨95⟩ : Binary64) ∧ m.complexityScore = (⟨2⟩ : Binary64) ∧
      Metrics.rewriteAdvice ∈ m.suggestions := by
  have hvalues : (Metrics.ofText vagueFile "a.spec.ts" { attentionIndex := 96 }).toOption.map
      (fun m => (m.maintainabilityIndex, m.complexityScore)) =
      some (.finite ⟨95⟩, .finite ⟨2⟩) := by
    decide +kernel
  cases h : Metrics.ofText vagueFile "a.spec.ts" { attentionIndex := 96 } with
  | error e => rw [h] at hvalues; cases hvalues
  | ok m =>
      rw [h] at hvalues
      obtain ⟨hindex, hcomplexity⟩ := Prod.mk.inj (Option.some.inj hvalues)
      obtain ⟨index, complexity, e, -, -, -, -, -, -, -, hadvice⟩ :=
        (index_laws exact ⟨3, 3, 2, 0, [], 50⟩ ⟨3, 3, 2, 0, [], 50⟩ .zero vagueFile "a.spec.ts"
          { attentionIndex := 96 }).2.2.2.1 m h
      obtain rfl := Extended.finite.inj (e.symm.trans hindex)
      exact ⟨m, rfl, hindex, hcomplexity, hadvice.mpr (by decide +kernel)⟩

/-- A numeral that is too long, and a limit that is near no floating-point number, end an analysis
without metrics. -/
theorem ofText_not_total :
    (∃ e, Metrics.ofText (ones 4301 ++ '\n' :: []) "a.spec.ts" {} = .error (.digits e)) ∧
      Metrics.ofText [] "a.spec.ts" { maxTestLength := 10 ^ 309 } = .error (.number .tooLarge) := by
  refine ⟨⟨⟨4301⟩, ?_⟩, by decide +kernel⟩
  rw [Metrics.ofText, smellsOf_ones (by decide)]
  rfl

end SuiteAudit
