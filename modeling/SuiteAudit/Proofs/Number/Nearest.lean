import Mathlib.Algebra.Order.Field.Power
import Mathlib.Algebra.Order.Field.Rat
import Mathlib.Data.Rat.Cast.Order
import Mathlib.Tactic.Linarith
import Mathlib.Tactic.NormNum
import SuiteAudit.Number.Binary64

/-! # Rounding to the nearest number

The exponent of a number is that of the largest power of two below it (`binaryExponent_spec`).
Rounding steps over no multiple of the distance to the neighbours
(`Binary64.nearest_le_of_multiple`, `Binary64.multiple_le_nearest`).  Where that distance changes, a
power of two lies between two numbers, so that the order is kept (`Binary64.nearest_mono`), and whole
numbers with no more than 53 binary places stay as they are (`Binary64.nearest_intCast`). -/

namespace SuiteAudit

/-! ### The nearest whole number -/

theorem floor_le_roundEven (r : Rat) : r.floor ≤ roundEven r := by
  unfold roundEven
  grind

theorem roundEven_le_floor_add_one (r : Rat) : roundEven r ≤ r.floor + 1 := by
  unfold roundEven
  grind

theorem roundEven_intCast (k : Int) : roundEven k = k := by
  have hexcess : (k : Rat) - (k : Rat).floor < 1 / 2 := by
    rw [Rat.floor_intCast, sub_self]
    norm_num
  rw [roundEven, if_pos hexcess, Rat.floor_intCast]

theorem roundEven_mono {r s : Rat} (h : r ≤ s) : roundEven r ≤ roundEven s := by
  rcases lt_or_eq_of_le (Rat.floor_monotone h) with hlt | heq
  · have := roundEven_le_floor_add_one r
    have := floor_le_roundEven s
    omega
  · simp only [roundEven, heq]
    grind

/-- A tie goes to the same side of zero. -/
theorem roundEven_neg (r : Rat) : roundEven (-r) = -roundEven r := by
  have hle : (r.floor : Rat) ≤ r := Rat.floor_le r
  have hlt : r < r.floor + 1 := by exact_mod_cast Rat.lt_floor_add_one r
  by_cases hint : r = r.floor
  · rw [hint, ← Rat.intCast_neg, roundEven_intCast, roundEven_intCast]
  · -- the excess of one is what the other one lacks
    have hfloor : (-r).floor = -r.floor - 1 := by
      refine le_antisymm ?_ (Rat.le_floor_iff.mpr ?_)
      · have h : (-r).floor < -r.floor := Rat.floor_lt_iff.mpr (by
          rw [Rat.intCast_neg]
          exact neg_lt_neg (lt_of_le_of_ne hle (Ne.symm hint)))
        omega
      · push_cast
        linarith
    simp only [roundEven, hfloor]
    push_cast
    grind

/-! ### Powers of two -/

theorem ratPow_two (e : Int) : ratPow 2 e = 2 ^ e := by
  unfold ratPow
  split
  · next h =>
      lift e to Nat using h
      simp
  · next h =>
      obtain ⟨n, rfl⟩ : ∃ n : Nat, e = -n := ⟨(-e).toNat, by omega⟩
      simp

theorem two_zpow_pos (e : Int) : (0 : Rat) < 2 ^ e := zpow_pos (by norm_num) e

theorem two_zpow_mul (a b : Int) : (2 : Rat) ^ a * 2 ^ b = 2 ^ (a + b) :=
  (zpow_add₀ (by norm_num) a b).symm

theorem two_zpow_le_iff {a b : Int} : (2 : Rat) ^ a ≤ 2 ^ b ↔ a ≤ b :=
  zpow_le_zpow_iff_right₀ one_lt_two

theorem two_zpow_lt_iff {a b : Int} : (2 : Rat) ^ a < 2 ^ b ↔ a < b :=
  zpow_lt_zpow_iff_right₀ one_lt_two

/-- A whole number lies between two powers of two. -/
theorem two_zpow_log2 {n : Nat} (hn : n ≠ 0) :
    (2 : Rat) ^ (n.log2 : Int) ≤ n ∧ (n : Rat) < 2 ^ ((n.log2 : Int) + 1) := by
  constructor
  · rw [zpow_natCast]
    exact_mod_cast Nat.log2_self_le hn
  · rw [← Int.natCast_succ, zpow_natCast]
    exact_mod_cast Nat.lt_log2_self

/-- The exponent is that of the largest power of two below. -/
theorem binaryExponent_spec {r : Rat} (hr : 0 < r) :
    2 ^ binaryExponent r ≤ r ∧ r < 2 ^ (binaryExponent r + 1) := by
  have hnum : 0 < r.num := Rat.num_pos.mpr hr
  have hden : (0 : Rat) < r.den := by exact_mod_cast r.den_pos
  have habs : ((r.num.natAbs : Nat) : Rat) = r.num := by
    rw [← Int.cast_natCast, Int.natAbs_of_nonneg hnum.le]
  have hmul : r * r.den = r.num.natAbs := by rw [habs, Rat.mul_den_eq_num]
  obtain ⟨hn, hn'⟩ := two_zpow_log2 (Int.natAbs_ne_zero.mpr hnum.ne')
  obtain ⟨hd, hd'⟩ := two_zpow_log2 r.den_nz
  rw [← hmul] at hn hn'
  have hvalue : binaryExponent r = if 2 ^ ((r.num.natAbs.log2 : Int) - r.den.log2) ≤ r then
      (r.num.natAbs.log2 : Int) - r.den.log2 else (r.num.natAbs.log2 : Int) - r.den.log2 - 1 := by
    rw [binaryExponent, settleExponent, ratPow_two]
  generalize (Nat.log2 r.num.natAbs : Int) = a at *
  generalize (Nat.log2 r.den : Int) = b at *
  have hlow : 2 ^ (a - b - 1) < r := by
    refine lt_of_mul_lt_mul_right ?_ (two_zpow_pos (b + 1)).le
    calc (2 : Rat) ^ (a - b - 1) * 2 ^ (b + 1) = 2 ^ a := by rw [two_zpow_mul]; congr 1; omega
      _ ≤ r * r.den := hn
      _ < r * 2 ^ (b + 1) := mul_lt_mul_of_pos_left hd' hr
  have hhigh : r < 2 ^ (a - b + 1) := by
    refine lt_of_mul_lt_mul_right ?_ (two_zpow_pos b).le
    calc r * 2 ^ b ≤ r * r.den := mul_le_mul_of_nonneg_left hd hr.le
      _ < 2 ^ (a + 1) := hn'
      _ = 2 ^ (a - b + 1) * 2 ^ b := by rw [two_zpow_mul]; congr 1; omega
  rw [hvalue]
  split
  · next h => exact ⟨h, hhigh⟩
  · next h => exact ⟨hlow.le, by rw [sub_add_cancel]; exact not_le.mp h⟩

theorem binaryExponent_mono {r s : Rat} (hr : 0 < r) (h : r ≤ s) :
    binaryExponent r ≤ binaryExponent s := by
  obtain ⟨hlow, -⟩ := binaryExponent_spec hr
  obtain ⟨-, hhigh⟩ := binaryExponent_spec (lt_of_lt_of_le hr h)
  have := two_zpow_lt_iff.mp (lt_of_le_of_lt (hlow.trans h) hhigh)
  omega

/-- A power of two is a multiple of each smaller one. -/
theorem two_zpow_eq_multiple {a b : Int} (h : a ≤ b) :
    (2 : Rat) ^ b = ((2 ^ (b - a).toNat : Int) : Rat) * 2 ^ a := by
  have hexp : b = ((b - a).toNat : Int) + a := by omega
  conv => lhs; rw [hexp, ← two_zpow_mul, zpow_natCast]
  push_cast
  rfl

namespace Binary64

variable {r s : Rat}

/-! ### The nearest number -/

theorem nearest_value (r : Rat) :
    (nearest r).value = roundEven (r / 2 ^ spacing r.abs) * 2 ^ spacing r.abs := by
  unfold nearest
  split
  · next h =>
      have hzero : roundEven 0 = 0 := roundEven_intCast 0
      simp [h, hzero]
  · rw [ratPow_two]

theorem nearest_neg (r : Rat) : (nearest (-r)).value = -(nearest r).value := by
  have habs : (-r).abs = r.abs := by grind [Rat.abs]
  rw [nearest_value, nearest_value, habs, neg_div, roundEven_neg]
  push_cast
  exact neg_mul _ _

/-- No multiple of the distance to the neighbours is stepped over. -/
theorem nearest_le_of_multiple {x : Rat} {k : Int} (hx : x = k * 2 ^ spacing r.abs) (h : r ≤ x) :
    (nearest r).value ≤ x := by
  rw [hx] at h ⊢
  rw [nearest_value]
  refine mul_le_mul_of_nonneg_right ?_ (two_zpow_pos _).le
  have := roundEven_mono ((div_le_iff₀ (two_zpow_pos _)).mpr h)
  rw [roundEven_intCast] at this
  exact_mod_cast this

theorem multiple_le_nearest {x : Rat} {k : Int} (hx : x = k * 2 ^ spacing r.abs) (h : x ≤ r) :
    x ≤ (nearest r).value := by
  rw [hx] at h ⊢
  rw [nearest_value]
  refine mul_le_mul_of_nonneg_right ?_ (two_zpow_pos _).le
  have := roundEven_mono ((le_div_iff₀ (two_zpow_pos _)).mpr h)
  rw [roundEven_intCast] at this
  exact_mod_cast this

theorem nearest_nonneg (h : 0 ≤ r) : 0 ≤ (nearest r).value := by
  have hzero : (0 : Rat) = (0 : Int) * 2 ^ spacing r.abs := by simp
  exact multiple_le_nearest hzero h

/-- Greater numbers have greater neighbours. -/
theorem nearest_mono_of_pos (hr : 0 < r) (h : r ≤ s) : (nearest r).value ≤ (nearest s).value := by
  have habs {x : Rat} (hx : 0 < x) : x.abs = x := Rat.abs_of_nonneg hx.le
  have hs := lt_of_lt_of_le hr h
  have hexponent := binaryExponent_mono hr h
  rcases eq_or_ne (spacing r) (spacing s) with heq | hne
  · rw [nearest_value, nearest_value, habs hr, habs hs, heq]
    refine mul_le_mul_of_nonneg_right ?_ (two_zpow_pos _).le
    exact_mod_cast roundEven_mono (div_le_div_of_nonneg_right h (two_zpow_pos _).le)
  · -- a power of two lies between the two numbers
    have hspacing : spacing r < spacing s ∧ spacing s = binaryExponent s - 52 ∧
        binaryExponent r ≤ spacing r + 52 := by
      unfold spacing at hne ⊢
      omega
    obtain ⟨hlt, hspacing, hle⟩ := hspacing
    have hlow : r ≤ 2 ^ binaryExponent s := (binaryExponent_spec hr).2.le.trans
      (two_zpow_le_iff.mpr (by omega))
    have hhigh : 2 ^ binaryExponent s ≤ s := (binaryExponent_spec hs).1
    have hr' := two_zpow_eq_multiple (a := spacing r.abs) (b := binaryExponent s) (by
      rw [habs hr]
      omega)
    have hs' := two_zpow_eq_multiple (a := spacing s.abs) (b := binaryExponent s) (by
      rw [habs hs]
      omega)
    exact (nearest_le_of_multiple hr' hlow).trans (multiple_le_nearest hs' hhigh)

theorem nearest_mono (h : r ≤ s) : (nearest r).value ≤ (nearest s).value := by
  rcases lt_or_ge 0 r with hr | hr
  · exact nearest_mono_of_pos hr h
  · have hr' : (nearest r).value ≤ 0 := by
      have := nearest_nonneg (neg_nonneg.mpr hr)
      rw [nearest_neg] at this
      linarith
    rcases lt_or_ge s 0 with hs | hs
    · have := nearest_mono_of_pos (neg_pos.mpr hs) (neg_le_neg h)
      rw [nearest_neg, nearest_neg] at this
      linarith
    · exact hr'.trans (nearest_nonneg hs)

/-- A whole number of no more than 53 binary places is near to nothing but itself. -/
theorem nearest_intCast {n : Int} (hn : n.natAbs < 2 ^ 53) : (nearest n).value = n := by
  rcases eq_or_ne n 0 with rfl | hne
  · rfl
  · have habs : (n : Rat).abs = n.natAbs := by
      have hcast : ((n.natAbs : Nat) : Rat) = ((n.natAbs : Int) : Rat) := (Int.cast_natCast _).symm
      rcases le_total 0 n with h | h
      · rw [Rat.abs_of_nonneg (by exact_mod_cast h), hcast, Int.natAbs_of_nonneg h]
      · rw [Rat.abs_of_nonpos (by exact_mod_cast h), hcast, Int.ofNat_natAbs_of_nonpos h,
          Int.cast_neg]
    have hpos : (0 : Rat) < n.natAbs := by exact_mod_cast Int.natAbs_pos.mpr hne
    have hspacing : spacing (n : Rat).abs ≤ 0 := by
      have hlt : (2 : Rat) ^ binaryExponent n.natAbs < 2 ^ (53 : Int) :=
        lt_of_le_of_lt (binaryExponent_spec hpos).1 (by exact_mod_cast hn)
      have := two_zpow_lt_iff.mp hlt
      rw [habs, spacing]
      omega
    have hone := two_zpow_eq_multiple hspacing
    have hmultiple : (n : Rat) = ((n * 2 ^ (0 - spacing (n : Rat).abs).toNat : Int) : Rat) *
        2 ^ spacing (n : Rat).abs := by
      rw [Int.cast_mul, mul_assoc, ← hone, zpow_zero, mul_one]
    exact le_antisymm (nearest_le_of_multiple hmultiple le_rfl) (multiple_le_nearest hmultiple le_rfl)

end Binary64
end SuiteAudit
