import SuiteAudit.Proofs.Refactoring.GivenName
import SuiteAudit.Proofs.Text.Infix

/-! # The free names of a base

A base comes with candidates: itself, and itself with a number from two on.  An unused name is the
first candidate that is not taken (`exists_candidate`).  When bases are asked for one after the
other, and what is taken are some names and those given before, then as many of the first free
candidates of a base have been given as it was asked for (`IsAmong`, `isAmong_cons`): other bases
have other candidates (`candidate_inj`), so that the order of asking plays no part. -/

namespace SuiteAudit

/-- The names tried for a base, in order. -/
def candidate (base : Text) : Nat → Text
  | 0 => base
  | i + 1 => numberedName base (i + 2)

/-- An unused name is the first candidate that is not taken. -/
theorem exists_candidate (base : Text) (taken : List Text) : ∃ j,
    unusedName base taken = candidate base j ∧ candidate base j ∉ taken ∧
      ∀ i, i < j → candidate base i ∈ taken := by
  have hfree := unusedName_not_mem base taken
  unfold unusedName freshName at hfree ⊢
  by_cases hbase : base ∈ taken
  · rw [if_pos (List.elem_iff.mpr hbase)] at hfree ⊢
    obtain ⟨m, hm, e, hall, -⟩ := exists_freshFrom taken (numberedName base) taken.length 2
    obtain ⟨j, rfl⟩ := Nat.exists_eq_add_of_le' hm
    rw [e] at hfree ⊢
    refine ⟨j + 1, rfl, hfree, fun i hi => ?_⟩
    cases i with
    | zero => exact hbase
    | succ i => exact hall (i + 2) (by omega) (by omega)
  · rw [if_neg fun h => hbase (List.elem_iff.mp h)]
    exact ⟨0, rfl, hbase, fun i hi => absurd hi (Nat.not_lt_zero i)⟩

/-! ### Bases -/

/-- A name that a wait or a piece of test data asks for. -/
def IsBase (base : Text) : Prop :=
  (∃ ms : Nat, base = Literal.timeoutName ms) ∨ ∃ value, base = Literal.dataName value

/-- No base ends in a digit. -/
theorem IsBase.last {base : Text} (h : IsBase base) : base.getLast?.any Char.isDigit = false := by
  rcases h with ⟨ms, rfl⟩ | ⟨value, rfl⟩
  · unfold Literal.timeoutName Literal.timeoutNameAs
    cases hf : Literal.timeoutNames.find? fun p => (p.1 : Rat) = ((ms : Int) : Rat) with
    | none =>
        simp only [Option.map_none, Option.getD_none]
        rw [List.getLast?_append]
        rfl
    | some p =>
        have hall : ∀ p ∈ Literal.timeoutNames, p.2.getLast?.any Char.isDigit = false := by decide
        exact hall p (List.mem_of_find?_eq_some hf)
  · unfold Literal.dataName
    simp only
    split_ifs <;> decide

theorem ne_numberedName {base : Text} (h : IsBase base) (other : Text) (n : Nat) :
    base ≠ numberedName other n := by
  intro e
  have hlast := h.last
  rw [e, numberedName, List.getLast?_append] at hlast
  have hne : Text.ofNat n ≠ [] := Nat.toDigits_ne_nil
  rw [List.getLast?_eq_some_getLast hne, Option.some_or, Option.any_some] at hlast
  have hdigit : ((Text.ofNat n).getLast hne).isDigit = true :=
    Nat.isDigit_of_mem_toDigits (by decide) (by decide) (List.getLast_mem hne)
  rw [hdigit] at hlast
  cases hlast

theorem numberedName_inj {base other : Text} {m n : Nat}
    (e : numberedName base m = numberedName other n) : base = other ∧ m = n := by
  have hdigits : ∀ k, ∀ c ∈ (Text.ofNat k).reverse, Char.isDigit c = true := fun k c hc =>
    Nat.isDigit_of_mem_toDigits (by decide) (by decide) (List.mem_reverse.mp hc)
  -- read from behind, the digits end at the underscore
  have hrev := congrArg List.reverse e
  simp only [numberedName, List.reverse_append] at hrev
  obtain ⟨hnum, hbase⟩ := Text.run_append_inj (hdigits m) (hdigits n) rfl rfl hrev
  exact ⟨List.reverse_inj.mp (List.append_cancel_left hbase),
    ofNat_injective (List.reverse_inj.mp hnum)⟩

theorem candidate_inj {base other : Text} (hb : IsBase base) (ho : IsBase other) {i j : Nat}
    (e : candidate base i = candidate other j) : base = other ∧ i = j := by
  cases i with
  | zero =>
      cases j with
      | zero => exact ⟨e, rfl⟩
      | succ j => exact absurd e (ne_numberedName hb other _)
  | succ i =>
      cases j with
      | zero => exact absurd e.symm (ne_numberedName ho base _)
      | succ j =>
          obtain ⟨rfl, hij⟩ := numberedName_inj e
          exact ⟨rfl, by omega⟩

/-! ### Candidates that are free -/

/-- How many of the first `j` candidates of a base are none of some names. -/
def freeBefore (names : List Text) (base : Text) (j : Nat) : Nat :=
  (List.range j).countP fun i => candidate base i ∉ names

variable {names : List Text} {base : Text}

theorem freeBefore_succ (j : Nat) : freeBefore names base (j + 1) =
    freeBefore names base j + if candidate base j ∉ names then 1 else 0 := by
  rw [freeBefore, List.range_succ, List.countP_append, List.countP_singleton]
  simp only [decide_eq_true_eq]
  rfl

theorem freeBefore_mono {i j : Nat} (h : i ≤ j) :
    freeBefore names base i ≤ freeBefore names base j :=
  (List.range_sublist.mpr h).countP_le

/-- A free candidate is counted before all later ones. -/
theorem freeBefore_lt {i j : Nat} (hi : candidate base i ∉ names) (h : i < j) :
    freeBefore names base i < freeBefore names base j := by
  have : freeBefore names base (i + 1) ≤ freeBefore names base j := freeBefore_mono h
  rw [freeBefore_succ, if_pos hi] at this
  omega

theorem freeBefore_inj {i j : Nat} (hi : candidate base i ∉ names) (hj : candidate base j ∉ names)
    (e : freeBefore names base i = freeBefore names base j) : i = j := by
  rcases Nat.lt_trichotomy i j with h | h | h
  · have := freeBefore_lt hi h
    omega
  · exact h
  · have := freeBefore_lt hj h
    omega

/-- Where all free candidates before have fewer than `m` others before them, so many are there. -/
theorem freeBefore_le {m : Nat} : ∀ {j : Nat},
    (∀ i, i < j → candidate base i ∉ names → freeBefore names base i < m) →
      freeBefore names base j ≤ m
  | 0, _ => Nat.zero_le m
  | j + 1, h => by
      rw [freeBefore_succ]
      split
      · next hj => exact h j (Nat.lt_succ_self j) hj
      · exact freeBefore_le fun i hi => h i (Nat.lt_succ_of_lt hi)

/-- A name is among the first free candidates of a base, of which there are as many as the base is
asked for. -/
def IsAmong (names asked : List Text) (n : Text) : Prop :=
  ∃ base j, n = candidate base j ∧ n ∉ names ∧ freeBefore names base j < asked.count base

theorem not_isAmong_nil {n : Text} : ¬ IsAmong names [] n := by
  rintro ⟨base, j, -, -, h⟩
  exact absurd h (Nat.not_lt_zero _)

theorem IsAmong.not_mem {asked : List Text} {n : Text} (h : IsAmong names asked n) : n ∉ names := by
  obtain ⟨_, _, _, h, _⟩ := h
  exact h

/-- Asking for one base more gives the first of its candidates that is neither one of the names nor
given before. -/
theorem isAmong_cons {asked taken : List Text} (hasked : ∀ b ∈ asked, IsBase b) (hb : IsBase base)
    (ht : ∀ n, n ∈ taken ↔ n ∈ names ∨ IsAmong names asked n) (n : Text) :
    IsAmong names (base :: asked) n ↔ n = unusedName base taken ∨ IsAmong names asked n := by
  obtain ⟨j, e, hfree, hall⟩ := exists_candidate base taken
  have hj : candidate base j ∉ names ∧ ¬ IsAmong names asked (candidate base j) := by
    rwa [ht, not_or] at hfree
  -- the free candidates before have been given, and no others
  have hbefore : ∀ i, i < j → candidate base i ∉ names →
      freeBefore names base i < asked.count base := by
    intro i hi hnames
    obtain ⟨b, i', e', -, hlt⟩ := ((ht _).mp (hall i hi)).resolve_left hnames
    have hbase : IsBase b := hasked b (List.count_pos_iff.mp (Nat.lt_of_le_of_lt (Nat.zero_le _) hlt))
    obtain ⟨rfl, rfl⟩ := candidate_inj hb hbase e'
    exact hlt
  have hcount : freeBefore names base j = asked.count base := by
    refine Nat.le_antisymm (freeBefore_le hbefore) (Nat.le_of_not_lt fun hlt => hj.2 ?_)
    exact ⟨base, j, rfl, hj.1, hlt⟩
  rw [e]
  constructor
  · rintro ⟨b, i, rfl, hnames, hlt⟩
    by_cases hbb : b = base
    · subst hbb
      rw [List.count_cons_self, Nat.lt_succ_iff_lt_or_eq] at hlt
      rcases hlt with hlt | heq
      · exact Or.inr ⟨b, i, rfl, hnames, hlt⟩
      · rw [freeBefore_inj hnames hj.1 (heq.trans hcount.symm)]
        exact Or.inl rfl
    · rw [List.count_cons_of_ne (Ne.symm hbb)] at hlt
      exact Or.inr ⟨b, i, rfl, hnames, hlt⟩
  · rintro (rfl | ⟨b, i, rfl, hnames, hlt⟩)
    · refine ⟨base, j, rfl, hj.1, ?_⟩
      rw [List.count_cons_self, hcount]
      exact Nat.lt_succ_self _
    · exact ⟨b, i, rfl, hnames, Nat.lt_of_lt_of_le hlt (List.count_le_count_cons)⟩

theorem isAmong_congr {asked asked' : List Text} (h : asked.Perm asked') (n : Text) :
    IsAmong names asked n ↔ IsAmong names asked' n := by
  simp only [IsAmong, h.count_eq]

end SuiteAudit
