import SuiteAudit.Proofs.Literal.WaitCall
import SuiteAudit.Proofs.Pattern.FixedText

/-! # Test data with other waits in it

Two texts that differ only between the parentheses of their waits (`Differs`) read alike, as far as
what stands between the parentheses reads like nothing: they begin and end alike, and what holds no
parenthesis stands in both of them or in one of the gaps.  So one of them is test data when the other
is (`looksLikeTestData_of_differs`). -/

namespace SuiteAudit
namespace Literal

/-- Two texts that are the same up to what their waits hold, which has `P` in the first and `Q` in
the second. -/
inductive Differs (P Q : Text → Prop) : Text → Text → Prop
  | nil : Differs P Q [] []
  | keep {c : Char} {s t : Text} : Differs P Q s t → Differs P Q (c :: s) (c :: t)
  | wait {x y s t : Text} : P x → Q y → Differs P Q s t →
      Differs P Q (waitStart ++ (x ++ ')' :: s)) (waitStart ++ (y ++ ')' :: t))

variable {P Q : Text → Prop} {s t x y : Text}

theorem Differs.symm (h : Differs P Q s t) : Differs Q P t s := by
  induction h with
  | nil => exact .nil
  | keep _ ih => exact ih.keep
  | wait hx hy _ ih => exact .wait hy hx ih

theorem waitStart_eq : waitStart = "waitForTimeout" ++ ['('] := rfl

theorem waitStart_append (t : Text) : waitStart ++ t = 'w' :: (waitTail ++ t) := rfl

/-- What holds no `w` begins both. -/
theorem Differs.exists_prefix (h : Differs P Q s t) : ∀ {x t' : Text}, 'w' ∉ x → t = x ++ t' →
    ∃ s', s = x ++ s' ∧ Differs P Q s' t' := by
  induction h with
  | nil =>
      intro x t' _ e
      obtain ⟨rfl, rfl⟩ := List.nil_eq_append_iff.mp e
      exact ⟨[], rfl, .nil⟩
  | @keep c s t h ih =>
      intro x t' hx e
      cases x with
      | nil =>
          obtain rfl : c :: t = t' := e
          exact ⟨c :: s, rfl, h.keep⟩
      | cons d x =>
          obtain ⟨rfl, e'⟩ := List.cons.inj e
          obtain ⟨s', rfl, h'⟩ := ih (fun hm => hx (List.mem_cons_of_mem c hm)) e'
          exact ⟨s', rfl, h'⟩
  | wait hx hy h _ =>
      intro x t' hw e
      cases x with
      | nil =>
          rw [List.nil_append] at e
          subst e
          exact ⟨_, (List.nil_append _).symm, h.wait hx hy⟩
      | cons d x =>
          rw [waitStart_append, List.cons_append] at e
          rw [(List.cons.inj e).1] at hw
          exact absurd List.mem_cons_self hw

theorem Differs.eq_of_paren_not_mem (h : Differs P Q s t) (ht : ')' ∉ t) : s = t := by
  induction h with
  | nil => rfl
  | keep _ ih => rw [ih fun hm => ht (List.mem_cons_of_mem _ hm)]
  | wait _ _ _ _ => exact absurd (by simp) ht

/-- What holds no closing parenthesis ends both. -/
theorem Differs.exists_suffix (h : Differs P Q s t) : ∀ {t' y : Text}, ')' ∉ y → t = t' ++ y →
    ∃ s', s = s' ++ y ∧ Differs P Q s' t' := by
  induction h with
  | nil =>
      intro t' y _ e
      obtain ⟨rfl, rfl⟩ := List.nil_eq_append_iff.mp e
      exact ⟨[], rfl, .nil⟩
  | @keep c s t h ih =>
      intro t' y hy e
      cases t' with
      | nil =>
          obtain rfl : c :: t = y := e
          exact ⟨[], h.keep.eq_of_paren_not_mem hy, .nil⟩
      | cons d t' =>
          obtain ⟨rfl, e'⟩ := List.cons.inj e
          obtain ⟨s', rfl, h'⟩ := ih hy e'
          exact ⟨c :: s', rfl, h'.keep⟩
  | @wait x y₀ s t hx hy₀ h ih =>
      intro t' y hy e
      have e' : t' ++ y = (waitStart ++ y₀) ++ ')' :: t := by
        rw [← e, List.append_assoc]
      obtain ⟨u, rfl, e''⟩ := Text.exists_of_append_eq' hy e'
      obtain ⟨s', rfl, h'⟩ := ih hy e''
      refine ⟨waitStart ++ (x ++ ')' :: s'), by simp, ?_⟩
      rw [List.append_assoc]
      exact h'.wait hx hy₀

/-- What begins one of them and holds no parenthesis begins the other. -/
theorem Differs.prefix_of_prefix (h : Differs P Q s t) : ∀ {x : Text}, '(' ∉ x → x <+: t →
    x <+: s := by
  induction h with
  | nil => exact fun _ h => h
  | keep _ ih =>
      intro x hx h
      cases x with
      | nil => exact List.nil_prefix
      | cons d x =>
          obtain ⟨rfl, h'⟩ := List.cons_prefix_cons.mp h
          exact List.cons_prefix_cons.mpr ⟨rfl, ih (fun hm => hx (List.mem_cons_of_mem _ hm)) h'⟩
  | wait _ _ _ _ =>
      intro x hx h
      rw [waitStart_eq, List.append_assoc] at h ⊢
      rcases Text.prefix_append h with hp | ⟨u, hu, rfl, hp⟩
      · exact hp.trans (List.prefix_append _ _)
      · cases u with
        | nil => exact absurd rfl hu
        | cons c u =>
            rw [(List.cons_prefix_cons.mp hp).1] at hx
            exact absurd (List.mem_append_right _ List.mem_cons_self) hx

/-- What stands in one of them and holds no parenthesis stands in the other, or between
parentheses. -/
theorem Differs.infix_cases (h : Differs P Q s t) (hl : '(' ∉ x) (hr : ')' ∉ x) (hx : x <:+: t) :
    x <:+: s ∨ ∃ y, Q y ∧ x <:+: y := by
  induction h with
  | nil => exact .inl hx
  | @keep c s t h ih =>
      rcases List.infix_cons_iff.mp hx with hp | hx
      · exact .inl (h.keep.prefix_of_prefix hl hp).isInfix
      · exact (ih hx).imp_left fun h => h.trans (List.suffix_cons c s).isInfix
  | @wait u y s t hu hy _ ih =>
      rw [waitStart_eq, List.append_assoc] at hx
      rcases Text.infix_of_barrier hl hx with hx | hx
      · exact .inl (hx.trans ⟨[], '(' :: (u ++ ')' :: s), rfl⟩)
      · rcases Text.infix_of_barrier hr hx with hx | hx
        · exact .inr ⟨y, hy, hx⟩
        · refine (ih hx).imp_left fun h => h.trans ⟨waitStart ++ (u ++ [')']), [], ?_⟩
          simp

/-! ### The forms of test data -/

theorem anyCase_plain (word : Text) : (anyCase word).Plain := by
  have key : ∀ ps : List Pattern, (∀ p ∈ ps, p.Plain) → (Pattern.chain ps).Plain := by
    intro ps hps
    induction ps with
    | nil => trivial
    | cons p ps ih =>
        obtain ⟨hp, hps⟩ := List.forall_mem_cons.mp hps
        cases ps with
        | nil => exact hp
        | cons q ps => exact ⟨hp, ih hps⟩
  exact key _ (List.forall_mem_map.mpr fun _ _ => trivial)

/-- What reads like a word is made of its letters. -/
theorem not_mem_of_describes {word : Text} {c : Char}
    (hc : word.all (fun l => !isLetter l c) = true) : ∀ {place : Place} {g g' : Groups} {s : Text},
      (anyCase word).Takes place g s g' → c ∉ s := by
  induction word with
  | nil =>
      rintro place g g' s ⟨rfl, -⟩
      exact List.not_mem_nil
  | cons l word ih =>
      rw [List.all_cons, Bool.and_eq_true, Bool.not_eq_true'] at hc
      have hone : ∀ {place : Place} {g g' : Groups} {s : Text},
          (Pattern.one (isLetter l)).Takes place g s g' → c ∉ s := by
        rintro place g g' s ⟨d, t, -, hd, rfl, -⟩ hm
        rw [← List.mem_singleton.mp hm, hc.1] at hd
        cases hd
      intro place g g' s h
      cases word with
      | nil => exact hone h
      | cons l' word =>
          obtain ⟨s₁, s₂, g₁, h₁, h₂, rfl⟩ := h
          exact fun hm => (List.mem_append.mp hm).elim (hone h₁) (ih hc.2 h₂)

/-- What stands where a text of one line ends. -/
theorem eq_nil_of_textEnd {place : Place} {g g' : Groups} {s u : Text}
    (h : Pattern.textEnd.Takes place g s g') (hr : place.rest = u) (hu : '\n' ∉ u) :
    u = [] ∧ s = [] := by
  obtain ⟨hend, rfl, -⟩ := h
  rw [hr] at hend
  refine ⟨(of_decide_eq_true hend).resolve_right ?_, rfl⟩
  rintro rfl
  exact hu List.mem_cons_self

/-- A text of one line that begins with one word and ends with another. -/
theorem framed_occursIn_iff {front back : Text} (ht : '\n' ∉ t) :
    Pattern.occursIn (.chain [.textStart, anyCase front, .inLine, anyCase back, .textEnd]) t = true ↔
      ∃ x m y, (anyCase front).Describes x ∧ (anyCase back).Describes y ∧ t = x ++ (m ++ y) := by
  constructor
  · intro hoccurs
    obtain ⟨a, s, u, groups, rfl, h⟩ := Pattern.exists_takes_of_occursIn hoccurs
    obtain ⟨s₁, s₂, g₁, ⟨hstart, rfl, -⟩, ⟨x, s₃, g₂, hx, ⟨m, s₄, g₃, -, ⟨y, z, g₄, hy, hend, rfl⟩,
      rfl⟩, rfl⟩, rfl⟩ := h
    obtain rfl : a = [] := by simpa using hstart
    simp only [List.nil_append, List.append_assoc, List.mem_append, not_or] at ht
    have hrest : '\n' ∉ z ++ u := by
      simp only [List.mem_append, not_or]
      exact ht.2.2.2
    obtain ⟨hu, rfl⟩ := eq_nil_of_textEnd hend (by simp [Place.advance]) hrest
    obtain rfl : u = [] := hu
    exact ⟨x, m, y, (anyCase_plain front).takes hx (List.prefix_refl x),
      (anyCase_plain back).takes hy (List.prefix_refl y), by simp⟩
  · rintro ⟨x, m, y, hx, hy, rfl⟩
    have hm : ∀ c ∈ m, Pattern.isNotLineFeed c = true := by
      intro c hc
      rw [Pattern.isNotLineFeed, bne_iff_ne]
      rintro rfl
      exact ht (List.mem_append_right x (List.mem_append_left y hc))
    refine Pattern.occursIn_of_takes (a := []) (r := x ++ (m ++ y)) (s := x ++ (m ++ y))
      ⟨[], x ++ (m ++ y), [], ⟨rfl, rfl, rfl⟩, ⟨x, m ++ y, [], ?_,
        ⟨m, y, [], ⟨?_, hm, Nat.zero_le _, rfl⟩, ⟨y, [], [], ?_, ⟨?_, rfl, rfl⟩, by simp⟩, rfl⟩, rfl⟩, rfl⟩
    · exact (anyCase_plain front).takes hx (List.prefix_append _ _)
    · simp [Place.advance]
    · exact (anyCase_plain back).takes hy (by simp [Place.advance])
    · simp [Place.advance]

/-- A text of one line with an address at its end. -/
theorem address_occursIn_iff (ht : '\n' ∉ t) :
    Pattern.occursIn (.chain [.lit "@", .inLine, .lit ".com", .textEnd]) t = true ↔
      ∃ a m, t = a ++ '@' :: m ++ (".com" : Text) := by
  constructor
  · intro hoccurs
    obtain ⟨a, s, u, groups, rfl, h⟩ := Pattern.exists_takes_of_occursIn hoccurs
    obtain ⟨s₁, s₂, g₁, ⟨-, rfl, -⟩, ⟨m, s₃, g₂, -, ⟨y, z, g₃, ⟨-, rfl, -⟩, hend, rfl⟩, rfl⟩, rfl⟩ := h
    simp only [List.append_assoc, List.mem_append, not_or] at ht
    have hrest : '\n' ∉ z ++ u := by
      simp only [List.mem_append, not_or]
      exact ht.2.2.2.2
    obtain ⟨hu, rfl⟩ := eq_nil_of_textEnd hend (by simp [Place.advance]) hrest
    obtain rfl : u = [] := hu
    exact ⟨a, m, by simp⟩
  · rintro ⟨a, m, rfl⟩
    have hm : ∀ c ∈ m, Pattern.isNotLineFeed c = true := by
      intro c hc
      rw [Pattern.isNotLineFeed, bne_iff_ne]
      rintro rfl
      simp only [List.mem_append, List.mem_cons, not_or] at ht
      exact ht.1.2.2 hc
    rw [List.append_assoc, List.cons_append]
    refine Pattern.occursIn_of_takes (a := a) (s := '@' :: (m ++ (".com" : Text)))
      ⟨['@'], m ++ (".com" : Text), [], ⟨⟨m ++ (".com" : Text), rfl⟩, rfl, rfl⟩,
        ⟨m, (".com" : Text), [], ⟨?_, hm, Nat.zero_le _, rfl⟩,
          ⟨(".com" : Text), [], [], ⟨?_, rfl, rfl⟩, ⟨?_, rfl, rfl⟩, (List.append_nil _).symm⟩, rfl⟩, rfl⟩
    · simp [Place.advance]
    · simp [Place.advance]
    · simp [Place.advance]

/-! ### It reads alike -/

/-- One text begins and ends with the words that the other does. -/
theorem framed_occursIn_of_differs {front back : Text} (hf : front.all (!isLetter · 'w') = true)
    (hb : back.all (!isLetter · ')') = true) (h : Differs P Q s t) (hs : '\n' ∉ s) (ht : '\n' ∉ t)
    (ho : Pattern.occursIn
      (.chain [.textStart, anyCase front, .inLine, anyCase back, .textEnd]) t = true) :
    Pattern.occursIn
      (.chain [.textStart, anyCase front, .inLine, anyCase back, .textEnd]) s = true := by
  obtain ⟨x, m, y, hx, hy, rfl⟩ := (framed_occursIn_iff ht).mp ho
  obtain ⟨s', rfl, h'⟩ := h.exists_prefix (not_mem_of_describes hf hx) rfl
  obtain ⟨m', rfl, -⟩ := h'.exists_suffix (not_mem_of_describes hb hy) rfl
  exact (framed_occursIn_iff hs).mpr ⟨x, m', y, hx, hy, rfl⟩

theorem address_occursIn_of_differs (hQ : ∀ y, Q y → '@' ∉ y) (h : Differs P Q s t)
    (hs : '\n' ∉ s) (ht : '\n' ∉ t)
    (ho : Pattern.occursIn (.chain [.lit "@", .inLine, .lit ".com", .textEnd]) t = true) :
    Pattern.occursIn (.chain [.lit "@", .inLine, .lit ".com", .textEnd]) s = true := by
  obtain ⟨a, m, rfl⟩ := (address_occursIn_iff ht).mp ho
  obtain ⟨s', rfl, h'⟩ := h.exists_suffix (by decide) rfl
  have hin : ['@'] <:+: a ++ '@' :: m := ⟨a, m, by simp⟩
  rcases h'.infix_cases (by decide) (by decide) hin with hat | ⟨y, hy, hat⟩
  · obtain ⟨a', m', rfl⟩ := hat
    exact (address_occursIn_iff hs).mpr ⟨a', m', by simp⟩
  · exact absurd (hat.subset List.mem_cons_self) (hQ y hy)

theorem password_occursIn_of_differs
    (hQ : ∀ y, Q y → (anyCase "password").occursIn y = false) (h : Differs P Q s t)
    (ho : (anyCase "password").occursIn t = true) : (anyCase "password").occursIn s = true := by
  have hplain := anyCase_plain "password"
  obtain ⟨x, hx, hin⟩ := hplain.occursIn_iff.mp ho
  have hl : '(' ∉ x := not_mem_of_describes (by decide) hx
  have hr : ')' ∉ x := not_mem_of_describes (by decide) hx
  rcases h.infix_cases hl hr hin with hin | ⟨y, hy, hin⟩
  · exact hplain.occursIn_iff.mpr ⟨x, hx, hin⟩
  · have := hplain.occursIn_iff.mpr ⟨x, hx, hin⟩
    rw [hQ y hy] at this
    cases this

theorem looksLikeSelector_of_differs (hP : ∀ x, P x → '-' ∉ x) (h : Differs P Q s t)
    (hs : looksLikeSelector s = true) : looksLikeSelector t = true := by
  unfold looksLikeSelector at hs ⊢
  rw [Bool.or_eq_true] at hs ⊢
  refine hs.imp (fun hstart => ?_) fun hid => ?_
  · obtain ⟨start, hm, hp⟩ := List.any_eq_true.mp hstart
    have hall : ∀ start ∈ selectorStarts, 'w' ∉ start := by decide
    obtain ⟨r, rfl⟩ := List.isPrefixOf_iff_prefix.mp hp
    obtain ⟨t', rfl, -⟩ := h.symm.exists_prefix (hall start hm) rfl
    exact List.any_eq_true.mpr
      ⟨start, hm, List.isPrefixOf_iff_prefix.mpr (List.prefix_append start t')⟩
  · rcases h.symm.infix_cases (by decide) (by decide) (Text.contains_iff.mp hid) with hin | ⟨x, hx, hin⟩
    · exact Text.contains_iff.mpr hin
    · exact absurd (hin.subset (by decide)) (hP x hx)

/-- A text of one line is test data when one that differs from it in its waits only is, and what the
waits hold neither is nor hides anything that test data or selectors are known by. -/
theorem looksLikeTestData_of_differs (hP : ∀ x, P x → '-' ∉ x)
    (hQ : ∀ y, Q y → '@' ∉ y ∧ (anyCase "password").occursIn y = false) (h : Differs P Q s t)
    (hs : '\n' ∉ s) (ht : '\n' ∉ t) (hdata : looksLikeTestData t = true) :
    looksLikeTestData s = true := by
  unfold looksLikeTestData at hdata ⊢
  rw [Bool.and_eq_true, Bool.not_eq_true'] at hdata ⊢
  refine ⟨Bool.eq_false_iff.mpr fun hsel => ?_, ?_⟩
  · rw [looksLikeSelector_of_differs hP h hsel] at hdata
    cases hdata.1
  · have hhints := hdata.2
    simp only [dataHints, List.any_cons, List.any_nil, Bool.or_false, Bool.or_eq_true] at hhints ⊢
    refine hhints.imp (address_occursIn_of_differs (fun y hy => (hQ y hy).1) h hs ht) ?_
    refine Or.imp (framed_occursIn_of_differs (by decide) (by decide) h hs ht) ?_
    refine Or.imp (password_occursIn_of_differs (fun y hy => (hQ y hy).2) h) ?_
    exact Or.imp (framed_occursIn_of_differs (by decide) (by decide) h hs ht)
      (framed_occursIn_of_differs (by decide) (by decide) h hs ht)

end Literal
end SuiteAudit
