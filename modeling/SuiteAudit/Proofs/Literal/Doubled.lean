import SuiteAudit.Proofs.Literal.LongText
import SuiteAudit.Proofs.Text.Infix
import SuiteAudit.Source.Style

/-! # Backslashes written twice

A value is written as a literal in two steps, each backslash twice and then a backslash before each
quote (`literal_eq_quote_escaped`).  The literal of a value without marks is therefore the value with
each backslash twice, between two marks (`literal_eq_quote`).  Such a text still reads like test data
when the value does (`looksLikeTestData_doubled`): every form of test data is made of letters and of
stretches in which a character more does not matter (`Grows`). -/

namespace SuiteAudit
namespace Literal

/-- A text with each backslash twice. -/
def doubled (v : Text) : Text := Text.replaceChar '\\' ['\\', '\\'] v

theorem doubled_cons_backslash (v : Text) : doubled ('\\' :: v) = '\\' :: '\\' :: doubled v := rfl

theorem doubled_cons {c : Char} (hc : c ≠ '\\') (v : Text) : doubled (c :: v) = c :: doubled v :=
  Text.replaceChar_cons hc _ v

theorem doubled_append (s t : Text) : doubled (s ++ t) = doubled s ++ doubled t :=
  Text.replaceChar_append _ _ s t

theorem doubled_of_not_mem {v : Text} (h : '\\' ∉ v) : doubled v = v :=
  Text.replaceChar_of_not_mem h _

theorem mem_doubled {v : Text} {c : Char} : c ∈ doubled v ↔ c ∈ v := by
  simp only [doubled, Text.replaceChar, List.mem_flatMap]
  constructor
  · rintro ⟨d, hd, hc⟩
    split at hc
    · next h =>
      subst h
      rcases List.mem_cons.mp hc with rfl | hc
      · exact hd
      · rwa [List.mem_singleton.mp hc]
    · rwa [List.mem_singleton.mp hc]
  · intro hc
    refine ⟨c, hc, ?_⟩
    split
    · next h => rw [h]; exact List.mem_cons_self
    · exact List.mem_cons_self

theorem length_le_length_doubled (v : Text) : v.length ≤ (doubled v).length := by
  induction v with
  | nil => exact Nat.le_refl 0
  | cons c v ih =>
      by_cases hc : c = '\\'
      · rw [hc, doubled_cons_backslash]
        simp only [List.length_cons]
        omega
      · rw [doubled_cons hc]
        simpa using ih

theorem doubled_eq_nil {v : Text} : doubled v = [] ↔ v = [] := by
  constructor
  · intro h
    have := length_le_length_doubled v
    rw [h] at this
    exact List.eq_nil_of_length_eq_zero (Nat.le_zero.mp this)
  · rintro rfl
    rfl

theorem IsLong.doubled {q : Char} {v : Text} (h : IsLong q v) : IsLong q (doubled v) :=
  ⟨h.mark, fun _ hc => h.plain _ (mem_doubled.mp hc), Nat.le_trans h.long (length_le_length_doubled v)⟩

/-! ### Written literals -/

/-- A text with each backslash twice, and then a backslash before each quote. -/
def escaped (q : Quotes) (v : Text) : Text :=
  Text.replaceChar q.mark ['\\', q.mark] (doubled v)

/-- The quotes are replaced after the backslashes, and the second step leaves what the first one wrote:
each character is written on its own. -/
theorem escaped_cons (q : Quotes) (c : Char) (v : Text) :
    escaped q (c :: v) = q.escapeChar c ++ escaped q v := by
  unfold escaped
  by_cases hb : c = '\\'
  · rw [Quotes.escapeChar_of_special (Or.inl hb), hb, doubled_cons_backslash,
      Text.replaceChar_cons q.mark_ne_backslash.symm,
      Text.replaceChar_cons q.mark_ne_backslash.symm]
    rfl
  · rw [doubled_cons hb]
    by_cases hq : c = q.mark
    · rw [Quotes.escapeChar_of_special (Or.inr hq), hq, Text.replaceChar_cons_self]
    · rw [Quotes.escapeChar_of_plain (not_or.mpr ⟨hb, hq⟩), Text.replaceChar_cons hq]
      rfl

theorem escaped_special {q : Quotes} {c : Char} (h : c = '\\' ∨ c = q.mark) (v : Text) :
    escaped q (c :: v) = '\\' :: c :: escaped q v := by
  rw [escaped_cons, Quotes.escapeChar_of_special h]
  rfl

theorem escaped_plain {q : Quotes} {c : Char} (h : ¬(c = '\\' ∨ c = q.mark)) (v : Text) :
    escaped q (c :: v) = c :: escaped q v := by
  rw [escaped_cons, Quotes.escapeChar_of_plain h]
  rfl

theorem flatMap_escapeChar (q : Quotes) (v : Text) : v.flatMap q.escapeChar = escaped q v := by
  induction v with
  | nil => rfl
  | cons c v ih => rw [List.flatMap_cons, ih, escaped_cons]

theorem literal_eq_quote_escaped (q : Quotes) (v : Text) :
    q.literal v = quote q.mark (escaped q v) := by
  rw [Quotes.literal, flatMap_escapeChar]
  rfl

/-- The literal of a value without marks. -/
theorem literal_eq_quote (q : Quotes) {v : Text} (h : ∀ c ∈ v, isMark c = false) :
    q.literal v = quote q.mark (doubled v) := by
  have hq : q.mark ∉ doubled v := by
    intro hm
    have := h _ (mem_doubled.mp hm)
    cases q <;> cases this
  rw [literal_eq_quote_escaped, escaped, Text.replaceChar_of_not_mem hq]

/-! ### What stands in it -/

theorem prefix_of_prefix_doubled : ∀ {v w : Text}, '\\' ∉ w → w <+: doubled v → w <+: v
  | _, [], _, _ => List.nil_prefix
  | [], _ :: _, _, h => h
  | c :: v, d :: w, hw, h => by
      by_cases hc : c = '\\'
      · rw [hc, doubled_cons_backslash] at h
        rw [(List.cons_prefix_cons.mp h).1] at hw
        exact absurd List.mem_cons_self hw
      · rw [doubled_cons hc] at h
        obtain ⟨hd, hp⟩ := List.cons_prefix_cons.mp h
        exact List.cons_prefix_cons.mpr
          ⟨hd, prefix_of_prefix_doubled (fun hb => hw (List.mem_cons_of_mem d hb)) hp⟩

/-- What holds no backslash stood in the text before. -/
theorem infix_of_infix_doubled : ∀ {v w : Text}, '\\' ∉ w → w <:+: doubled v → w <:+: v
  | [], _, _, h => h
  | c :: v, w, hw, h => by
      have hcons : w <:+: v → w <:+: c :: v := fun h => h.trans (List.suffix_cons c v).isInfix
      have hskip : ∀ {t : Text}, w <:+: '\\' :: t → w <:+: t := by
        intro t h
        rcases List.infix_cons_iff.mp h with hp | h
        · cases w with
          | nil => exact List.nil_infix
          | cons d w =>
              rw [(List.cons_prefix_cons.mp hp).1] at hw
              exact absurd List.mem_cons_self hw
        · exact h
      by_cases hc : c = '\\'
      · rw [hc, doubled_cons_backslash] at h
        exact hcons (infix_of_infix_doubled hw (hskip (hskip h)))
      · have hp : w <+: doubled (c :: v) → w <:+: c :: v := fun hp =>
          (prefix_of_prefix_doubled hw hp).isInfix
        rw [doubled_cons hc] at h hp
        rcases List.infix_cons_iff.mp h with h | h
        · exact hp h
        · exact hcons (infix_of_infix_doubled hw h)

/-! ### It still reads like test data -/

/-- A pattern that takes a text with each backslash twice where it takes the text. -/
def Grows (p : Pattern) : Prop :=
  ∀ (b b' : Option Char) (o o' : Nat) (s r : Text) (g h : Groups) (g' : Groups),
    b.isNone = b'.isNone → p.Takes ⟨b, s ++ r, o⟩ g s g' →
      p.Takes ⟨b', doubled (s ++ r), o'⟩ h (doubled s) h

theorem grows_lit {t : Text} (ht : '\\' ∉ t) : Grows (.lit t) := by
  rintro b b' o o' s r g h g' - ⟨-, rfl, -⟩
  refine ⟨?_, doubled_of_not_mem ht, rfl⟩
  rw [doubled_append, doubled_of_not_mem ht]
  exact List.prefix_append _ _

theorem grows_one {p : Char → Bool} (hp : p '\\' = false) : Grows (.one p) := by
  rintro b b' o o' s r g h g' - ⟨c, t, e, hc, rfl, -⟩
  have hb : c ≠ '\\' := by
    rintro rfl
    rw [hp] at hc
    cases hc
  refine ⟨c, doubled r, ?_, hc, ?_, rfl⟩
  · rw [List.singleton_append, doubled_cons hb]
  · rw [doubled_cons hb]
    rfl

theorem grows_inLine : Grows .inLine := by
  rintro b b' o o' s r g h g' - ⟨-, hs, -, -⟩
  refine ⟨?_, fun c hc => hs c (mem_doubled.mp hc), Nat.zero_le _, rfl⟩
  rw [doubled_append]
  exact List.prefix_append _ _

theorem grows_textStart : Grows .textStart := by
  rintro b b' o o' s r g h g' hb ⟨ht, rfl, -⟩
  exact ⟨hb.symm.trans ht, rfl, rfl⟩

theorem grows_textEnd : Grows .textEnd := by
  rintro b b' o o' s r g h g' - ⟨ht, rfl, -⟩
  refine ⟨?_, rfl, rfl⟩
  simp only [List.nil_append, decide_eq_true_eq] at ht ⊢
  rcases ht with rfl | rfl
  · exact Or.inl rfl
  · exact Or.inr rfl

theorem grows_seq {p q : Pattern} (hp : Grows p) (hq : Grows q) : Grows (.seq p q) := by
  rintro b b' o o' s r g h g' hb ⟨s₁, s₂, g₁, h₁, h₂, rfl⟩
  refine ⟨doubled s₁, doubled s₂, h, ?_, ?_, doubled_append s₁ s₂⟩
  · rw [List.append_assoc] at h₁ ⊢
    exact hp b b' o o' s₁ (s₂ ++ r) g h g₁ hb h₁
  · have hlast : (s₁.getLast?.or b).isNone = ((doubled s₁).getLast?.or b').isNone := by
      rw [Option.isNone_or, Option.isNone_or, hb, Bool.eq_iff_iff]
      simp [doubled_eq_nil]
    simp only [Place.advance, List.append_assoc, List.drop_left, doubled_append s₁] at h₂ ⊢
    exact hq _ _ _ _ s₂ r g₁ h g' hlast h₂

theorem grows_chain : ∀ {ps : List Pattern}, (∀ p ∈ ps, Grows p) → Grows (.chain ps)
  | [], _ => by
      rintro b b' o o' s r g h g' - ⟨rfl, -⟩
      exact ⟨rfl, rfl⟩
  | [p], hp => hp p List.mem_cons_self
  | p :: q :: ps, hp =>
      grows_seq (hp p List.mem_cons_self)
        (grows_chain fun x hx => hp x (List.mem_cons_of_mem p hx))

theorem grows_anyCase {word : Text} (h : word.all (fun c => !isLetter c '\\') = true) :
    Grows (anyCase word) := by
  refine grows_chain fun p hp => ?_
  obtain ⟨c, hc, rfl⟩ := List.mem_map.mp hp
  exact grows_one (by simpa using List.all_eq_true.mp h c hc)

theorem grows_of_mem_dataHints : ∀ p ∈ dataHints, Grows p := by
  have hend : ∀ p ∈ ([] : List Pattern), Grows p := fun p hp => by cases hp
  have hcons : ∀ {p : Pattern} {ps : List Pattern}, Grows p → (∀ q ∈ ps, Grows q) →
      ∀ q ∈ p :: ps, Grows q := fun hp hps => List.forall_mem_cons.mpr ⟨hp, hps⟩
  refine hcons (grows_chain ?_) (hcons (grows_chain ?_) (hcons (grows_anyCase (by decide))
    (hcons (grows_chain ?_) (hcons (grows_chain ?_) hend))))
  · exact hcons (grows_lit (by decide)) (hcons grows_inLine
      (hcons (grows_lit (by decide)) (hcons grows_textEnd hend)))
  all_goals
    exact hcons grows_textStart (hcons (grows_anyCase (by decide)) (hcons grows_inLine
      (hcons (grows_anyCase (by decide)) (hcons grows_textEnd hend))))

theorem occursIn_doubled {p : Pattern} (hp : Grows p) {v : Text} (h : p.occursIn v = true) :
    p.occursIn (doubled v) = true := by
  obtain ⟨a, s, r, groups, rfl, ht⟩ := Pattern.exists_takes_of_occursIn h
  rw [doubled_append]
  refine Pattern.occursIn_of_takes (hp _ _ _ (doubled a).length s r [] [] groups ?_ ht)
  rw [Bool.eq_iff_iff]
  simp [doubled_eq_nil]

theorem looksLikeSelector_of_doubled {v : Text} (h : looksLikeSelector (doubled v) = true) :
    looksLikeSelector v = true := by
  unfold looksLikeSelector at h ⊢
  rw [Bool.or_eq_true] at h ⊢
  refine h.imp (fun hs => ?_) fun hc => ?_
  · obtain ⟨start, hm, hp⟩ := List.any_eq_true.mp hs
    have hall : ∀ s ∈ selectorStarts, '\\' ∉ s := by decide
    have hb := hall start hm
    refine List.any_eq_true.mpr ⟨start, hm, ?_⟩
    exact List.isPrefixOf_iff_prefix.mpr
      (prefix_of_prefix_doubled hb (List.isPrefixOf_iff_prefix.mp hp))
  · exact Text.contains_iff.mpr (infix_of_infix_doubled (by decide) (Text.contains_iff.mp hc))

theorem looksLikeTestData_doubled {v : Text} (h : looksLikeTestData v = true) :
    looksLikeTestData (doubled v) = true := by
  unfold looksLikeTestData at h ⊢
  rw [Bool.and_eq_true] at h ⊢
  refine ⟨?_, ?_⟩
  · rw [Bool.not_eq_true', Bool.eq_false_iff]
    intro hs
    rw [looksLikeSelector_of_doubled hs] at h
    cases h.1
  · obtain ⟨p, hp, hv⟩ := List.any_eq_true.mp h.2
    exact List.any_eq_true.mpr ⟨p, hp, occursIn_doubled (grows_of_mem_dataHints p hp) hv⟩

end Literal
end SuiteAudit
