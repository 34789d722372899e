import SuiteAudit.Proofs.Pattern.FixedText
import SuiteAudit.Proofs.Text.Blanks
import SuiteAudit.Source.Assertion

/-! # Expectations

An argument holds parentheses only in pairs without others inside (`IsArgument`), so it ends at the
first parenthesis that closes none of its own (`IsArgument.inj`).  A call `expect(…).matcher(…)` can
therefore be read in one way only (`IsCall.inj`), whatever the order in which the pattern
`Assertion.expectCall` tries its alternatives, and the pattern takes such calls and nothing else
(`matchAt_expectCall_iff`).  So the parser gives back the parts of the first call on a line, and what
it recognizes stands there as a call (`Assertion.onLine?_inverts`). -/

namespace SuiteAudit
namespace Assertion

/-! ### Arguments -/

/-- A text of characters other than parentheses and of pairs of parentheses with none inside. -/
inductive IsArgument : Text → Prop
  | nil : IsArgument []
  | plain {c : Char} {t : Text} : c ≠ '(' → c ≠ ')' → IsArgument t → IsArgument (c :: t)
  | group {x t : Text} : '(' ∉ x → ')' ∉ x → IsArgument t → IsArgument ('(' :: (x ++ ')' :: t))

theorem upTo_inj {q : Char} {a b x y : Text} (ha : q ∉ a) (hb : q ∉ b)
    (e : a ++ q :: x = b ++ q :: y) : a = b ∧ x = y := by
  have hrun {s : Text} (hs : q ∉ s) : ∀ c ∈ s, (c != q) = true := fun c hc =>
    bne_iff_ne.mpr fun e => hs (e ▸ hc)
  obtain ⟨hab, hxy⟩ := Text.run_append_inj (hrun ha) (hrun hb) (by simp) (by simp) e
  exact ⟨hab, List.tail_eq_of_cons_eq hxy⟩

/-- An argument is known by any text in which it is closed. -/
theorem IsArgument.inj {a b r r' : Text} (ha : IsArgument a) (hb : IsArgument b)
    (e : a ++ ')' :: r = b ++ ')' :: r') : a = b ∧ r = r' := by
  induction ha generalizing b with
  | nil =>
      cases hb with
      | nil => exact ⟨rfl, List.tail_eq_of_cons_eq e⟩
      | plain _ hc _ => exact absurd (List.head_eq_of_cons_eq e).symm hc
      | group _ _ _ => exact absurd (List.head_eq_of_cons_eq e) (by decide)
  | @plain c t ho hc ht ih =>
      cases hb with
      | nil => exact absurd (List.head_eq_of_cons_eq e) hc
      | plain _ _ ht' =>
          obtain ⟨rfl, e'⟩ := List.cons.inj e
          obtain ⟨rfl, rfl⟩ := ih ht' e'
          exact ⟨rfl, rfl⟩
      | group _ _ _ => exact absurd (List.head_eq_of_cons_eq e) ho
  | @group x t ho hc ht ih =>
      cases hb with
      | nil => exact absurd (List.head_eq_of_cons_eq e) (by decide)
      | plain ho' _ _ => exact absurd (List.head_eq_of_cons_eq e).symm ho'
      | group ho' hc' ht' =>
          simp only [List.cons_append, List.append_assoc, List.cons.injEq, true_and] at e
          obtain ⟨rfl, e'⟩ := upTo_inj hc hc' e
          obtain ⟨rfl, rfl⟩ := ih ht' e'
          exact ⟨rfl, rfl⟩

theorem IsArgument.append {a b : Text} (ha : IsArgument a) (hb : IsArgument b) :
    IsArgument (a ++ b) := by
  induction ha with
  | nil => exact hb
  | plain ho hc _ ih => exact .plain ho hc ih
  | group ho hc _ ih =>
      rw [List.cons_append, List.append_assoc, List.cons_append]
      exact .group ho hc ih

theorem IsArgument.of_not_mem : ∀ {s : Text}, '(' ∉ s → ')' ∉ s → IsArgument s
  | [], _, _ => .nil
  | c :: s, ho, hc => by
      rw [List.mem_cons, not_or] at ho hc
      exact .plain (Ne.symm ho.1) (Ne.symm hc.1) (.of_not_mem ho.2 hc.2)

/-! ### What the pattern of an argument takes -/

/-- One character or one pair of parentheses. -/
inductive IsPiece : Text → Prop
  | plain {c : Char} : c ≠ '(' → c ≠ ')' → IsPiece [c]
  | group {x : Text} : '(' ∉ x → ')' ∉ x → IsPiece ('(' :: (x ++ [')']))

variable {place : Place} {g g' : Groups} {s t : Text}

theorem IsPiece.isArgument_append (hs : IsPiece s) (ht : IsArgument t) : IsArgument (s ++ t) := by
  cases hs with
  | plain ho hc => exact .plain ho hc ht
  | group ho hc =>
      rw [List.cons_append, List.append_assoc, List.singleton_append]
      exact .group ho hc ht

theorem IsPiece.ne_nil (hs : IsPiece s) : s ≠ [] := by
  cases hs <;> exact List.cons_ne_nil _ _

theorem notAmong_iff {c : Char} : Pattern.notAmong "()" c = true ↔ c ≠ '(' ∧ c ≠ ')' := by
  simp [Pattern.notAmong]

theorem forall_notAmong_iff {x : Text} :
    (∀ c ∈ x, Pattern.notAmong "()" c = true) ↔ '(' ∉ x ∧ ')' ∉ x := by
  simp only [notAmong_iff]
  constructor
  · exact fun h => ⟨fun ho => (h _ ho).1 rfl, fun hc => (h _ hc).2 rfl⟩
  · exact fun ⟨ho, hc⟩ c hm => ⟨fun e => ho (e ▸ hm), fun e => hc (e ▸ hm)⟩

theorem argumentPiece_takes_iff :
    argumentPiece.Takes place g s g' ↔ IsPiece s ∧ s <+: place.rest ∧ g' = g := by
  constructor
  · intro h
    have hp := h.isPrefix
    rcases h with ⟨c, -, -, hc, rfl, rfl⟩ | ⟨s₁, s₂, g₁, ⟨-, rfl, rfl⟩, h, rfl⟩
    · exact ⟨.plain (notAmong_iff.mp hc).1 (notAmong_iff.mp hc).2, hp, rfl⟩
    · obtain ⟨x, s₃, g₂, ⟨-, hx, -, rfl⟩, ⟨-, rfl, rfl⟩, rfl⟩ := h
      obtain ⟨ho, hc⟩ := forall_notAmong_iff.mp hx
      exact ⟨.group ho hc, hp, rfl⟩
  · rintro ⟨hs, ⟨r, e⟩, rfl⟩
    cases hs with
    | @plain c ho hc => exact .inl ⟨c, r, e.symm, notAmong_iff.mpr ⟨ho, hc⟩, rfl, rfl⟩
    | @group x ho hc =>
        have e₀ : place.rest = ("(" : Text) ++ (x ++ ((")" : Text) ++ r)) := by rw [← e]; simp
        have e₁ := Place.advance_rest e₀
        have e₂ := Place.advance_rest e₁
        have hx := forall_notAmong_iff.mpr ⟨ho, hc⟩
        have h₁ : (Pattern.lit "(").Takes place g' ['('] g' := ⟨⟨_, e₀.symm⟩, rfl, rfl⟩
        have h₂ : (Pattern.run true 0 (Pattern.notAmong "()")).Takes _ g' x g' :=
          ⟨⟨_, e₁.symm⟩, hx, Nat.zero_le _, rfl⟩
        exact .inr (Pattern.takes_seq h₁ (Pattern.takes_seq h₂ ⟨⟨_, e₂.symm⟩, rfl, rfl⟩))

theorem IsArgument.exists_piece (h : IsArgument s) :
    s = [] ∨ ∃ a t, s = a ++ t ∧ IsPiece a ∧ IsArgument t := by
  cases h with
  | nil => exact .inl rfl
  | @plain c t ho hc ht => exact .inr ⟨[c], t, rfl, .plain ho hc, ht⟩
  | @group x t ho hc ht => exact .inr ⟨'(' :: (x ++ [')']), t, by simp, .group ho hc, ht⟩

/-- An argument is taken piece by piece. -/
theorem takesMany_iff : ∀ {limit : Nat} {place : Place} {g : Groups} {s : Text},
    place.rest.length ≤ limit →
      (Pattern.TakesMany (fun p g t g' => argumentPiece.Takes p g t g') limit place g s g' ↔
        IsArgument s ∧ s <+: place.rest ∧ g' = g)
  | 0, place, g, s, hl => by
      have hrest : place.rest = [] := List.eq_nil_of_length_eq_zero (Nat.le_zero.mp hl)
      rw [hrest, List.prefix_nil]
      constructor
      · rintro ⟨rfl, rfl⟩
        exact ⟨.nil, rfl, rfl⟩
      · exact And.right
  | limit + 1, place, g, s, hl => by
      -- behind a piece less is left
      have hnext {a : Text} (ha : IsPiece a) (hp : a <+: place.rest) :
          (place.advance a).rest.length ≤ limit := by
        have hpos := List.length_pos_iff.mpr ha.ne_nil
        have hle := hp.length_le
        rw [Place.advance, List.length_drop]
        omega
      constructor
      · rintro (⟨rfl, rfl⟩ | ⟨a, t, g₁, ha, -, ht, rfl⟩)
        · exact ⟨.nil, List.nil_prefix, rfl⟩
        · obtain ⟨hpiece, hp, rfl⟩ := argumentPiece_takes_iff.mp ha
          obtain ⟨hrest, hp', rfl⟩ := (takesMany_iff (hnext hpiece hp)).mp ht
          exact ⟨hpiece.isArgument_append hrest, Pattern.prefix_append_of_drop hp hp', rfl⟩
      · rintro ⟨hs, ⟨r, e⟩, rfl⟩
        rcases hs.exists_piece with rfl | ⟨a, t, rfl, ha, ht⟩
        · exact .inl ⟨rfl, rfl⟩
        · rw [List.append_assoc] at e
          have hp : a <+: place.rest := ⟨t ++ r, e⟩
          have hrest := Place.advance_rest e.symm
          refine .inr ⟨a, t, g', argumentPiece_takes_iff.mpr ⟨ha, hp, rfl⟩, ha.ne_nil, ?_, rfl⟩
          exact (takesMany_iff (hnext ha hp)).mpr ⟨ht, ⟨r, hrest.symm⟩, rfl⟩

theorem arguments_takes_iff : (Pattern.many argumentPiece).Takes place g s g' ↔
    IsArgument s ∧ s <+: place.rest ∧ g' = g :=
  takesMany_iff (Nat.le_refl _)

theorem arguments1_takes_iff :
    (Pattern.seq argumentPiece (.many argumentPiece)).Takes place g s g' ↔
      IsArgument s ∧ s ≠ [] ∧ s <+: place.rest ∧ g' = g := by
  constructor
  · intro h
    have hp := h.isPrefix
    obtain ⟨a, t, g₁, ha, ht, rfl⟩ := h
    obtain ⟨hpiece, -, rfl⟩ := argumentPiece_takes_iff.mp ha
    obtain ⟨hrest, -, rfl⟩ := arguments_takes_iff.mp ht
    exact ⟨hpiece.isArgument_append hrest, by simp [hpiece.ne_nil], hp, rfl⟩
  · rintro ⟨hs, hne, ⟨r, e⟩, rfl⟩
    obtain ⟨a, t, rfl, ha, ht⟩ := hs.exists_piece.resolve_left hne
    rw [List.append_assoc] at e
    have hrest := Place.advance_rest e.symm
    exact Pattern.takes_seq (argumentPiece_takes_iff.mpr ⟨ha, ⟨t ++ r, e⟩, rfl⟩)
      (arguments_takes_iff.mpr ⟨ht, ⟨r, hrest.symm⟩, rfl⟩)

/-! ### Calls -/

/-- What an expectation begins with. -/
def callStart : Text := "expect("

/-- An expectation as it is written. -/
def callText (target matcher expected : Text) : Text :=
  callStart ++ (target ++ ')' :: '.' :: (matcher ++ '(' :: (expected ++ [')'])))

/-- A word, or one behind `not.`. -/
def IsMatcherText (w : Text) : Prop :=
  ∃ negation word : Text, (negation = "not." ∨ negation = []) ∧ word ≠ [] ∧
    (∀ c ∈ word, Text.isWordChar c = true) ∧ w = negation ++ word

theorem IsMatcherText.not_mem {w : Text} (h : IsMatcherText w) : '(' ∉ w := by
  obtain ⟨negation, word, hn, -, hword, rfl⟩ := h
  refine fun hm => (List.mem_append.mp hm).elim (fun hm => ?_) fun hm => ?_
  · rcases hn with rfl | rfl
    · exact absurd hm (by decide)
    · exact absurd hm List.not_mem_nil
  · have : Text.isWordChar '(' = false := by decide +kernel
    rw [hword _ hm] at this
    cases this

/-- The parts of a call. -/
structure IsCall (target matcher expected : Text) : Prop where
  isTarget : IsArgument target
  nonempty : target ≠ []
  isMatcher : IsMatcherText matcher
  isExpected : IsArgument expected

theorem callText_append (target matcher expected r : Text) :
    callText target matcher expected ++ r =
      callStart ++ (target ++ ')' :: '.' :: (matcher ++ '(' :: (expected ++ ')' :: r))) := by
  simp [callText]

/-- A call is known by any text that begins with it. -/
theorem IsCall.inj {t w e t' w' e' r r' : Text} (h : IsCall t w e) (h' : IsCall t' w' e')
    (heq : callText t w e ++ r = callText t' w' e' ++ r') : t = t' ∧ w = w' ∧ e = e' := by
  obtain ⟨ht, -, hw, he⟩ := h
  obtain ⟨ht', -, hw', he'⟩ := h'
  rw [callText_append, callText_append, List.append_cancel_left_eq] at heq
  obtain ⟨rfl, hrest⟩ := ht.inj ht' heq
  obtain ⟨rfl, hrest'⟩ := upTo_inj hw.not_mem hw'.not_mem (List.tail_eq_of_cons_eq hrest)
  obtain ⟨rfl, -⟩ := he.inj he' hrest'
  exact ⟨rfl, rfl, rfl⟩

def callHit (offset : Nat) (target matcher expected : Text) : Hit :=
  ⟨offset, callText target matcher expected, [(3, expected), (2, matcher), (1, target)]⟩

/-! ### What the pattern of a call takes -/

theorem optional_lit_takes_iff {u : Text} :
    (Pattern.optional (.lit u)).Takes place g s g' ↔
      (s = u ∧ u <+: place.rest ∨ s = []) ∧ g' = g := by
  constructor
  · rintro (⟨hp, rfl, rfl⟩ | ⟨rfl, rfl⟩)
    · exact ⟨.inl ⟨rfl, hp⟩, rfl⟩
    · exact ⟨.inr rfl, rfl⟩
  · rintro ⟨⟨rfl, hp⟩ | rfl, rfl⟩
    · exact .inl ⟨hp, rfl, rfl⟩
    · exact .inr ⟨rfl, rfl⟩

theorem stretch_text {rest : Text} (h : s <+: rest) : Stretch.text ⟨rest, s.length⟩ = s :=
  (List.prefix_iff_eq_take.mp h).symm

theorem exists_of_expectCall_takes {b : Option Char} {o : Nat} {groups : Groups}
    (h : expectCall.Takes ⟨b, t, o⟩ [] s groups) : ∃ target matcher expected r,
      IsCall target matcher expected ∧ t = callText target matcher expected ++ r ∧
        Pattern.hitOf ⟨b, t, o⟩ s groups = callHit o target matcher expected := by
  obtain ⟨r, rfl⟩ := h.isPrefix
  obtain ⟨s₁, s₂, g₁, ⟨-, rfl, rfl⟩, h, rfl⟩ := h
  obtain ⟨target, s₃, g₂, ⟨g₃, h₁, rfl⟩, h, rfl⟩ := h
  obtain ⟨htarget, hne, p₁, rfl⟩ := arguments1_takes_iff.mp h₁
  obtain ⟨s₄, s₅, g₄, ⟨-, rfl, rfl⟩, h, rfl⟩ := h
  obtain ⟨w, s₆, g₅, ⟨g₆, hmatcher, rfl⟩, h, rfl⟩ := h
  obtain ⟨negation, word, g₇, h₂, ⟨p₂, hword, hl, rfl⟩, rfl⟩ := hmatcher
  obtain ⟨s₇, s₈, g₈, ⟨-, rfl, rfl⟩, h, rfl⟩ := h
  obtain ⟨expected, s₉, g₉, ⟨g₁₀, h₃, rfl⟩, ⟨-, rfl, rfl⟩, rfl⟩ := h
  obtain ⟨hn, rfl⟩ := optional_lit_takes_iff.mp h₂
  obtain ⟨hexpected, p₃, rfl⟩ := arguments_takes_iff.mp h₃
  refine ⟨target, negation ++ word, expected, r, ⟨htarget, hne, ⟨negation, word,
    hn.imp_left And.left, List.ne_nil_of_length_pos hl, hword, rfl⟩, hexpected⟩, rfl, ?_⟩
  simp only [Pattern.hitOf, List.map_cons, List.map_nil, stretch_text p₁, stretch_text p₃,
    stretch_text (Pattern.prefix_append_of_drop h₂.isPrefix p₂)]
  rfl

theorem expectCall_takes {target matcher expected r : Text} (h : IsCall target matcher expected)
    (e : place.rest = callText target matcher expected ++ r) :
    ∃ s groups, expectCall.Takes place [] s groups := by
  obtain ⟨htarget, hne, ⟨negation, word, hn, hw, hword, rfl⟩, hexpected⟩ := h
  rw [callText_append] at e
  -- what is left behind each part
  have e₁ := Place.advance_rest e
  have e₂ := Place.advance_rest e₁
  have e₃ := Place.advance_rest (s := [')', '.']) e₂
  have e₄ := Place.advance_rest (e₃.trans (List.append_assoc _ _ _))
  have e₅ := Place.advance_rest e₃
  have e₆ := Place.advance_rest (s := ['(']) e₅
  have e₇ := Place.advance_rest e₆
  have h₁ : (Pattern.lit "expect(").Takes _ [] callStart [] := ⟨⟨_, e.symm⟩, rfl, rfl⟩
  have h₂ : (Pattern.group 1 (.seq argumentPiece (.many argumentPiece))).Takes _ [] target _ :=
    ⟨[], arguments1_takes_iff.mpr ⟨htarget, hne, ⟨_, e₁.symm⟩, rfl⟩, rfl⟩
  have h₃ (g : Groups) : (Pattern.lit ").").Takes _ g [')', '.'] g := ⟨⟨_, e₂.symm⟩, rfl, rfl⟩
  have hnegation : negation <+: _ := (List.prefix_append _ _).trans ⟨_, e₃.symm⟩
  have h₄ (g : Groups) : (Pattern.optional (.lit "not.")).Takes _ g negation g :=
    optional_lit_takes_iff.mpr ⟨hn.imp_left fun hn => ⟨hn, hn ▸ hnegation⟩, rfl⟩
  have h₅ (g : Groups) : Pattern.word.Takes _ g word g :=
    ⟨⟨_, e₄.symm⟩, hword, List.length_pos_iff.mpr hw, rfl⟩
  have h₆ (g : Groups) : (Pattern.group 2 (.seq (.optional (.lit "not.")) .word)).Takes _ g
      (negation ++ word) _ := ⟨g, Pattern.takes_seq (h₄ g) (h₅ g), rfl⟩
  have h₇ (g : Groups) : (Pattern.lit "(").Takes _ g ['('] g := ⟨⟨_, e₅.symm⟩, rfl, rfl⟩
  have h₈ (g : Groups) : (Pattern.group 3 (.many argumentPiece)).Takes _ g expected _ :=
    ⟨g, arguments_takes_iff.mpr ⟨hexpected, ⟨_, e₆.symm⟩, rfl⟩, rfl⟩
  have h₉ (g : Groups) : (Pattern.lit ")").Takes _ g [')'] g := ⟨⟨_, e₇.symm⟩, rfl, rfl⟩
  exact ⟨_, _, Pattern.takes_seq h₁ (Pattern.takes_seq h₂ (Pattern.takes_seq (h₃ _)
    (Pattern.takes_seq (h₆ _) (Pattern.takes_seq (h₇ _) (Pattern.takes_seq (h₈ _) (h₉ _))))))⟩

/-- The pattern takes a call and nothing else. -/
theorem matchAt_expectCall_iff {b : Option Char} {o : Nat} {hit : Hit} :
    expectCall.matchAt ⟨b, t, o⟩ = some hit ↔ ∃ target matcher expected r,
      IsCall target matcher expected ∧ t = callText target matcher expected ++ r ∧
        hit = callHit o target matcher expected := by
  constructor
  · intro hm
    obtain ⟨s, groups, htakes, rfl⟩ := Pattern.matchAt_sound hm
    exact exists_of_expectCall_takes htakes
  · rintro ⟨target, matcher, expected, r, hc, rfl, rfl⟩
    have hrest : (Place.mk b (callText target matcher expected ++ r) o).rest =
        callText target matcher expected ++ r := rfl
    have htakes := expectCall_takes hc hrest
    obtain ⟨hit, hm⟩ := Option.isSome_iff_exists.mp (Pattern.isSome_matchAt_iff.mpr htakes)
    obtain ⟨s, groups, htakes, rfl⟩ := Pattern.matchAt_sound hm
    obtain ⟨target', matcher', expected', r', hc', e, hh⟩ := exists_of_expectCall_takes htakes
    obtain ⟨rfl, rfl, rfl⟩ := hc.inj hc' e
    rw [hm, hh]

/-! ### The assertion on a line -/

/-- The assertion that a call with a known matcher gives. -/
def ofCall (target expected : Text) (m : Matcher) : Assertion where
  text := m.sentence (Text.trim target) (Text.trim expected)
  target := some (Text.trim target)
  matcher := some m.name
  expected := if (Text.trim expected).isEmpty then none else some (Text.trim expected)

theorem Matcher.isMatcherText_name (m : Matcher) : IsMatcherText m.name := by
  refine ⟨[], m.name, .inr rfl, ?_, Text.forall_mem_of_all ?_, rfl⟩ <;> cases m <;> decide +kernel

theorem Matcher.ofName?_name (m : Matcher) : ofName? m.name = some m := by
  cases m <;> decide

theorem Matcher.name_of_ofName? {w : Text} {m : Matcher} (h : ofName? w = some m) : m.name = w := by
  simpa using List.find?_some h

theorem expectCall_beginsWith : expectCall.BeginsWith callStart := Pattern.beginsWith_seq _ _

theorem find?_expectCall {p target matcher expected s : Text} (hp : ¬ callStart <:+: p)
    (hc : IsCall target matcher expected) :
    expectCall.find? (p ++ (callText target matcher expected ++ s)) =
      some (callHit p.length target matcher expected) := by
  have hm : expectCall.matchAt ⟨p.getLast?, callText target matcher expected ++ s, p.length⟩ =
      some (callHit p.length target matcher expected) :=
    matchAt_expectCall_iff.mpr ⟨_, _, _, s, hc, rfl, rfl⟩
  rw [callText_append] at hm ⊢
  exact Pattern.BeginsWith.find?_eq_some (u := "expect") (x := '(') expectCall_beginsWith
    (by decide) hp hm

theorem onLine?_callText {p t e : Text} {m : Matcher} (s : Text) (hp : ¬ callStart <:+: p)
    (ht : IsArgument t) (hne : t ≠ []) (he : IsArgument e) :
    onLine? (p ++ (callText t m.name e ++ s)) = some (ofCall t e m) := by
  have hcontains : Text.contains (p ++ (callText t m.name e ++ s)) "expect(" = true := by
    rw [callText_append]
    exact Text.contains_iff.mpr ⟨p, _, List.append_assoc _ _ _⟩
  have hfind := find?_expectCall (s := s) hp ⟨ht, hne, m.isMatcherText_name, he⟩
  have hname : Matcher.ofName? ((callHit p.length t m.name e).group 2) = some m := m.ofName?_name
  rw [onLine?, hcontains, hfind]
  simp only [hname]
  rfl

theorem exists_of_onLine? {line : Text} {a : Assertion} (h : onLine? line = some a)
    (hr : a.isRecognized = true) : ∃ p t m e s, IsArgument t ∧ t ≠ [] ∧ IsArgument e ∧
      line = p ++ (callText t (Matcher.name m) e ++ s) ∧ a = ofCall t e m := by
  rw [onLine?] at h
  split at h
  · cases h
  · split at h
    · cases h
      cases hr
    · next hit hfind =>
        split at h
        · cases h
          cases hr
        · next m hm =>
            obtain ⟨p, r, rfl, hmatch⟩ := Pattern.exists_of_find? hfind
            obtain ⟨t, w, e, s, hc, rfl, rfl⟩ := matchAt_expectCall_iff.mp hmatch
            obtain rfl : m.name = w := Matcher.name_of_ofName? hm
            exact ⟨p, t, m, e, s, hc.isTarget, hc.nonempty, hc.isExpected, rfl,
              (Option.some.inj h).symm⟩

/-- A line whose first `expect(` opens a call with a known matcher gives the parts of that call, and
an assertion with a matcher comes from such a call on its line. -/
theorem onLine?_inverts :
    (∀ (p t e s : Text) (m : Matcher), ¬ ("expect(" : Text) <:+: p → IsArgument t → t ≠ [] →
      IsArgument e → ∃ a, onLine? (p ++ (callText t m.name e ++ s)) = some a ∧
        a.isRecognized = true ∧ a = ofCall t e m) ∧
    ∀ (line : Text) (a : Assertion), onLine? line = some a → a.isRecognized = true →
      ∃ p t m e s, IsArgument t ∧ t ≠ [] ∧ IsArgument e ∧
        line = p ++ (callText t (Matcher.name m) e ++ s) ∧ a = ofCall t e m :=
  ⟨fun _ _ _ s _ hp ht hne he => ⟨_, onLine?_callText s hp ht hne he, rfl, rfl⟩,
    fun _ _ => exists_of_onLine?⟩

/-- Parentheses in both arguments, and the opening of another call behind. -/
theorem onLine?_inverts_nested :
    (¬ ("expect(" : Text) <:+: "await " ∧ IsArgument " rows.nth(0) " ∧ IsArgument "sum(a, b)") ∧
    (∃ a, onLine? "await expect( rows.nth(0) ).toBe(sum(a, b)); // expect(" = some a ∧
      a.isRecognized = true ∧ a = ofCall " rows.nth(0) " "sum(a, b)" .toBe) ∧
    ∃ p t m e s, IsArgument t ∧ t ≠ [] ∧ IsArgument e ∧
      ("await expect( rows.nth(0) ).toBe(sum(a, b)); // expect(" : Text) =
        p ++ (callText t (Matcher.name m) e ++ s) ∧
      ofCall " rows.nth(0) " "sum(a, b)" .toBe = ofCall t e m := by
  have hp : ¬ ("expect(" : Text) <:+: "await " := by decide
  have plain (s : Text) (ho : '(' ∉ s) (hc : ')' ∉ s) : IsArgument s := .of_not_mem ho hc
  have ht : IsArgument " rows.nth(0) " :=
    (plain " rows.nth" (by decide) (by decide)).append
      (.group (x := "0") (by decide) (by decide) (plain " " (by decide) (by decide)))
  have he : IsArgument "sum(a, b)" :=
    (plain "sum" (by decide) (by decide)).append
      (.group (x := "a, b") (by decide) (by decide) .nil)
  have hfirst := onLine?_inverts.1 "await " " rows.nth(0) " "sum(a, b)" "; // expect(" .toBe hp ht
    (by decide) he
  refine ⟨⟨hp, ht, he⟩, hfirst, ?_⟩
  obtain ⟨a, hline, hr, rfl⟩ := hfirst
  exact onLine?_inverts.2 _ _ hline hr

end Assertion
end SuiteAudit
