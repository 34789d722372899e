import SuiteAudit.Proofs.Pattern.Scan
import SuiteAudit.Source.Literal

/-! # Long quoted texts

The pattern `Literal.longText` takes a quotation mark, at least fifteen characters that are no
quotation mark and no line feed, and the same mark again.  `matchAt_longText_iff` says that it takes
this and nothing else.  A hit therefore lies on one line, and lines can be searched one by one. -/

namespace SuiteAudit
namespace Literal

/-! ### The stretch that is taken -/

def isMark (c : Char) : Bool := Pattern.among "'\"" c

theorem isMark_iff {c : Char} : isMark c = true ↔ c = '\'' ∨ c = '"' := by
  simp [isMark, Pattern.among]

theorem isPlainQuoted_iff {c : Char} :
    isPlainQuoted c = true ↔ isMark c = false ∧ c ≠ '\n' := by
  simp [isPlainQuoted, isMark, Pattern.among, Pattern.notAmong, and_assoc]

/-- A mark and a text that is long enough and plain enough to stand between two such marks. -/
structure IsLong (q : Char) (v : Text) : Prop where
  mark : isMark q = true
  plain : ∀ c ∈ v, isPlainQuoted c = true
  long : minDataLength ≤ v.length

/-- A text between two marks. -/
def quote (q : Char) (v : Text) : Text := q :: (v ++ [q])

/-- The hit for a text between two marks. -/
def quoteHit (offset : Nat) (q : Char) (v : Text) : Hit := ⟨offset, quote q v, [(2, v), (1, [q])]⟩

@[simp] theorem quoteHit_text (o : Nat) (q : Char) (v : Text) :
    (quoteHit o q v).text = quote q v := rfl
@[simp] theorem quoteHit_value (o : Nat) (q : Char) (v : Text) : (quoteHit o q v).group 2 = v := rfl

theorem quote_ne_nil (q : Char) (v : Text) : quote q v ≠ [] := List.cons_ne_nil _ _

@[simp] theorem length_quote (q : Char) (v : Text) : (quote q v).length = v.length + 2 := by
  simp [quote]

theorem IsLong.not_mark_mem {q : Char} {v : Text} (h : IsLong q v) {c : Char} (hc : c ∈ v) :
    isMark c = false := (isPlainQuoted_iff.mp (h.plain c hc)).1

theorem IsLong.mark_not_mem {q : Char} {v : Text} (h : IsLong q v) : q ∉ v := fun hq => by
  have := h.not_mark_mem hq
  rw [h.mark] at this
  cases this

theorem IsLong.newline_not_mem_value {q : Char} {v : Text} (h : IsLong q v) : '\n' ∉ v :=
  fun hn => (isPlainQuoted_iff.mp (h.plain _ hn)).2 rfl

theorem not_mem_quote {q c : Char} {v : Text} (hq : isMark q = true) (hc : isMark c = false)
    (hv : c ∉ v) : c ∉ quote q v := by
  have hne : c ≠ q := by
    rintro rfl
    rw [hq] at hc
    cases hc
  simp only [quote, List.mem_cons, List.mem_append, List.not_mem_nil, or_false, not_or]
  exact ⟨hne, hv, hne⟩

theorem IsLong.newline_not_mem {q : Char} {v : Text} (h : IsLong q v) : '\n' ∉ quote q v :=
  not_mem_quote h.mark (by decide) h.newline_not_mem_value

/-- The text between two marks is cut off at the first of them. -/
theorem quote_inj {q q' : Char} {v v' r r' : Text} (hv : ∀ c ∈ v, isPlainQuoted c = true)
    (hv' : ∀ c ∈ v', isPlainQuoted c = true) (hq : isMark q = true)
    (e : q :: (v ++ q :: r) = q' :: (v' ++ q' :: r')) : q = q' ∧ v = v' ∧ r = r' := by
  obtain ⟨rfl, e⟩ := List.cons.inj e
  have htake : ∀ (w s : Text), (∀ c ∈ w, isPlainQuoted c = true) →
      (w ++ q :: s).takeWhile isPlainQuoted = w := by
    intro w s hw
    have hq' : isPlainQuoted q = false := by
      cases hp : isPlainQuoted q with
      | false => rfl
      | true => rw [(isPlainQuoted_iff.mp hp).1] at hq; cases hq
    rw [List.takeWhile_append_of_pos hw]
    simp [hq']
  have hvv : v = v' := by
    rw [← htake v r hv, e, htake v' r' hv']
  subst hvv
  simpa using e

/-! ### What the pattern takes -/

theorem exists_of_longText_takes {b : Option Char} {t s : Text} {o : Nat} {groups : Groups}
    (h : longText.Takes ⟨b, t, o⟩ [] s groups) :
    ∃ q v r, IsLong q v ∧ t = q :: (v ++ q :: r) ∧
      Pattern.hitOf ⟨b, t, o⟩ s groups = quoteHit o q v := by
  obtain ⟨s₁, s₂, g₁, ⟨g₀, ⟨q, t', e, hq, rfl, rfl⟩, rfl⟩, h₂, rfl⟩ := h
  obtain ⟨v, s₃, g₂, ⟨g₃, ⟨hv, hp, hl, rfl⟩, rfl⟩, h₃, rfl⟩ := h₂
  obtain ⟨stretch, hs, rfl, hpre, rfl⟩ := h₃
  obtain rfl : t = q :: t' := e
  obtain ⟨r, rfl⟩ : v <+: t' := hv
  obtain rfl : (⟨q :: (v ++ r), 1⟩ : Stretch) = stretch := Option.some.inj hs
  obtain ⟨r', e'⟩ := hpre
  obtain rfl : q :: r' = r := by simpa [Place.advance, Stretch.text] using e'
  exact ⟨q, v, r', ⟨hq, hp, hl⟩, rfl, by
    simp [Pattern.hitOf, quoteHit, quote, Stretch.text, Place.advance]⟩

theorem longText_takes {q : Char} {v r : Text} (h : IsLong q v) (b : Option Char) (o : Nat) :
    longText.Takes ⟨b, q :: (v ++ q :: r), o⟩ [] (quote q v)
      [(2, ⟨v ++ q :: r, v.length⟩), (1, ⟨q :: (v ++ q :: r), 1⟩)] := by
  refine ⟨[q], v ++ [q], _, ⟨[], ⟨q, _, rfl, h.mark, rfl, rfl⟩, rfl⟩, ?_, rfl⟩
  refine ⟨v, [q], _, ⟨_, ⟨⟨q :: r, rfl⟩, h.plain, h.long, rfl⟩, rfl⟩, ?_, rfl⟩
  refine ⟨⟨q :: (v ++ q :: r), 1⟩, rfl, rfl, ⟨r, ?_⟩, rfl⟩
  simp [Place.advance]

/-- The pattern takes a long text between two equal marks and nothing else. -/
theorem matchAt_longText_iff {b : Option Char} {t : Text} {o : Nat} {h : Hit} :
    longText.matchAt ⟨b, t, o⟩ = some h ↔
      ∃ q v r, IsLong q v ∧ t = q :: (v ++ q :: r) ∧ h = quoteHit o q v := by
  constructor
  · intro hm
    obtain ⟨s, groups, ht, rfl⟩ := Pattern.matchAt_sound hm
    exact exists_of_longText_takes ht
  · rintro ⟨q, v, r, hv, rfl, rfl⟩
    obtain ⟨h, hm⟩ := Option.isSome_iff_exists.mp
      (Pattern.isSome_matchAt_iff.mpr ⟨_, _, longText_takes (r := r) hv b o⟩)
    obtain ⟨s, groups, ht, rfl⟩ := Pattern.matchAt_sound hm
    obtain ⟨q', v', r', hv', e, hh⟩ := exists_of_longText_takes ht
    obtain ⟨rfl, rfl, -⟩ := quote_inj hv.plain hv'.plain hv.mark e
    rw [hm, hh]

theorem longText_advances : longText.Advances := by
  rintro ⟨b, t, o⟩ h hm
  obtain ⟨q, v, r, -, -, rfl⟩ := matchAt_longText_iff.mp hm
  exact quote_ne_nil q v

/-- A hit is a long text between two equal marks, and stands in the text. -/
theorem exists_of_mem_longText {t : Text} {h : Hit} (hh : h ∈ longText.findAll t) :
    ∃ a q v r, IsLong q v ∧ t = a ++ quote q v ++ r ∧ h = quoteHit a.length q v := by
  obtain ⟨a, r, e, ho, hm⟩ := Pattern.exists_of_mem_findAll longText_advances hh
  obtain ⟨q, v, r', hv, e', hq⟩ := matchAt_longText_iff.mp hm
  refine ⟨a, q, v, r, hv, by rw [e, hq]; rfl, by rw [hq, ho]⟩

end Literal
end SuiteAudit
