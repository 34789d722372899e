import SuiteAudit.Proofs.Literal.LongText
import SuiteAudit.Proofs.Text.Lines

/-! # Long quoted texts line by line

What is found in a text is what is found in its lines one after the other (`found_joinLines`), and a
line without marks adds nothing (`found_of_not_mark`). -/

namespace SuiteAudit
namespace Literal

/-- What the pattern finds in a text, wherever it stands. -/
def found (t : Text) : List (Text × List (Nat × Text)) := (longText.findAll t).map Hit.content

theorem matchAt_longText_eq_none {b b' : Option Char} {t : Text} {o o' : Nat}
    (h : longText.matchAt ⟨b, t, o⟩ = none) : longText.matchAt ⟨b', t, o'⟩ = none := by
  cases hm : longText.matchAt ⟨b', t, o'⟩ with
  | none => rfl
  | some hit =>
      obtain ⟨q, v, r, hv, e, -⟩ := matchAt_longText_iff.mp hm
      have : longText.matchAt ⟨b, t, o⟩ = some (quoteHit o q v) :=
        matchAt_longText_iff.mpr ⟨q, v, r, hv, e, rfl⟩
      rw [h] at this
      cases this

/-- Where a text stands and what comes before it does not matter. -/
theorem found_from (b : Option Char) (o : Nat) (t : Text) : ∀ (b' : Option Char) (o' : Nat),
    (longText.findAllFrom 0 b o t).map Hit.content =
      (longText.findAllFrom 0 b' o' t).map Hit.content := by
  induction b, o, t using Pattern.scan_induction longText_advances with
  | nil b o => exact fun _ _ => rfl
  | miss b o c t hm ih =>
      intro b' o'
      rw [Pattern.findAllFrom_miss hm, Pattern.findAllFrom_miss (matchAt_longText_eq_none hm)]
      exact ih _ _
  | hit b o g r hne hm ih =>
      intro b' o'
      obtain ⟨q, v, r', hv, e, rfl⟩ := matchAt_longText_iff.mp hm
      have hm' : longText.matchAt ⟨b', (quoteHit o' q v).text ++ r, o'⟩ =
          some (quoteHit o' q v) := matchAt_longText_iff.mpr ⟨q, v, r', hv, e, rfl⟩
      have e₁ := Pattern.findAllFrom_hit hne hm
      have e₂ := Pattern.findAllFrom_hit (quote_ne_nil q v) hm'
      simp only [quoteHit_text] at e₁ e₂ ih ⊢
      rw [e₁, e₂, List.map_cons, List.map_cons, ih]
      rfl

theorem found_cons_of_none {c : Char} {t : Text}
    (h : longText.matchAt ⟨none, c :: t, 0⟩ = none) : found (c :: t) = found t := by
  unfold found
  rw [Pattern.findAll, Pattern.findAllFrom_miss h]
  exact found_from _ _ t _ _

theorem found_quote {q : Char} {v : Text} (hv : IsLong q v) (r : Text) :
    found (quote q v ++ r) = (quote q v, [(2, v), (1, [q])]) :: found r := by
  have hm : longText.matchAt ⟨none, (quoteHit 0 q v).text ++ r, 0⟩ = some (quoteHit 0 q v) :=
    matchAt_longText_iff.mpr ⟨q, v, r, hv, by simp [quote], rfl⟩
  have := Pattern.findAllFrom_hit (quote_ne_nil q v) hm
  unfold found
  rw [Pattern.findAll, show quote q v ++ r = (quoteHit 0 q v).text ++ r from rfl, this,
    List.map_cons, found_from _ _ r none 0]
  rfl

theorem matchAt_longText_of_not_mark {c : Char} (hc : isMark c = false) (t : Text) :
    longText.matchAt ⟨none, c :: t, 0⟩ = none := by
  cases hm : longText.matchAt ⟨none, c :: t, 0⟩ with
  | none => rfl
  | some hit =>
      obtain ⟨q, v, r, hv, e, -⟩ := matchAt_longText_iff.mp hm
      obtain ⟨rfl, -⟩ := List.cons.inj e
      rw [hv.mark] at hc
      cases hc

/-- What holds no mark adds nothing in front. -/
theorem found_append_of_not_mark : ∀ {s : Text} (t : Text), (∀ c ∈ s, isMark c = false) →
    found (s ++ t) = found t
  | [], _, _ => rfl
  | c :: s, t, h => by
      rw [List.cons_append,
        found_cons_of_none (matchAt_longText_of_not_mark (h c List.mem_cons_self) _),
        found_append_of_not_mark t fun d hd => h d (List.mem_cons_of_mem c hd)]

theorem found_of_not_mark {s : Text} (h : ∀ c ∈ s, isMark c = false) : found s = [] := by
  have := found_append_of_not_mark [] h
  rwa [List.append_nil] at this

/-! ### Lines -/

theorem found_append_newline (b : Option Char) (o : Nat) (a : Text) : ∀ t : Text,
    found (a ++ '\n' :: t) = found a ++ found t := by
  induction b, o, a using Pattern.scan_induction longText_advances with
  | nil b o =>
      intro t
      rw [List.nil_append, found_cons_of_none (matchAt_longText_of_not_mark (by decide) t)]
      rfl
  | miss b o c a hm ih =>
      intro t
      have hm' : longText.matchAt ⟨none, c :: (a ++ '\n' :: t), 0⟩ = none := by
        cases hm' : longText.matchAt ⟨none, c :: (a ++ '\n' :: t), 0⟩ with
        | none => rfl
        | some hit =>
            -- a text between marks would end before the line feed
            obtain ⟨q, v, r, hv, e, -⟩ := matchAt_longText_iff.mp hm'
            have hn : '\n' ∉ quote q v := hv.newline_not_mem
            have e' : (c :: a) ++ '\n' :: t = quote q v ++ r := by rw [quote]; simpa using e
            rcases List.append_eq_append_iff.mp e' with ⟨s, hs, hr⟩ | ⟨s, hs, hr⟩
            · cases s with
              | nil =>
                  rw [List.append_nil] at hs
                  have : longText.matchAt ⟨b, c :: a, o⟩ = some (quoteHit o q v) :=
                    matchAt_longText_iff.mpr ⟨q, v, [], hv, by rw [← hs, quote], rfl⟩
                  rw [hm] at this
                  cases this
              | cons x s =>
                  obtain ⟨rfl, -⟩ := List.cons.inj hr
                  exact absurd (by rw [hs]; simp) hn
            · have : longText.matchAt ⟨b, c :: a, o⟩ = some (quoteHit o q v) :=
                matchAt_longText_iff.mpr ⟨q, v, s, hv, by rw [hs]; simp [quote], rfl⟩
              rw [hm] at this
              cases this
      rw [List.cons_append, found_cons_of_none hm', found_cons_of_none
        (matchAt_longText_eq_none hm), ih t]
  | hit b o g r hne hm ih =>
      intro t
      obtain ⟨q, v, -, hv, -, rfl⟩ := matchAt_longText_iff.mp hm
      rw [quoteHit_text, List.append_assoc, found_quote hv, found_quote hv, ih t, List.cons_append]

/-- What is found in some lines is what is found in each of them. -/
theorem found_joinLines : ∀ (ls : List Text), found (Text.joinLines ls) = ls.flatMap found
  | [] => rfl
  | [a] => by rw [Text.joinLines_singleton, List.flatMap_singleton]
  | a :: b :: ls => by
      rw [Text.joinLines_cons_cons, found_append_newline none 0, found_joinLines (b :: ls),
        List.flatMap_cons, List.flatMap_cons, List.flatMap_cons]

end Literal
end SuiteAudit
