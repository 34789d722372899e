import SuiteAudit.Proofs.Pattern.Scan
import SuiteAudit.Proofs.Text.Blanks
import SuiteAudit.Proofs.Text.Infix

/-! # Patterns and fixed texts

A pattern of fixed texts and runs takes a stretch wherever that stands (`Plain.takes`): neither what
is before it nor what follows matters.  So such a pattern occurs in a text exactly when the text
holds a stretch of its form (`Plain.occursIn_iff`), and blanks around the text make no difference
when no such stretch begins or ends with one (`Plain.occursIn_trim`).

Where a pattern begins with a fixed text, it takes nothing in a text without it
(`BeginsWith.find?_eq_none`), and its first hit is at the first place of that text if it takes
something there (`BeginsWith.find?_eq_some`). -/

namespace SuiteAudit
namespace Pattern

/-! ### Patterns that only look at their stretch -/

/-- A pattern of fixed texts, characters and runs. -/
def Plain : Pattern → Prop
  | nothing | exactly _ | one _ | run _ _ _ => True
  | seq first second => first.Plain ∧ second.Plain
  | either _ _ | many _ | group _ _ | sameAs _ | here _ => False

/-- The pattern takes the whole of a text. -/
def Describes (p : Pattern) (s : Text) : Prop := p.Takes (Place.start s) [] s []

namespace Plain

/-- What is taken at one place is taken wherever it stands. -/
theorem takes : ∀ {p : Pattern}, p.Plain → ∀ {place place' : Place} {g g' h : Groups} {s : Text},
    p.Takes place g s g' → s <+: place'.rest → p.Takes place' h s h
  | nothing, _, _, _, _, _, _, _, ht, _ => ⟨ht.1, rfl⟩
  | exactly _, _, _, _, _, _, _, _, ht, hs => by
      obtain ⟨-, rfl, -⟩ := ht
      exact ⟨hs, rfl, rfl⟩
  | one _, _, _, place', _, _, _, _, ht, hs => by
      obtain ⟨c, -, -, hc, rfl, -⟩ := ht
      obtain ⟨r, e⟩ := hs
      exact ⟨c, r, e.symm, hc, rfl, rfl⟩
  | run _ _ _, _, _, _, _, _, _, _, ht, hs => ⟨hs, ht.2.1, ht.2.2.1, rfl⟩
  | seq first second, hp, place, place', g, g', h, s, ht, hs => by
      obtain ⟨s₁, s₂, g₁, h₁, h₂, rfl⟩ := ht
      obtain ⟨r, e⟩ := hs
      rw [List.append_assoc] at e
      refine ⟨s₁, s₂, h, hp.1.takes h₁ ⟨s₂ ++ r, e⟩, hp.2.takes h₂ ?_, rfl⟩
      rw [Place.advance_rest e.symm]
      exact List.prefix_append s₂ r

/-- The pattern occurs exactly where a text of its form stands. -/
theorem occursIn_iff {p : Pattern} (hp : p.Plain) {t : Text} :
    p.occursIn t = true ↔ ∃ s, p.Describes s ∧ s <:+: t := by
  constructor
  · intro h
    obtain ⟨a, s, r, groups, rfl, ht⟩ := exists_takes_of_occursIn h
    exact ⟨s, hp.takes ht (List.prefix_refl s), a, r, List.append_assoc _ _ _⟩
  · rintro ⟨s, hd, a, r, rfl⟩
    rw [List.append_assoc]
    exact occursIn_of_takes (hp.takes (h := []) hd (List.prefix_append s r))

/-- Blanks around a text do not matter to a pattern whose stretches neither begin nor end with
one. -/
theorem occursIn_trim {p : Pattern} (hp : p.Plain) (hs : ∀ s, p.Describes s → Text.IsSolid s)
    (t : Text) : p.occursIn (Text.trim t) = p.occursIn t := by
  rw [Bool.eq_iff_iff, hp.occursIn_iff, hp.occursIn_iff]
  refine exists_congr fun s => and_congr_right fun hd => ?_
  exact Text.infix_trim_iff (hs s hd)

end Plain

/-! ### Patterns that begin with a fixed text -/

/-- A text that ends with its only `x` does not begin in `t` and end in a copy of itself behind. -/
theorem not_prefix_of_not_infix {u s t r : Text} {x : Char} (hx : x ∉ u) (ht : t ≠ [])
    (h : ¬ u ++ [x] <:+: s ++ t) : ¬ u ++ [x] <+: t ++ (u ++ [x] ++ r) := by
  intro hp
  rcases Text.prefix_append hp with hp | ⟨v, hv, e, hv'⟩
  · exact h (hp.isInfix.trans (List.suffix_append s t).isInfix)
  · have hlen := congrArg List.length e
    have hpos := List.length_pos_iff.mpr ht
    simp only [List.length_append, List.length_singleton] at hlen
    -- the end of the first copy would stand in the second one, before its `x`
    have hvu : v <+: u := by
      have hu : u <+: u ++ [x] ++ r := ⟨[x] ++ r, by simp⟩
      exact List.prefix_of_prefix_length_le hv' hu (by omega)
    have hlast : x ∈ v := by
      have hl := congrArg List.getLast? e
      rw [List.getLast?_concat, List.getLast?_append, List.getLast?_eq_some_getLast hv,
        Option.some_or] at hl
      rw [Option.some.inj hl]
      exact List.getLast_mem hv
    exact hx (hvu.subset hlast)

variable {p : Pattern}

theorem find?_eq_none_iff {t : Text} : p.find? t = none ↔
    ∀ a r, t = a ++ r → p.matchAt ⟨a.getLast?, r, a.length⟩ = none := by
  constructor
  · rintro h a r rfl
    have hnone : ¬ (p.find? (a ++ r)).isSome := by simp [h]
    refine Option.not_isSome_iff_eq_none.mp fun hs => hnone ?_
    exact isSome_findFrom (a := a) (b := none) (o := 0) (by simpa using hs)
  · intro h
    cases hf : p.find? t with
    | none => rfl
    | some hit =>
        obtain ⟨a, r, e, hm⟩ := exists_of_find? hf
        rw [h a r e] at hm
        cases hm

theorem findFrom_append {r : Text} {hit : Hit} : ∀ {a : Text} {b : Option Char} {o : Nat},
    (∀ s t, a = s ++ t → t ≠ [] → p.matchAt ⟨s.getLast?.or b, t ++ r, o + s.length⟩ = none) →
    p.matchAt ⟨a.getLast?.or b, r, o + a.length⟩ = some hit → p.findFrom b o (a ++ r) = some hit
  | [], b, o, _, hm => by
      have hm : p.matchAt ⟨b, r, o⟩ = some hit := hm
      cases r with
      | nil => exact hm
      | cons c r => rw [List.nil_append, findFrom, hm, Option.some_or]
  | c :: a, b, o, hnone, hm => by
      have hfirst : p.matchAt ⟨b, c :: a ++ r, o⟩ = none := hnone [] (c :: a) rfl (by simp)
      have hlast (s : Text) : (c :: s).getLast?.or b = s.getLast?.or (some c) := by
        rw [List.getLast?_cons]
        cases s.getLast? <;> rfl
      have hlen (s : Text) : o + (c :: s).length = o + 1 + s.length := by
        rw [List.length_cons]
        omega
      rw [List.cons_append] at hfirst ⊢
      rw [findFrom, hfirst, Option.none_or]
      refine findFrom_append (fun s t e ht => ?_) (by rwa [hlast, hlen] at hm)
      have := hnone (c :: s) t (by rw [e, List.cons_append]) ht
      rwa [hlast, hlen] at this

/-- The first hit is where the pattern takes something for the first time. -/
theorem find?_append {a r : Text} {hit : Hit}
    (hnone : ∀ s t, a = s ++ t → t ≠ [] → p.matchAt ⟨s.getLast?, t ++ r, s.length⟩ = none)
    (hm : p.matchAt ⟨a.getLast?, r, a.length⟩ = some hit) : p.find? (a ++ r) = some hit :=
  findFrom_append (by simpa using hnone) (by simpa using hm)

/-- Whatever the pattern takes begins with `w`. -/
def BeginsWith (p : Pattern) (w : Text) : Prop :=
  ∀ place hit, p.matchAt place = some hit → w <+: place.rest

theorem beginsWith_seq (w : Text) (q : Pattern) : (Pattern.seq (.exactly w) q).BeginsWith w := by
  intro place hit hm
  obtain ⟨s, groups, ⟨_, _, _, ⟨hp, -, -⟩, -, -⟩, -⟩ := matchAt_sound hm
  exact hp

namespace BeginsWith

theorem matchAt_eq_none {w : Text} (hw : p.BeginsWith w) {place : Place}
    (h : ¬ w <+: place.rest) : p.matchAt place = none := by
  cases hm : p.matchAt place with
  | none => rfl
  | some hit => exact absurd (hw place hit hm) h

theorem find?_eq_none {w t : Text} (hw : p.BeginsWith w) (h : ¬ w <:+: t) : p.find? t = none := by
  refine find?_eq_none_iff.mpr fun a r e => hw.matchAt_eq_none fun hp => h ?_
  rw [e]
  exact hp.isInfix.trans (List.suffix_append a r).isInfix

theorem find?_eq_some {u a r : Text} {x : Char} {hit : Hit} (hw : p.BeginsWith (u ++ [x]))
    (hx : x ∉ u) (ha : ¬ u ++ [x] <:+: a)
    (hm : p.matchAt ⟨a.getLast?, u ++ [x] ++ r, a.length⟩ = some hit) :
    p.find? (a ++ (u ++ [x] ++ r)) = some hit := by
  refine find?_append (fun s t e ht => hw.matchAt_eq_none ?_) hm
  rw [e] at ha
  exact not_prefix_of_not_infix hx ht ha

end BeginsWith

end Pattern
end SuiteAudit
