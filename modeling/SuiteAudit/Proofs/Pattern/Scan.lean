import SuiteAudit.Proofs.Pattern.Takes

/-! # Going through a text

`findAll` and `replaceAll` go through a text from left to right with a counter of characters to
pass over.  For a pattern that never takes an empty stretch (`Pattern.Advances`) both are read here
as steps over whole stretches: a character at which the pattern takes nothing is passed over
(`findAllFrom_miss`, `replaceFrom_miss`), a stretch that it takes is a hit (`findAllFrom_hit`,
`replaceFrom_hit`), and every law about the two is an induction over these steps
(`scan_induction`). -/

namespace SuiteAudit

/-- What a hit holds, wherever it stands. -/
def Hit.content (h : Hit) : Text × List (Nat × Text) := (h.text, h.groups)

namespace Pattern

variable {p : Pattern}

/-- A pattern that never takes an empty stretch. -/
def Advances (p : Pattern) : Prop := ∀ place h, p.matchAt place = some h → h.text ≠ []

theorem matchAt_text_prefix_rest {place : Place} {h : Hit} (hm : p.matchAt place = some h) :
    h.text <+: place.rest := by
  obtain ⟨s, groups, ht, rfl⟩ := matchAt_sound hm
  exact ht.isPrefix

theorem matchAt_offset {place : Place} {h : Hit} (hm : p.matchAt place = some h) :
    h.offset = place.offset := by
  obtain ⟨s, groups, -, rfl⟩ := matchAt_sound hm
  rfl

/-! ### Steps -/

theorem findAllFrom_skip (p : Pattern) : ∀ (s r : Text) (b : Option Char) (o : Nat),
    p.findAllFrom s.length b o (s ++ r) = p.findAllFrom 0 (s.getLast?.or b) (o + s.length) r
  | [], r, b, o => by simp
  | c :: s, r, b, o => by
      rw [List.length_cons, List.cons_append, findAllFrom, findAllFrom_skip p s r,
        List.getLast?_cons, Nat.add_right_comm, Nat.add_assoc]
      cases s.getLast? <;> rfl

theorem findAllFrom_miss {b : Option Char} {c : Char} {t : Text} {o : Nat}
    (hm : p.matchAt ⟨b, c :: t, o⟩ = none) :
    p.findAllFrom 0 b o (c :: t) = p.findAllFrom 0 (some c) (o + 1) t := by
  rw [findAllFrom, hm]

theorem findAllFrom_hit {b : Option Char} {h : Hit} {r : Text} {o : Nat} (hne : h.text ≠ [])
    (hm : p.matchAt ⟨b, h.text ++ r, o⟩ = some h) :
    p.findAllFrom 0 b o (h.text ++ r) =
      h :: p.findAllFrom 0 (h.text.getLast?.or b) (o + h.text.length) r := by
  cases e : h.text with
  | nil => exact absurd e hne
  | cons c s =>
      rw [e] at hm
      rw [List.cons_append, findAllFrom]
      simp only [List.cons_append] at hm
      rw [hm]
      simp only [e, List.isEmpty_cons, Bool.false_eq_true, if_false, List.length_cons,
        Nat.add_sub_cancel]
      rw [findAllFrom_skip, List.getLast?_cons, Nat.add_right_comm, Nat.add_assoc]
      cases s.getLast? <;> rfl

variable (by' : Hit → Text)

theorem replaceFrom_skip (p : Pattern) : ∀ (s r : Text) (b : Option Char) (o : Nat),
    p.replaceFrom by' s.length b o (s ++ r) =
      p.replaceFrom by' 0 (s.getLast?.or b) (o + s.length) r
  | [], r, b, o => by simp
  | c :: s, r, b, o => by
      rw [List.length_cons, List.cons_append, replaceFrom, replaceFrom_skip p s r,
        List.getLast?_cons, Nat.add_right_comm, Nat.add_assoc]
      cases s.getLast? <;> rfl

theorem replaceFrom_miss {b : Option Char} {c : Char} {t : Text} {o : Nat}
    (hm : p.matchAt ⟨b, c :: t, o⟩ = none) :
    p.replaceFrom by' 0 b o (c :: t) = c :: p.replaceFrom by' 0 (some c) (o + 1) t := by
  rw [replaceFrom, hm]

theorem replaceFrom_hit {b : Option Char} {h : Hit} {r : Text} {o : Nat} (hne : h.text ≠ [])
    (hm : p.matchAt ⟨b, h.text ++ r, o⟩ = some h) :
    p.replaceFrom by' 0 b o (h.text ++ r) =
      by' h ++ p.replaceFrom by' 0 (h.text.getLast?.or b) (o + h.text.length) r := by
  cases e : h.text with
  | nil => exact absurd e hne
  | cons c s =>
      rw [e] at hm
      rw [List.cons_append, replaceFrom]
      simp only [List.cons_append] at hm
      rw [hm]
      simp only [e, List.isEmpty_cons, Bool.false_eq_true, if_false, List.length_cons,
        Nat.add_sub_cancel]
      rw [replaceFrom_skip, List.getLast?_cons, Nat.add_right_comm, Nat.add_assoc]
      cases s.getLast? <;> rfl

/-- Induction over the steps of a search. -/
theorem scan_induction (hp : p.Advances) {motive : Option Char → Nat → Text → Prop}
    (nil : ∀ b o, motive b o [])
    (miss : ∀ b o c t, p.matchAt ⟨b, c :: t, o⟩ = none → motive (some c) (o + 1) t →
      motive b o (c :: t))
    (hit : ∀ b o h r, h.text ≠ [] → p.matchAt ⟨b, h.text ++ r, o⟩ = some h →
      motive (h.text.getLast?.or b) (o + h.text.length) r → motive b o (h.text ++ r))
    (b : Option Char) (o : Nat) (t : Text) : motive b o t := by
  match t with
  | [] => exact nil b o
  | c :: t =>
      cases hm : p.matchAt ⟨b, c :: t, o⟩ with
      | none => exact miss b o c t hm (scan_induction hp nil miss hit _ _ t)
      | some h =>
          have hne := hp _ _ hm
          obtain ⟨r, hr⟩ := matchAt_text_prefix_rest hm
          have e : h.text ++ r = c :: t := hr
          have hlt : r.length < (c :: t).length := by
            have := List.length_pos_iff.mpr hne
            rw [← e, List.length_append]
            omega
          have hrec := scan_induction hp nil miss hit (h.text.getLast?.or b) (o + h.text.length) r
          rw [← e] at hm ⊢
          exact hit b o h r hne hm hrec
termination_by t.length
decreasing_by
  · exact Nat.lt_succ_self _
  · exact hlt

/-- Nothing changes when all hits stay as they are. -/
theorem replaceFrom_eq_self (hp : p.Advances) (b : Option Char) (o : Nat) (t : Text)
    (h : ∀ hit ∈ p.findAllFrom 0 b o t, by' hit = hit.text) :
    p.replaceFrom by' 0 b o t = t := by
  induction b, o, t using scan_induction hp with
  | nil b o => rfl
  | miss b o c t hm ih =>
      rw [findAllFrom_miss hm] at h
      rw [replaceFrom_miss _ hm, ih h]
  | hit b o g r hne hm ih =>
      rw [findAllFrom_hit hne hm] at h
      rw [replaceFrom_hit _ hne hm, ih fun hit hh => h hit (List.mem_cons_of_mem g hh),
        h g List.mem_cons_self]

theorem replaceAll_eq_self {by' : Hit → Text} {t : Text} (hp : p.Advances)
    (h : ∀ hit ∈ p.findAll t, by' hit = hit.text) : p.replaceAll by' t = t :=
  replaceFrom_eq_self by' hp none 0 t h

/-- A character occurs as often as before when each hit keeps its number. -/
theorem count_replaceFrom (hp : p.Advances) (x : Char) (b : Option Char) (o : Nat) (t : Text)
    (h : ∀ hit ∈ p.findAllFrom 0 b o t, (by' hit).count x = hit.text.count x) :
    (p.replaceFrom by' 0 b o t).count x = t.count x := by
  induction b, o, t using scan_induction hp with
  | nil b o => rfl
  | miss b o c t hm ih =>
      rw [findAllFrom_miss hm] at h
      rw [replaceFrom_miss _ hm, List.count_cons, List.count_cons, ih h]
  | hit b o g r hne hm ih =>
      rw [findAllFrom_hit hne hm] at h
      rw [replaceFrom_hit _ hne hm, List.count_append, List.count_append,
        ih fun hit hh => h hit (List.mem_cons_of_mem g hh), h g List.mem_cons_self]

theorem count_replaceAll {by' : Hit → Text} {t : Text} (hp : p.Advances) (x : Char)
    (h : ∀ hit ∈ p.findAll t, (by' hit).count x = hit.text.count x) :
    (p.replaceAll by' t).count x = t.count x :=
  count_replaceFrom by' hp x none 0 t h

/-! ### Hits -/

/-- A hit is what the pattern takes at the place where it stands. -/
theorem exists_of_mem_findAllFrom (hp : p.Advances) {h : Hit} (b : Option Char) (o : Nat) (t : Text)
    (hh : h ∈ p.findAllFrom 0 b o t) :
    ∃ a r, t = a ++ h.text ++ r ∧ h.offset = o + a.length ∧
      p.matchAt ⟨a.getLast?.or b, h.text ++ r, h.offset⟩ = some h := by
  induction b, o, t using scan_induction hp with
  | nil b o => simp [findAllFrom] at hh
  | miss b o c t hm ih =>
      rw [findAllFrom_miss hm] at hh
      obtain ⟨a, r, rfl, ho, hat⟩ := ih hh
      refine ⟨c :: a, r, rfl, by simp only [List.length_cons]; omega, ?_⟩
      rw [← hat, List.getLast?_cons]
      cases a.getLast? <;> rfl
  | hit b o g r hne hm ih =>
      rw [findAllFrom_hit hne hm] at hh
      rcases List.mem_cons.mp hh with rfl | hh
      · exact ⟨[], r, by simp, by simpa using matchAt_offset hm, by
          rw [matchAt_offset hm]; simpa using hm⟩
      · obtain ⟨a, r', rfl, ho, hat⟩ := ih hh
        refine ⟨g.text ++ a, r', by simp, by simp only [List.length_append]; omega, ?_⟩
        rw [← hat, List.getLast?_append, Option.or_assoc]

theorem exists_of_mem_findAll (hp : p.Advances) {h : Hit} {t : Text} (hh : h ∈ p.findAll t) :
    ∃ a r, t = a ++ h.text ++ r ∧ h.offset = a.length ∧
      p.matchAt ⟨a.getLast?, h.text ++ r, h.offset⟩ = some h := by
  obtain ⟨a, r, e, ho, hm⟩ := exists_of_mem_findAllFrom hp none 0 t hh
  exact ⟨a, r, e, by omega, by simpa using hm⟩

/-- A hit begins behind the hits before it. -/
theorem pairwise_findAllFrom (hp : p.Advances) (b : Option Char) (o : Nat) (t : Text) :
    (p.findAllFrom 0 b o t).Pairwise fun g h => g.offset + g.text.length ≤ h.offset := by
  induction b, o, t using scan_induction hp with
  | nil b o => exact .nil
  | miss b o c t hm ih => rwa [findAllFrom_miss hm]
  | hit b o g r hne hm ih =>
      rw [findAllFrom_hit hne hm]
      refine .cons (fun h hh => ?_) ih
      obtain ⟨a, -, -, ho, -⟩ := exists_of_mem_findAllFrom hp _ _ r hh
      rw [matchAt_offset hm, ho]
      exact Nat.le_add_right ..

theorem pairwise_findAll (hp : p.Advances) (t : Text) :
    (p.findAll t).Pairwise fun g h => g.offset + g.text.length ≤ h.offset :=
  pairwise_findAllFrom hp none 0 t

/-- A pattern that occurs is taken at some place. -/
theorem exists_of_findFrom : ∀ (t : Text) (b : Option Char) (o : Nat) {h : Hit},
    p.findFrom b o t = some h → ∃ a r, t = a ++ r ∧
      p.matchAt ⟨a.getLast?.or b, r, o + a.length⟩ = some h
  | [], b, o, h, hf => ⟨[], [], rfl, hf⟩
  | c :: t, b, o, h, hf => by
      rw [findFrom, Option.or_eq_some_iff] at hf
      rcases hf with hm | ⟨-, hf⟩
      · exact ⟨[], c :: t, rfl, hm⟩
      · obtain ⟨a, r, rfl, hm⟩ := exists_of_findFrom t _ _ hf
        refine ⟨c :: a, r, rfl, ?_⟩
        rw [← hm, List.getLast?_cons, List.length_cons, Nat.add_right_comm, Nat.add_assoc]
        cases a.getLast? <;> rfl

theorem exists_of_find? {t : Text} {h : Hit} (hf : p.find? t = some h) :
    ∃ a r, t = a ++ r ∧ p.matchAt ⟨a.getLast?, r, a.length⟩ = some h := by
  obtain ⟨a, r, e, hm⟩ := exists_of_findFrom t none 0 hf
  exact ⟨a, r, e, by simpa using hm⟩

theorem isSome_findFrom : ∀ {a r : Text} {b : Option Char} {o : Nat},
    (p.matchAt ⟨a.getLast?.or b, r, o + a.length⟩).isSome → (p.findFrom b o (a ++ r)).isSome
  | [], [], _, _, h => h
  | [], c :: r, b, o, h => by
      rw [List.nil_append, findFrom, Option.isSome_or, Bool.or_eq_true]
      exact Or.inl h
  | c :: a, r, b, o, h => by
      rw [List.cons_append, findFrom, Option.isSome_or, Bool.or_eq_true]
      refine Or.inr (isSome_findFrom (a := a) ?_)
      rw [List.getLast?_cons, List.length_cons, Nat.add_comm a.length, ← Nat.add_assoc] at h
      cases hl : a.getLast? <;> rw [hl] at h <;> exact h

/-- A pattern that can take something at a place of a text occurs in it. -/
theorem occursIn_of_takes {a r s : Text} {groups : Groups}
    (ht : p.Takes ⟨a.getLast?, r, a.length⟩ [] s groups) : p.occursIn (a ++ r) = true := by
  refine isSome_findFrom (a := a) ?_
  rw [Option.or_none, Nat.zero_add]
  exact isSome_matchAt_iff.mpr ⟨s, groups, ht⟩

/-- A pattern that occurs in a text takes a stretch of it. -/
theorem exists_takes_of_occursIn {t : Text} (h : p.occursIn t = true) :
    ∃ a s r groups, t = a ++ (s ++ r) ∧ p.Takes ⟨a.getLast?, s ++ r, a.length⟩ [] s groups := by
  obtain ⟨hit, hf⟩ := Option.isSome_iff_exists.mp h
  obtain ⟨a, r, rfl, hm⟩ := exists_of_find? hf
  obtain ⟨s, groups, ht, -⟩ := matchAt_sound hm
  obtain ⟨r, rfl⟩ := ht.isPrefix
  exact ⟨a, s, r, groups, rfl, ht⟩

theorem matchAt_nil (hp : p.Advances) (b : Option Char) (o : Nat) :
    p.matchAt ⟨b, [], o⟩ = none := by
  cases hm : p.matchAt ⟨b, [], o⟩ with
  | none => rfl
  | some h => exact absurd (List.prefix_nil.mp (matchAt_text_prefix_rest hm)) (hp _ _ hm)

theorem findFrom_eq_head? (hp : p.Advances) : ∀ (t : Text) (b : Option Char) (o : Nat),
    p.findFrom b o t = (p.findAllFrom 0 b o t).head?
  | [], b, o => by simp [findFrom, findAllFrom, matchAt_nil hp]
  | c :: t, b, o => by
      cases hm : p.matchAt ⟨b, c :: t, o⟩ with
      | none => rw [findFrom, hm, findAllFrom_miss hm, findFrom_eq_head? hp t]; rfl
      | some h =>
          have hne := hp _ _ hm
          simp [findFrom, findAllFrom, hm, hne]

/-- The first stretch is the first of all. -/
theorem find?_eq_head? (hp : p.Advances) (t : Text) : p.find? t = (p.findAll t).head? :=
  findFrom_eq_head? hp t none 0

end Pattern
end SuiteAudit
