import SuiteAudit.Text.Pattern

/-! # What a pattern can take

`Pattern.Takes p place groups s groups'` says that `p` can take the stretch `s` at a place when the
numbered groups hold `groups`, and that they hold `groups'` afterwards.  It is read off the pattern
alone and knows nothing of the order in which alternatives are tried.

The search with the rest of the pattern as its last argument agrees with it: what `tryAt` finds has
been taken (`tryAt_sound`), and whenever some stretch lets the rest succeed the search succeeds
(`tryAt_complete`).  So `matchAt` finds a stretch exactly when there is one
(`isSome_matchAt_iff`). -/

namespace SuiteAudit

namespace Place

@[simp] theorem advance_nil (place : Place) : place.advance [] = place := by
  simp [advance]

theorem advance_append (place : Place) (s t : Text) :
    place.advance (s ++ t) = (place.advance s).advance t := by
  simp only [advance, List.getLast?_append, List.length_append, List.drop_drop, Option.or_assoc,
    Nat.add_assoc]

@[simp] theorem advance_offset (place : Place) (s : Text) :
    (place.advance s).offset = place.offset + s.length := rfl

/-- Moving over a character and then over `s`. -/
theorem advance_cons (before : Option Char) (c d : Char) (t s : Text) (offset : Nat) :
    Place.advance ⟨before, c :: t, offset⟩ (d :: s) = Place.advance ⟨some d, t, offset + 1⟩ s :=
  advance_append ⟨before, c :: t, offset⟩ [d] s

theorem advance_rest {place : Place} {s r : Text} (h : place.rest = s ++ r) :
    (place.advance s).rest = r := by
  simp [advance, h]

end Place

namespace Pattern

variable {α : Type}

/-- At most `limit` stretches of a step one after the other, none of them empty. -/
def TakesMany (step : Place → Groups → Text → Groups → Prop) :
    Nat → Place → Groups → Text → Groups → Prop
  | 0, _, groups, s, groups' => s = [] ∧ groups' = groups
  | limit + 1, place, groups, s, groups' =>
    (s = [] ∧ groups' = groups) ∨
      ∃ s₁ s₂ groups₁, step place groups s₁ groups₁ ∧ s₁ ≠ [] ∧
        TakesMany step limit (place.advance s₁) groups₁ s₂ groups' ∧ s = s₁ ++ s₂

/-- The pattern can take the stretch `s` at a place, and the groups are `groups'` afterwards. -/
def Takes : Pattern → Place → Groups → Text → Groups → Prop
  | nothing, _, groups, s, groups' => s = [] ∧ groups' = groups
  | exactly t, place, groups, s, groups' => t <+: place.rest ∧ s = t ∧ groups' = groups
  | one p, place, groups, s, groups' =>
    ∃ c t, place.rest = c :: t ∧ p c = true ∧ s = [c] ∧ groups' = groups
  | run _ least p, place, groups, s, groups' =>
    s <+: place.rest ∧ (∀ c ∈ s, p c = true) ∧ least ≤ s.length ∧ groups' = groups
  | seq first second, place, groups, s, groups' =>
    ∃ s₁ s₂ groups₁, first.Takes place groups s₁ groups₁ ∧
      second.Takes (place.advance s₁) groups₁ s₂ groups' ∧ s = s₁ ++ s₂
  | either first second, place, groups, s, groups' =>
    first.Takes place groups s groups' ∨ second.Takes place groups s groups'
  | many body, place, groups, s, groups' =>
    TakesMany (fun p g t g' => body.Takes p g t g') place.rest.length place groups s groups'
  | group number body, place, groups, s, groups' =>
    ∃ groups₁, body.Takes place groups s groups₁ ∧
      groups' = (number, ⟨place.rest, s.length⟩) :: groups₁
  | sameAs number, place, groups, s, groups' =>
    ∃ stretch, groups.lookup number = some stretch ∧ stretch.text = s ∧ s <+: place.rest ∧
      groups' = groups
  | here test, place, groups, s, groups' =>
    test place.before place.rest = true ∧ s = [] ∧ groups' = groups

theorem takes_seq {first second : Pattern} {place : Place} {g g₁ g' : Groups} {s₁ s₂ : Text}
    (h₁ : first.Takes place g s₁ g₁) (h₂ : second.Takes (place.advance s₁) g₁ s₂ g') :
    (Pattern.seq first second).Takes place g (s₁ ++ s₂) g' :=
  ⟨s₁, s₂, g₁, h₁, h₂, rfl⟩

/-! ### Runs of a class -/

/-- A run of at least `least` characters of a class stands at a place, and the rest gives `x` behind
it. -/
def RunsTo (p : Char → Bool) (rest : Place → Option α) (least : Nat) (place : Place) (x : α) : Prop :=
  ∃ s, s <+: place.rest ∧ (∀ c ∈ s, p c = true) ∧ least ≤ s.length ∧
    rest (place.advance s) = some x

section Runs

variable {p : Char → Bool} {rest : Place → Option α} {least offset : Nat} {before : Option Char}
  {c : Char} {t : Text} {x : α}

/-- The empty run. -/
theorem RunsTo.of_rest {place : Place}
    (h : (if least = 0 then rest place else none) = some x) : RunsTo p rest least place x := by
  split at h
  · next hl => exact ⟨[], List.nil_prefix, by simp, by omega, by simpa using h⟩
  · cases h

/-- A run goes on with one character more. -/
theorem RunsTo.cons (hc : p c = true)
    (h : RunsTo p rest (least - 1) ⟨some c, t, offset + 1⟩ x) :
    RunsTo p rest least ⟨before, c :: t, offset⟩ x := by
  obtain ⟨s, hs, hp, hl, hk⟩ := h
  refine ⟨c :: s, (List.cons_prefix_cons).mpr ⟨rfl, hs⟩, ?_, ?_, ?_⟩
  · intro d hd
    rcases List.mem_cons.mp hd with rfl | hd
    · exact hc
    · exact hp d hd
  · simp only [List.length_cons]
    omega
  · rw [Place.advance_cons]
    exact hk

theorem greedyRun_sound : ∀ (t : Text) (least : Nat) (before : Option Char) (offset : Nat),
    greedyRun p rest least before t offset = some x → RunsTo p rest least ⟨before, t, offset⟩ x
  | [], least, before, offset, h => .of_rest h
  | c :: t, least, before, offset, h => by
      rw [greedyRun, Option.or_eq_some_iff] at h
      rcases h with h | ⟨-, h⟩
      · split at h
        · next hc => exact .cons hc (greedyRun_sound t _ _ _ h)
        · cases h
      · exact .of_rest h

theorem lazyRun_sound : ∀ (t : Text) (least : Nat) (before : Option Char) (offset : Nat),
    lazyRun p rest least before t offset = some x → RunsTo p rest least ⟨before, t, offset⟩ x
  | [], least, before, offset, h => .of_rest h
  | c :: t, least, before, offset, h => by
      rw [lazyRun, Option.or_eq_some_iff] at h
      rcases h with h | ⟨-, h⟩
      · exact .of_rest h
      · split at h
        · next hc => exact .cons hc (lazyRun_sound t _ _ _ h)
        · cases h

end Runs

theorem greedyRun_complete (p : Char → Bool) (rest : Place → Option α) :
    ∀ (t s : Text) (least : Nat) (before : Option Char) (offset : Nat),
      s <+: t → (∀ c ∈ s, p c = true) → least ≤ s.length →
      (rest (Place.advance ⟨before, t, offset⟩ s)).isSome →
      (greedyRun p rest least before t offset).isSome
  | [], s, least, before, offset, hs, _, hl, hk => by
      obtain rfl := List.prefix_nil.mp hs
      have e : least = 0 := by simpa using hl
      simpa [greedyRun, e] using hk
  | c :: t, [], least, before, offset, _, _, hl, hk => by
      have e : least = 0 := by simpa using hl
      unfold greedyRun
      rw [Option.isSome_or, Bool.or_eq_true]
      right
      simpa [e] using hk
  | c :: t, d :: s, least, before, offset, hs, hp, hl, hk => by
      obtain ⟨rfl, hst⟩ := List.cons_prefix_cons.mp hs
      unfold greedyRun
      rw [Option.isSome_or, Bool.or_eq_true]
      left
      rw [if_pos (hp d List.mem_cons_self)]
      rw [Place.advance_cons] at hk
      apply greedyRun_complete p rest t s _ _ _ hst (fun c hc => hp c (List.mem_cons_of_mem d hc)) _ hk
      simp only [List.length_cons] at hl
      omega

/-- The order in which runs are tried does not matter for whether one is found. -/
theorem isSome_lazyRun (p : Char → Bool) (rest : Place → Option α) :
    ∀ (t : Text) (least : Nat) (before : Option Char) (offset : Nat),
      (lazyRun p rest least before t offset).isSome =
        (greedyRun p rest least before t offset).isSome
  | [], _, _, _ => rfl
  | c :: t, least, before, offset => by
      have ih := isSome_lazyRun p rest t (least - 1) (some c) (offset + 1)
      rw [lazyRun, greedyRun, Option.isSome_or, Option.isSome_or, Bool.or_comm]
      cases p c with
      | false => rfl
      | true => rw [if_pos rfl, if_pos rfl, ih]

/-- The shortest run for which the rest succeeds is taken. -/
theorem lazyRun_eq (p : Char → Bool) (rest : Place → Option α) {x : α} : ∀ (s r : Text)
    (before : Option Char) (offset : Nat), (∀ c ∈ s, p c = true) →
      (∀ a c u, s = a ++ c :: u → rest (Place.advance ⟨before, s ++ r, offset⟩ a) = none) →
      rest (Place.advance ⟨before, s ++ r, offset⟩ s) = some x →
      lazyRun p rest 0 before (s ++ r) offset = some x
  | [], [], before, offset, _, _, hx => by simpa [lazyRun] using hx
  | [], c :: r, before, offset, _, _, hx => by
      rw [Place.advance_nil, List.nil_append] at hx
      rw [List.nil_append, lazyRun, if_pos rfl, hx, Option.some_or]
  | c :: s, r, before, offset, hp, hnone, hx => by
      have hn := hnone [] c s rfl
      rw [Place.advance_nil, List.cons_append] at hn
      rw [List.cons_append, lazyRun, if_pos rfl, hn, Option.none_or, if_pos (hp c List.mem_cons_self)]
      refine lazyRun_eq p rest s r _ _ (fun d hd => hp d (List.mem_cons_of_mem c hd)) ?_ ?_
      · intro a d u hs
        have := hnone (c :: a) d u (by rw [hs, List.cons_append])
        rwa [List.cons_append, Place.advance_cons] at this
      · rwa [List.cons_append, Place.advance_cons] at hx

/-! ### Repetitions -/

theorem repeatStep_sound {step : Place → Groups → (Place → Groups → Option α) → Option α}
    {takes : Place → Groups → Text → Groups → Prop}
    (hstep : ∀ place groups rest (x : α), step place groups rest = some x →
      ∃ s groups', takes place groups s groups' ∧ rest (place.advance s) groups' = some x)
    (rest : Place → Groups → Option α) {x : α} :
    ∀ (limit : Nat) (place : Place) (groups : Groups),
      repeatStep step rest limit place groups = some x →
      ∃ s groups', TakesMany takes limit place groups s groups' ∧
        rest (place.advance s) groups' = some x
  | 0, place, groups, h => ⟨[], groups, ⟨rfl, rfl⟩, by simpa [repeatStep] using h⟩
  | limit + 1, place, groups, h => by
      unfold repeatStep at h
      rw [Option.or_eq_some_iff] at h
      rcases h with h | ⟨-, h⟩
      · obtain ⟨s₁, groups₁, ht, hk⟩ := hstep _ _ _ _ h
        split at hk
        · next hlt =>
          obtain ⟨s₂, groups', hm, hr⟩ := repeatStep_sound hstep rest limit _ _ hk
          have hne : s₁ ≠ [] := by
            rintro rfl
            simp at hlt
          exact ⟨s₁ ++ s₂, groups', Or.inr ⟨s₁, s₂, groups₁, ht, hne, hm, rfl⟩, by
            rw [Place.advance_append]; exact hr⟩
        · cases hk
      · exact ⟨[], groups, Or.inl ⟨rfl, rfl⟩, by simpa using h⟩

theorem repeatStep_complete {step : Place → Groups → (Place → Groups → Option α) → Option α}
    {takes : Place → Groups → Text → Groups → Prop}
    (hstep : ∀ place groups rest s groups', takes place groups s groups' →
      (rest (place.advance s) groups').isSome → (step place groups rest).isSome)
    (rest : Place → Groups → Option α) :
    ∀ (limit : Nat) (place : Place) (groups : Groups) (s : Text) (groups' : Groups),
      TakesMany takes limit place groups s groups' → (rest (place.advance s) groups').isSome →
      (repeatStep step rest limit place groups).isSome
  | 0, place, groups, s, groups', ht, hk => by
      obtain ⟨rfl, rfl⟩ := ht
      simpa [repeatStep] using hk
  | limit + 1, place, groups, s, groups', ht, hk => by
      unfold repeatStep
      rw [Option.isSome_or, Bool.or_eq_true]
      rcases ht with ⟨rfl, rfl⟩ | ⟨s₁, s₂, groups₁, ht, hne, hm, rfl⟩
      · right; simpa using hk
      · left
        apply hstep place groups _ s₁ groups₁ ht
        have hlt : place.offset < (place.advance s₁).offset := by
          have := List.length_pos_iff.mpr hne
          rw [Place.advance_offset]
          omega
        rw [if_pos hlt]
        apply repeatStep_complete hstep rest limit _ _ s₂ groups' hm
        rw [← Place.advance_append]
        exact hk

/-! ### Patterns -/

/-- What the search finds has been taken. -/
theorem tryAt_sound : ∀ (p : Pattern) (place : Place) (groups : Groups)
    (rest : Place → Groups → Option α) (x : α), p.tryAt place groups rest = some x →
    ∃ s groups', p.Takes place groups s groups' ∧ rest (place.advance s) groups' = some x
  | nothing, place, groups, rest, x, h => ⟨[], groups, ⟨rfl, rfl⟩, by simpa [tryAt] using h⟩
  | exactly t, place, groups, rest, x, h => by
      unfold tryAt at h
      split at h
      · next ht => exact ⟨t, groups, ⟨List.isPrefixOf_iff_prefix.mp ht, rfl, rfl⟩, h⟩
      · cases h
  | one p, ⟨before, [], offset⟩, groups, rest, x, h => by simp [tryAt] at h
  | one p, ⟨before, c :: t, offset⟩, groups, rest, x, h => by
      unfold tryAt at h
      split at h
      · cases h
      · next d u e =>
        obtain ⟨rfl, rfl⟩ := List.cons.inj e
        split at h
        · next hc => exact ⟨[c], groups, ⟨c, t, rfl, hc, rfl, rfl⟩, h⟩
        · cases h
  | run true least p, place, groups, rest, x, h => by
      obtain ⟨s, hs, hp, hl, hk⟩ := greedyRun_sound _ _ _ _ h
      exact ⟨s, groups, ⟨hs, hp, hl, rfl⟩, hk⟩
  | run false least p, place, groups, rest, x, h => by
      obtain ⟨s, hs, hp, hl, hk⟩ := lazyRun_sound _ _ _ _ h
      exact ⟨s, groups, ⟨hs, hp, hl, rfl⟩, hk⟩
  | seq first second, place, groups, rest, x, h => by
      obtain ⟨s₁, groups₁, h₁, hk⟩ := tryAt_sound first place groups _ x h
      obtain ⟨s₂, groups', h₂, hr⟩ := tryAt_sound second _ groups₁ rest x hk
      exact ⟨s₁ ++ s₂, groups', ⟨s₁, s₂, groups₁, h₁, h₂, rfl⟩, by
        rw [Place.advance_append]; exact hr⟩
  | either first second, place, groups, rest, x, h => by
      unfold tryAt at h
      rw [Option.or_eq_some_iff] at h
      rcases h with h | ⟨-, h⟩
      · obtain ⟨s, groups', ht, hk⟩ := tryAt_sound first place groups rest x h
        exact ⟨s, groups', Or.inl ht, hk⟩
      · obtain ⟨s, groups', ht, hk⟩ := tryAt_sound second place groups rest x h
        exact ⟨s, groups', Or.inr ht, hk⟩
  | many body, place, groups, rest, x, h => by
      unfold tryAt at h
      exact repeatStep_sound (fun pl g k y hy => tryAt_sound body pl g k y hy) rest _ place groups h
  | group number body, place, groups, rest, x, h => by
      obtain ⟨s, groups₁, ht, hk⟩ := tryAt_sound body place groups _ x h
      refine ⟨s, _, ⟨groups₁, ht, rfl⟩, ?_⟩
      rw [Place.advance_offset, Nat.add_sub_cancel_left] at hk
      exact hk
  | sameAs number, place, groups, rest, x, h => by
      unfold tryAt at h
      split at h
      · cases h
      · next stretch e =>
        split at h
        · next ht =>
          exact ⟨stretch.text, groups, ⟨stretch, e, rfl, List.isPrefixOf_iff_prefix.mp ht, rfl⟩, h⟩
        · cases h
  | here test, place, groups, rest, x, h => by
      unfold tryAt at h
      split at h
      · next ht => exact ⟨[], groups, ⟨ht, rfl, rfl⟩, by simpa using h⟩
      · cases h

/-- Whenever some stretch lets the rest succeed, the search succeeds. -/
theorem tryAt_complete : ∀ (p : Pattern) (place : Place) (groups : Groups)
    (rest : Place → Groups → Option α) (s : Text) (groups' : Groups),
    p.Takes place groups s groups' → (rest (place.advance s) groups').isSome →
    (p.tryAt place groups rest).isSome
  | nothing, place, groups, rest, s, groups', ht, hk => by
      obtain ⟨rfl, rfl⟩ := ht
      simpa [tryAt] using hk
  | exactly t, place, groups, rest, s, groups', ht, hk => by
      obtain ⟨hp, rfl, rfl⟩ := ht
      unfold tryAt
      rw [if_pos (List.isPrefixOf_iff_prefix.mpr hp)]
      exact hk
  | one p, ⟨before, _, offset⟩, groups, rest, s, groups', ht, hk => by
      obtain ⟨c, t, rfl, hc, rfl, rfl⟩ := ht
      simp only [tryAt, hc, if_true]
      exact hk
  | run true least p, place, groups, rest, s, groups', ht, hk => by
      obtain ⟨hs, hp, hl, rfl⟩ := ht
      exact greedyRun_complete p _ _ s least _ _ hs hp hl hk
  | run false least p, place, groups, rest, s, groups', ht, hk => by
      obtain ⟨hs, hp, hl, rfl⟩ := ht
      rw [tryAt, isSome_lazyRun]
      exact greedyRun_complete p _ _ s least _ _ hs hp hl hk
  | seq first second, place, groups, rest, s, groups', ht, hk => by
      obtain ⟨s₁, s₂, groups₁, h₁, h₂, rfl⟩ := ht
      rw [Place.advance_append] at hk
      exact tryAt_complete first place groups _ s₁ groups₁ h₁
        (tryAt_complete second _ groups₁ rest s₂ groups' h₂ hk)
  | either first second, place, groups, rest, s, groups', ht, hk => by
      unfold tryAt
      rw [Option.isSome_or, Bool.or_eq_true]
      rcases ht with ht | ht
      · exact Or.inl (tryAt_complete first place groups rest s groups' ht hk)
      · exact Or.inr (tryAt_complete second place groups rest s groups' ht hk)
  | many body, place, groups, rest, s, groups', ht, hk => by
      unfold tryAt
      exact repeatStep_complete (fun pl g k t g' h₁ h₂ => tryAt_complete body pl g k t g' h₁ h₂)
        rest _ place groups s groups' ht hk
  | group number body, place, groups, rest, s, groups', ht, hk => by
      obtain ⟨groups₁, ht, rfl⟩ := ht
      apply tryAt_complete body place groups _ s groups₁ ht
      rw [Place.advance_offset, Nat.add_sub_cancel_left]
      exact hk
  | sameAs number, place, groups, rest, s, groups', ht, hk => by
      obtain ⟨stretch, e, rfl, hp, rfl⟩ := ht
      unfold tryAt
      simp only [e, List.isPrefixOf_iff_prefix.mpr hp, if_true]
      exact hk
  | here test, place, groups, rest, s, groups', ht, hk => by
      obtain ⟨ht, rfl, rfl⟩ := ht
      unfold tryAt
      rw [if_pos ht]
      simpa using hk

/-! ### At a place -/

theorem prefix_append_of_drop {s t r : Text} (hs : s <+: r) (ht : t <+: r.drop s.length) :
    s ++ t <+: r := by
  obtain ⟨u, rfl⟩ := hs
  rw [List.drop_left] at ht
  exact (List.prefix_append_right_inj s).mpr ht

theorem TakesMany.isPrefix {step : Place → Groups → Text → Groups → Prop}
    (hstep : ∀ place groups s groups', step place groups s groups' → s <+: place.rest) :
    ∀ {limit : Nat} {place : Place} {groups groups' : Groups} {s : Text},
      TakesMany step limit place groups s groups' → s <+: place.rest
  | 0, _, _, _, _, h => by
      obtain ⟨rfl, -⟩ := h
      exact List.nil_prefix
  | limit + 1, _, _, _, _, h => by
      rcases h with ⟨rfl, -⟩ | ⟨s₁, s₂, groups₁, h₁, -, h₂, rfl⟩
      · exact List.nil_prefix
      · exact prefix_append_of_drop (hstep _ _ _ _ h₁) (TakesMany.isPrefix hstep h₂)

/-- What is taken stands at the place. -/
theorem Takes.isPrefix : ∀ {p : Pattern} {place : Place} {groups groups' : Groups} {s : Text},
    p.Takes place groups s groups' → s <+: place.rest
  | nothing, _, _, _, _, h => by
      obtain ⟨rfl, -⟩ := h
      exact List.nil_prefix
  | exactly _, _, _, _, _, h => by
      obtain ⟨hp, rfl, -⟩ := h
      exact hp
  | one _, _, _, _, _, h => by
      obtain ⟨c, t, e, -, rfl, -⟩ := h
      rw [e]
      exact ⟨t, rfl⟩
  | run _ _ _, _, _, _, _, h => h.1
  | seq _ _, _, _, _, _, h => by
      obtain ⟨s₁, s₂, groups₁, h₁, h₂, rfl⟩ := h
      exact prefix_append_of_drop h₁.isPrefix h₂.isPrefix
  | either _ _, _, _, _, _, h => h.elim (fun h => h.isPrefix) (fun h => h.isPrefix)
  | many body, _, _, _, _, h => TakesMany.isPrefix (fun _ _ _ _ h' => Takes.isPrefix (p := body) h') h
  | group _ _, _, _, _, _, h => by
      obtain ⟨_, h, -⟩ := h
      exact h.isPrefix
  | sameAs _, _, _, _, _, h => by
      obtain ⟨_, -, -, h, -⟩ := h
      exact h
  | here _, _, _, _, _, h => by
      obtain ⟨-, rfl, -⟩ := h
      exact List.nil_prefix

/-- The stretch that a pattern takes at a place, with what its groups hold. -/
def hitOf (place : Place) (s : Text) (groups : Groups) : Hit :=
  ⟨place.offset, s, groups.map fun g => (g.1, g.2.text)⟩

/-- The first step of a search: what is taken stands in front, and the rest succeeds behind it. -/
theorem exists_of_tryAt {p : Pattern} {place : Place} {groups : Groups}
    {rest : Place → Groups → Option α} {x : α} (h : p.tryAt place groups rest = some x) :
    ∃ s r groups', place.rest = s ++ r ∧ (place.advance s).rest = r ∧
      p.Takes place groups s groups' ∧ rest (place.advance s) groups' = some x := by
  obtain ⟨s, groups', ht, hk⟩ := tryAt_sound p place groups rest x h
  obtain ⟨r, e⟩ := ht.isPrefix
  exact ⟨s, r, groups', e.symm, Place.advance_rest e.symm, ht, hk⟩

/-- The first of two patterns has taken something behind which the second succeeds. -/
theorem exists_of_tryAt_seq {first second : Pattern} {place : Place} {groups : Groups}
    {rest : Place → Groups → Option α} {x : α}
    (h : (seq first second).tryAt place groups rest = some x) :
    ∃ s r groups', place.rest = s ++ r ∧ (place.advance s).rest = r ∧
      first.Takes place groups s groups' ∧
      second.tryAt (place.advance s) groups' rest = some x := by
  rw [tryAt] at h
  exact exists_of_tryAt h

theorem matchAt_sound {p : Pattern} {place : Place} {h : Hit} (hm : p.matchAt place = some h) :
    ∃ s groups, p.Takes place [] s groups ∧ h = hitOf place s groups := by
  obtain ⟨s, groups, ht, hk⟩ := tryAt_sound p place [] _ h hm
  refine ⟨s, groups, ht, ?_⟩
  rw [Place.advance_offset, Nat.add_sub_cancel_left] at hk
  rw [← Option.some.inj hk, List.prefix_iff_eq_take.mp ht.isPrefix]
  simp [hitOf]

theorem isSome_matchAt_iff {p : Pattern} {place : Place} :
    (p.matchAt place).isSome ↔ ∃ s groups, p.Takes place [] s groups := by
  constructor
  · intro h
    obtain ⟨x, hx⟩ := Option.isSome_iff_exists.mp h
    obtain ⟨s, groups, ht, -⟩ := matchAt_sound hx
    exact ⟨s, groups, ht⟩
  · rintro ⟨s, groups, ht⟩
    exact tryAt_complete p place [] _ s groups ht rfl

end Pattern
end SuiteAudit
