import SuiteAudit.Proofs.Pattern.Takes

/-! # What the groups of a hit hold

A group is opened by the pattern and by nothing else: what it holds was taken by one of the bodies
that the pattern has under its number (`Takes.mem_groups`).  When every way through the pattern opens
a group (`Pattern.opens`), each hit holds it.  Both together tell what a reader of a hit finds under a
number, whatever the text was (`exists_group_of_mem_findAll`). -/

namespace SuiteAudit
namespace Pattern

/-- Whether each way through a pattern opens the group of a number. -/
def opens (number : Nat) : Pattern → Bool
  | group n body => n == number || opens number body
  | seq first second => opens number first || opens number second
  | either first second => opens number first && opens number second
  | nothing | exactly _ | one _ | run _ _ _ | many _ | sameAs _ | here _ => false

/-- The bodies that a pattern has under a number. -/
def bodiesOf (number : Nat) : Pattern → List Pattern
  | group n body => if n = number then body :: bodiesOf number body else bodiesOf number body
  | seq first second | either first second => bodiesOf number first ++ bodiesOf number second
  | many body => bodiesOf number body
  | nothing | exactly _ | one _ | run _ _ _ | sameAs _ | here _ => []

/-- A text that one of the bodies under a number can take. -/
def FitsGroup (p : Pattern) (number : Nat) (v : Text) : Prop :=
  ∃ body ∈ p.bodiesOf number, ∃ place groups groups', body.Takes place groups v groups'

theorem FitsGroup.mono {p q : Pattern} {number : Nat} {v : Text}
    (hsub : p.bodiesOf number ⊆ q.bodiesOf number) (h : p.FitsGroup number v) :
    q.FitsGroup number v := by
  obtain ⟨body, hbody, htakes⟩ := h
  exact ⟨body, hsub hbody, htakes⟩

/-! ### Groups are kept -/

theorem TakesMany.suffix {step : Place → Groups → Text → Groups → Prop}
    (hstep : ∀ place groups s groups', step place groups s groups' → groups <:+ groups') :
    ∀ {limit : Nat} {place : Place} {groups groups' : Groups} {s : Text},
      TakesMany step limit place groups s groups' → groups <:+ groups'
  | 0, _, _, _, _, ⟨_, e⟩ => e ▸ List.suffix_refl _
  | _ + 1, _, _, _, _, .inl ⟨_, e⟩ => e ▸ List.suffix_refl _
  | _ + 1, _, _, _, _, .inr ⟨_, _, _, h₁, _, h₂, _⟩ => (hstep _ _ _ _ h₁).trans (suffix hstep h₂)

/-- What the groups held before they still hold, below what is new. -/
theorem Takes.suffix : ∀ {p : Pattern} {place : Place} {groups groups' : Groups} {s : Text},
    p.Takes place groups s groups' → groups <:+ groups'
  | nothing, _, _, _, _, ⟨_, e⟩ => e ▸ List.suffix_refl _
  | exactly _, _, _, _, _, ⟨_, _, e⟩ => e ▸ List.suffix_refl _
  | one _, _, _, _, _, ⟨_, _, _, _, _, e⟩ => e ▸ List.suffix_refl _
  | run _ _ _, _, _, _, _, ⟨_, _, _, e⟩ => e ▸ List.suffix_refl _
  | seq _ _, _, _, _, _, ⟨_, _, _, h₁, h₂, _⟩ => h₁.suffix.trans h₂.suffix
  | either _ _, _, _, _, _, h => h.elim (fun h => h.suffix) (fun h => h.suffix)
  | many body, _, _, _, _, h => TakesMany.suffix (fun _ _ _ _ h' => Takes.suffix (p := body) h') h
  | group _ _, _, _, _, _, ⟨_, h, e⟩ => e ▸ h.suffix.trans (List.suffix_cons _ _)
  | sameAs _, _, _, _, _, ⟨_, _, _, _, e⟩ => e ▸ List.suffix_refl _
  | here _, _, _, _, _, ⟨_, _, e⟩ => e ▸ List.suffix_refl _

/-- A group that each way opens has an entry. -/
theorem Takes.exists_mem : ∀ {p : Pattern} {number : Nat} {place : Place} {groups groups' : Groups}
    {s : Text}, p.opens number = true → p.Takes place groups s groups' →
      ∃ stretch, (number, stretch) ∈ groups'
  | seq first second, number, _, _, _, _, ho, ⟨_, _, _, h₁, h₂, _⟩ => by
      rcases Bool.or_eq_true_iff.mp ho with ho | ho
      · obtain ⟨stretch, hm⟩ := h₁.exists_mem ho
        exact ⟨stretch, h₂.suffix.subset hm⟩
      · exact h₂.exists_mem ho
  | either first second, number, _, _, _, _, ho, h => by
      obtain ⟨ho₁, ho₂⟩ := Bool.and_eq_true_iff.mp ho
      exact h.elim (fun h => h.exists_mem ho₁) (fun h => h.exists_mem ho₂)
  | group n body, number, place, _, _, s, ho, ⟨_, h, e⟩ => by
      rcases Bool.or_eq_true_iff.mp ho with hn | ho
      · obtain rfl : n = number := by simpa using hn
        exact ⟨_, e ▸ List.mem_cons_self⟩
      · obtain ⟨stretch, hm⟩ := h.exists_mem ho
        exact ⟨stretch, e ▸ List.mem_cons_of_mem _ hm⟩
  | nothing, _, _, _, _, _, ho, _ | exactly _, _, _, _, _, _, ho, _ | one _, _, _, _, _, _, ho, _
  | run _ _ _, _, _, _, _, _, ho, _ | many _, _, _, _, _, _, ho, _ | sameAs _, _, _, _, _, _, ho, _
  | here _, _, _, _, _, _, ho, _ => by cases ho

/-! ### What is new was taken by a body -/

theorem TakesMany.mem_groups (fits : Nat → Text → Prop)
    {step : Place → Groups → Text → Groups → Prop}
    (hstep : ∀ place groups s groups', step place groups s groups' →
      ∀ e ∈ groups', e ∈ groups ∨ fits e.1 e.2.text) :
    ∀ {limit : Nat} {place : Place} {groups groups' : Groups} {s : Text},
      TakesMany step limit place groups s groups' →
      ∀ e ∈ groups', e ∈ groups ∨ fits e.1 e.2.text
  | 0, _, _, _, _, ⟨_, h⟩, e, he => .inl (h ▸ he)
  | _ + 1, _, _, _, _, .inl ⟨_, h⟩, e, he => .inl (h ▸ he)
  | _ + 1, _, _, _, _, .inr ⟨_, _, _, h₁, _, h₂, _⟩, e, he => by
      rcases mem_groups fits hstep h₂ e he with he | hfits
      · exact hstep _ _ _ _ h₁ e he
      · exact .inr hfits

/-- An entry of the groups was there before, or a body under its number took what it holds. -/
theorem Takes.mem_groups : ∀ {p : Pattern} {place : Place} {groups groups' : Groups} {s : Text},
    p.Takes place groups s groups' → ∀ e ∈ groups', e ∈ groups ∨ p.FitsGroup e.1 e.2.text
  | nothing, _, _, _, _, ⟨_, h⟩, e, he => .inl (h ▸ he)
  | exactly _, _, _, _, _, ⟨_, _, h⟩, e, he => .inl (h ▸ he)
  | one _, _, _, _, _, ⟨_, _, _, _, _, h⟩, e, he => .inl (h ▸ he)
  | run _ _ _, _, _, _, _, ⟨_, _, _, h⟩, e, he => .inl (h ▸ he)
  | seq first second, _, _, _, _, ⟨_, _, _, h₁, h₂, _⟩, e, he => by
      rcases h₂.mem_groups e he with he | hfits
      · exact (h₁.mem_groups e he).imp_right (.mono (List.subset_append_left _ _))
      · exact .inr (hfits.mono (List.subset_append_right _ _))
  | either first second, _, _, _, _, h, e, he => by
      rcases h with h | h
      · exact (h.mem_groups e he).imp_right (.mono (List.subset_append_left _ _))
      · exact (h.mem_groups e he).imp_right (.mono (List.subset_append_right _ _))
  | many body, _, _, _, _, h, e, he =>
      TakesMany.mem_groups body.FitsGroup
        (fun _ _ _ _ h' => Takes.mem_groups (p := body) h') h e he
  | group n body, place, groups, _, s, ⟨g, h, e'⟩, e, he => by
      rw [e'] at he
      rcases List.mem_cons.mp he with rfl | he
      · refine .inr ⟨body, by simp [bodiesOf], place, groups, g, ?_⟩
        rwa [Stretch.text, ← List.prefix_iff_eq_take.mp h.isPrefix]
      · refine (h.mem_groups e he).imp_right (.mono ?_)
        rw [bodiesOf]
        split
        · exact List.subset_cons_self _ _
        · exact List.Subset.refl _
  | sameAs _, _, _, _, _, ⟨_, _, _, _, h⟩, e, he => .inl (h ▸ he)
  | here _, _, _, _, _, ⟨_, _, h⟩, e, he => .inl (h ▸ he)

/-! ### Hits -/

theorem group?_hitOf (place : Place) (s : Text) (number : Nat) : ∀ groups : Groups,
    (hitOf place s groups).group? number = (groups.lookup number).map Stretch.text
  | [] => rfl
  | (n, stretch) :: rest => by
      have ih := group?_hitOf place s number rest
      simp only [hitOf, Hit.group?, List.map_cons, List.lookup_cons] at ih ⊢
      cases number == n with
      | true => rfl
      | false => exact ih

theorem mem_of_lookup {number : Nat} {stretch : Stretch} : ∀ {groups : Groups},
    groups.lookup number = some stretch → (number, stretch) ∈ groups
  | [], h => by cases h
  | (n, other) :: rest, h => by
      rw [List.lookup_cons] at h
      split at h
      · next hn =>
        rw [eq_of_beq hn, Option.some.inj h]
        exact List.mem_cons_self
      · exact List.mem_cons_of_mem _ (mem_of_lookup h)

/-- A hit is taken at some place. -/
theorem exists_matchAt_of_mem_findAllFrom {p : Pattern} {hit : Hit} : ∀ (t : Text) (skip : Nat)
    (before : Option Char) (offset : Nat), hit ∈ p.findAllFrom skip before offset t →
      ∃ place, p.matchAt place = some hit
  | [], _, _, _, h => by simp [findAllFrom] at h
  | c :: t, skip + 1, _, offset, h => exists_matchAt_of_mem_findAllFrom t skip (some c) (offset + 1) h
  | c :: t, 0, before, offset, h => by
      rw [findAllFrom] at h
      split at h
      · exact exists_matchAt_of_mem_findAllFrom t 0 (some c) (offset + 1) h
      · next first hm =>
        split at h
        · exact exists_matchAt_of_mem_findAllFrom t 0 (some c) (offset + 1) h
        · rcases List.mem_cons.mp h with rfl | h
          · exact ⟨_, hm⟩
          · exact exists_matchAt_of_mem_findAllFrom t _ (some c) (offset + 1) h

/-- A group that each way opens is there in every hit, and holds what a body under its number
takes. -/
theorem exists_group_of_mem_findAll {p : Pattern} {number : Nat} {t : Text} {hit : Hit}
    (ho : p.opens number = true) (h : hit ∈ p.findAll t) :
    ∃ v, hit.group? number = some v ∧ p.FitsGroup number v := by
  obtain ⟨place, hm⟩ := exists_matchAt_of_mem_findAllFrom t 0 none 0 h
  obtain ⟨s, groups, htakes, rfl⟩ := matchAt_sound hm
  obtain ⟨stretch, hmem⟩ := htakes.exists_mem ho
  have hsome : (groups.lookup number).isSome := by
    rw [List.lookup_isSome_iff]
    exact ⟨_, hmem, by simp⟩
  obtain ⟨found, hfound⟩ := Option.isSome_iff_exists.mp hsome
  refine ⟨found.text, by rw [group?_hitOf, hfound]; rfl, ?_⟩
  exact (htakes.mem_groups _ (mem_of_lookup hfound)).resolve_left List.not_mem_nil

end Pattern
end SuiteAudit
