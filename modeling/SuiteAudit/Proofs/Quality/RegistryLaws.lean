import SuiteAudit.Proofs.Quality.Registries
import SuiteAudit.Proofs.Table
import SuiteAudit.Quality.Report

/-! # Registries made of one another

Registries are made of the empty and of the default one in any number of steps (`Registry.madeBy`).  A
step says of which registry so far it makes one more, and one that fails makes none.  All that is said of
a registry (`Registry.IsLawful`) rests on its ids being distinct (`Registry.IsDistinct.isLawful`), and
every step keeps them so (`Making.isDistinct_made`). -/

namespace SuiteAudit
namespace Registry

variable {r r' : Registry} {s : Standard}

/-! ### The standards by category -/

/-- The categories stand in the order of their first standard, each with all that a selection of it
alone would have. -/
theorem byCategory_eq (r : Registry) : r.byCategory =
    (r.standards.map (·.category)).eraseDups.map fun c => (c, (r.select [c]).standards) := by
  refine (Table.foldl_modify_append (·.category) (fun s => [s]) r.standards).trans ?_
  refine List.map_congr_left fun c _ => ?_
  simp [select]

theorem mem_select {categories : List Category} :
    s ∈ (r.select categories).standards ↔ s ∈ r.standards ∧ s.category ∈ categories := by
  simp [select]

/-- Each standard is in one of the groups, and there once. -/
theorem IsDistinct.perm_byCategory (h : r.IsDistinct) :
    (r.byCategory.flatMap (·.2)).Perm r.standards := by
  have hnodup : r.standards.Nodup := List.Nodup.of_map _ h
  rw [byCategory_eq, List.flatMap_map]
  refine (List.perm_ext_iff_of_nodup ?_ hnodup).mpr fun s => ?_
  · rw [List.nodup_flatMap]
    refine ⟨fun c _ => hnodup.filter _, (nodup_eraseDups _).imp fun {c d} hne => ?_⟩
    intro s hc hd
    have hc := (mem_select.mp hc).2
    have hd := (mem_select.mp hd).2
    rw [List.mem_singleton] at hc hd
    exact hne (hc.symm.trans hd)
  · rw [List.mem_flatMap]
    constructor
    · rintro ⟨c, _, hs⟩
      exact (mem_select.mp hs).1
    · intro hs
      refine ⟨s.category, List.mem_eraseDups.mpr (List.mem_map.mpr ⟨s, hs, rfl⟩), ?_⟩
      exact mem_select.mpr ⟨hs, List.mem_singleton_self _⟩

/-! ### One registry -/

/-- What a registry says of ids, and what comes of the operations on it. -/
structure IsLawful (r : Registry) : Prop where
  distinct : r.IsDistinct
  /-- Only a text is the id of a standard. -/
  holds_iff : ∀ v, r.holds v = true ↔ ∃ id, v = .str id ∧ r.has id = true
  has_iff_get : ∀ id, r.has id = true ↔ ∃ s, r.get id = .ok s
  get_iff : ∀ id s, r.get id = .ok s ↔ s ∈ r.standards ∧ normalizeId s.id = normalizeId id
  added : ∀ s, r.withStandard s =
    if r.has s.id then .error (.duplicate s.id) else .ok ⟨r.standards ++ [s]⟩
  leftOut : ∀ id, r.without id =
    if r.has id then .ok ⟨r.standards.filter fun s => normalizeId s.id ≠ normalizeId id⟩
    else .error (.unknown id)
  undone : ∀ s r', r.withStandard s = .ok r' → r'.without s.id = .ok r
  selected : ∀ categories, (r.select categories).select categories = r.select categories
  /-- Leaving out a standard of the selected categories. -/
  selected_leftOut : ∀ categories id s, r.get id = .ok s → s.category ∈ categories →
    (r.select categories).without id = (r.without id).map (·.select categories)
  grouped : r.byCategory =
    (r.standards.map (·.category)).eraseDups.map fun c => (c, (r.select [c]).standards)
  grouped_once : (r.byCategory.flatMap (·.2)).Perm r.standards

theorem holds_eq_true_iff {v : Json} :
    r.holds v = true ↔ ∃ id, v = .str id ∧ r.has id = true := by
  cases v <;> simp [holds]

theorem IsDistinct.has_iff_get (h : r.IsDistinct) {id : Text} :
    r.has id = true ↔ ∃ s, r.get id = .ok s := by
  rw [has_iff]
  exact exists_congr fun s => h.get_eq_ok_iff.symm

theorem IsDistinct.without_eq_ite (h : r.IsDistinct) (id : Text) : r.without id =
    if r.has id then .ok ⟨r.standards.filter fun s => s.key ≠ normalizeId id⟩
    else .error (.unknown id) := by
  split
  · next hid => exact h.without_eq hid
  · next hid => rw [Registry.without, if_neg hid]

/-- What was added last is what is left out under its id. -/
theorem IsDistinct.without_withStandard (h : r.IsDistinct) (hr' : r.withStandard s = .ok r') :
    r'.without s.id = .ok r := by
  obtain ⟨rfl, hd⟩ := ofList_eq_ok_iff.mp hr'
  have hfree : ¬r.has s.id = true := by
    intro hthere
    rw [h.withStandard_eq, if_pos hthere] at hr'
    cases hr'
  have hnew : ∀ t ∈ r.standards, t.key ≠ s.key := fun t ht e => hfree (has_iff.mpr ⟨t, ht, e⟩)
  have hthere : has ⟨r.standards ++ [s]⟩ s.id = true :=
    has_iff.mpr ⟨s, List.mem_append_right _ (List.mem_singleton_self s), rfl⟩
  have hkept : r.standards.filter (fun t => t.key ≠ normalizeId s.id) = r.standards :=
    List.filter_eq_self.mpr fun t ht => decide_eq_true (hnew t ht)
  have hgone : [s].filter (fun t => t.key ≠ normalizeId s.id) = [] := by simp [Standard.key]
  rw [hd.without_eq hthere, List.filter_append, hkept, hgone, List.append_nil]

/-- A standard of the selected categories may be left out before or after the selection. -/
theorem IsDistinct.select_without (h : r.IsDistinct) {categories : List Category} {id : Text}
    (hs : r.get id = .ok s) (hc : s.category ∈ categories) :
    (r.select categories).without id = (r.without id).map (·.select categories) := by
  obtain ⟨hmem, hkey⟩ := h.get_eq_ok_iff.mp hs
  have hthere : (r.select categories).has id = true :=
    has_iff.mpr ⟨s, mem_select.mpr ⟨hmem, hc⟩, hkey⟩
  have hselected : (r.select categories).IsDistinct := h.filter _
  rw [hselected.without_eq hthere, h.without_eq (has_iff.mpr ⟨s, hmem, hkey⟩)]
  simp only [select, Except.map, List.filter_filter, Bool.and_comm]

theorem IsDistinct.isLawful (h : r.IsDistinct) : r.IsLawful where
  distinct := h
  holds_iff _ := holds_eq_true_iff
  has_iff_get _ := h.has_iff_get
  get_iff _ _ := h.get_eq_ok_iff
  added := h.withStandard_eq
  leftOut := h.without_eq_ite
  undone _ _ := h.without_withStandard
  selected _ := by simp [select]
  selected_leftOut _ _ _ := h.select_without
  grouped := r.byCategory_eq
  grouped_once := h.perm_byCategory

end Registry

/-! ### Registries made in steps -/

/-- What makes a registry of another one, or anew.  A selection is given by the names of categories. -/
inductive Making where
  | withStandard (s : Standard)
  | without (id : Text)
  | select (names : List Text)
  | ofList (standards : List Standard)

/-- The registry that is made, if it does not fail. -/
def Making.made? (r : Registry) : Making → Option Registry
  | withStandard s => (r.withStandard s).toOption
  | without id => (r.without id).toOption
  | select names => (names.mapM Category.ofName?).map r.select
  | ofList standards => (Registry.ofList standards).toOption

theorem toOption_eq_some_iff {ε α : Type} {x : Except ε α} {a : α} :
    x.toOption = some a ↔ x = .ok a := by
  cases x <;> simp [Except.toOption]

/-- Whatever is made keeps the ids distinct. -/
theorem Making.isDistinct_made {r r' : Registry} (h : r.IsDistinct) :
    ∀ {making : Making}, making.made? r = some r' → r'.IsDistinct
  | withStandard s, hr => (Registry.ofList_eq_ok_iff.mp (toOption_eq_some_iff.mp hr)).2
  | without id, hr => by
      have hr : r.without id = .ok r' := toOption_eq_some_iff.mp hr
      rw [h.without_eq_ite] at hr
      split at hr
      · obtain rfl := Except.ok.inj hr
        exact h.filter _
      · cases hr
  | select names, hr => by
      obtain ⟨categories, -, rfl⟩ := Option.map_eq_some_iff.mp hr
      exact h.filter _
  | ofList standards, hr => (Registry.ofList_eq_ok_iff.mp (toOption_eq_some_iff.mp hr)).2

namespace Registry

/-- The registries so far, with the one that a step makes of one of them behind. -/
def makeOne (registries : List Registry) (step : Nat × Making) : List Registry :=
  registries ++ (registries[step.1]?.bind step.2.made?).toList

/-- The empty and the default registry, and those made of them in some steps. -/
def madeBy (steps : List (Nat × Making)) : List Registry := steps.foldl makeOne [empty, default]

theorem isDistinct_default : default.IsDistinct := by
  unfold IsDistinct
  decide +kernel

theorem isDistinct_makeOne {registries : List Registry} (h : ∀ r ∈ registries, r.IsDistinct)
    (step : Nat × Making) : ∀ r ∈ makeOne registries step, r.IsDistinct := by
  refine List.forall_mem_append.mpr ⟨h, fun r hr => ?_⟩
  obtain ⟨r₀, hr₀, hmade⟩ := Option.bind_eq_some_iff.mp (Option.mem_toList.mp hr)
  exact Making.isDistinct_made (h r₀ (List.mem_of_getElem? hr₀)) hmade

theorem isDistinct_foldl_makeOne : ∀ (steps : List (Nat × Making)) {registries : List Registry},
    (∀ r ∈ registries, r.IsDistinct) → ∀ r ∈ steps.foldl makeOne registries, r.IsDistinct
  | [], _, h => h
  | step :: rest, _, h => isDistinct_foldl_makeOne rest (isDistinct_makeOne h step)

theorem isDistinct_of_mem_madeBy {steps : List (Nat × Making)} {r : Registry}
    (hr : r ∈ madeBy steps) : r.IsDistinct := by
  refine isDistinct_foldl_makeOne steps ?_ r hr
  exact List.forall_mem_cons.mpr ⟨List.nodup_nil, List.forall_mem_singleton.mpr isDistinct_default⟩

theorem prefix_foldl_makeOne : ∀ (steps : List (Nat × Making)) (registries : List Registry),
    registries <+: steps.foldl makeOne registries
  | [], registries => List.prefix_refl registries
  | step :: rest, registries =>
      (List.prefix_append registries _).trans (prefix_foldl_makeOne rest (makeOne registries step))

/-- Whatever steps are taken, every registry that they make keeps the laws of registries, and those
that there were before further steps, failing or not, are still there unchanged. -/
theorem made_is_lawful (steps : List (Nat × Making)) :
    (∀ r ∈ madeBy steps, r.IsLawful) ∧ ∀ more, madeBy steps <+: madeBy (steps ++ more) := by
  refine ⟨fun r hr => (isDistinct_of_mem_madeBy hr).isLawful, fun more => ?_⟩
  unfold madeBy
  rw [List.foldl_append]
  exact prefix_foldl_makeOne more _

/-- A standard that finds nothing. -/
def silent (id : Text) (category : Category) : Standard :=
  ⟨id, "a", "b", category, .info, fun _ _ => .ok []⟩

/-- Two standards; a third under an id that is there, which fails; another one; and the second left out. -/
def someSteps : List (Nat × Making) :=
  [(0, .ofList [silent "n-1" .naming, silent "P-1" .performance]),
   (2, .withStandard (silent " p-1" .naming)),
   (2, .withStandard (silent "d-1" .documentation)),
   (3, .without "p-1 ")]

/-- The registry made last keeps the laws: a standard under the id that was left out may be added. -/
theorem last_made_is_lawful : ∃ r ∈ madeBy someSteps, r.IsLawful ∧ r.ids = ["n-1", "d-1"] ∧
    r.withStandard (silent " p-1" .naming) =
      .ok ⟨r.standards ++ [silent " p-1" .naming]⟩ := by
  have hlast : (madeBy someSteps)[4]? =
      some ⟨[silent "n-1" .naming, silent "d-1" .documentation]⟩ := rfl
  have hmem := List.mem_of_getElem? hlast
  have hlawful := (made_is_lawful someSteps).1 _ hmem
  refine ⟨_, hmem, hlawful, rfl, ?_⟩
  rw [hlawful.added, if_neg (by decide +kernel)]

end Registry
end SuiteAudit
