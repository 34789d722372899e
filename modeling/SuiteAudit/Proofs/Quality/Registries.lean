import Mathlib.Data.List.Nodup
import SuiteAudit.Quality.Registry

/-! # The standards of a registry

The ids of a registry differ in the form in which they are compared (`Registry.IsDistinct`): a registry
is only built from standards of which this holds (`Registry.ofList_eq_ok_iff`).  So an id names one of
them, and leaving out some standards by their ids one after the other, in whatever order, leaves just
the others (`Registry.foldlM_without`). -/

namespace SuiteAudit

/-- The form in which the id of a standard is compared. -/
def Standard.key (s : Standard) : Text := normalizeId s.id

namespace Registry

variable {r r' : Registry} {s t : Standard} {standards : List Standard} {ids : List Text}

/-- No two standards have the same id. -/
def IsDistinct (r : Registry) : Prop := (r.standards.map Standard.key).Nodup

theorem IsDistinct.eq_of_key (h : r.IsDistinct) (hs : s ∈ r.standards) (ht : t ∈ r.standards)
    (e : s.key = t.key) : s = t :=
  List.inj_on_of_nodup_map h hs ht e

theorem IsDistinct.eq_of_id (h : r.IsDistinct) (hs : s ∈ r.standards) (ht : t ∈ r.standards)
    (e : s.id = t.id) : s = t :=
  h.eq_of_key hs ht (congrArg normalizeId e)

theorem IsDistinct.filter (h : r.IsDistinct) (p : Standard → Bool) :
    IsDistinct ⟨r.standards.filter p⟩ :=
  h.sublist (List.filter_sublist.map _)

/-- Standards are added exactly when all ids differ. -/
theorem addAll_eq_ok_iff : ∀ {standards : List Standard} {r : Registry}, r.IsDistinct →
    (r.addAll standards = .ok r' ↔ r' = ⟨r.standards ++ standards⟩ ∧ r'.IsDistinct)
  | [], r, h => by
      rw [addAll, Except.ok.injEq, List.append_nil]
      refine ⟨?_, fun ⟨e, _⟩ => e.symm⟩
      rintro rfl
      exact ⟨rfl, h⟩
  | s :: rest, r, h => by
      have hassoc : (r.standards ++ [s]) ++ rest = r.standards ++ s :: rest := by simp
      have hnew : IsDistinct ⟨r.standards ++ [s]⟩ ↔ s.key ∉ r.standards.map Standard.key := by
        unfold IsDistinct
        rw [List.map_append, List.nodup_append]
        refine ⟨fun ⟨_, _, hne⟩ hm => hne _ hm _ (List.mem_singleton_self _) rfl, fun hm => ?_⟩
        refine ⟨h, List.nodup_singleton _, fun a ha b hb => ?_⟩
        rw [List.map_singleton, List.mem_singleton] at hb
        rintro rfl
        exact hm (hb ▸ ha)
      have helem : (r.standards.map fun t => normalizeId t.id).elem (normalizeId s.id) = true ↔
          s.key ∈ r.standards.map Standard.key := List.elem_iff
      rw [addAll]
      split
      · next hm =>
          refine ⟨nofun, fun ⟨e, hd⟩ => ?_⟩
          subst e
          have hpart : IsDistinct ⟨r.standards ++ [s]⟩ := by
            refine hd.sublist (List.Sublist.map _ ?_)
            change (r.standards ++ [s]).Sublist (r.standards ++ s :: rest)
            rw [← hassoc]
            exact List.sublist_append_left _ _
          exact absurd (helem.mp hm) (hnew.mp hpart)
      · next hm =>
          have hadded := hnew.mpr fun hk => hm (helem.mpr hk)
          rw [addAll_eq_ok_iff hadded, hassoc]

/-- A registry is built of standards exactly when their ids differ. -/
theorem ofList_eq_ok_iff : ofList standards = .ok r ↔ r = ⟨standards⟩ ∧ r.IsDistinct := by
  have hempty : empty.IsDistinct := List.nodup_nil
  exact addAll_eq_ok_iff hempty

theorem IsDistinct.ofList_eq (h : r.IsDistinct) : ofList r.standards = .ok r :=
  ofList_eq_ok_iff.mpr ⟨rfl, h⟩

theorem addAll_append (more : List Standard) : ∀ (standards : List Standard) (r : Registry),
    r.addAll (standards ++ more) = (r.addAll standards).bind (·.addAll more)
  | [], _ => rfl
  | s :: rest, r => by
      rw [List.cons_append, addAll, addAll]
      split
      · rfl
      · exact addAll_append more rest _

theorem has_iff {id : Text} : r.has id = true ↔ ∃ s ∈ r.standards, s.key = normalizeId id := by
  simp [has, Standard.key]

theorem has_eq_elem (r : Registry) (s : Standard) :
    (r.standards.map fun t => normalizeId t.id).elem (normalizeId s.id) = r.has s.id := by
  rw [Bool.eq_iff_iff, List.elem_iff, has_iff, List.mem_map]
  rfl

/-- A standard is added at the end, unless its id is there. -/
theorem IsDistinct.withStandard_eq (h : r.IsDistinct) (s : Standard) : r.withStandard s =
    if r.has s.id then .error (.duplicate s.id) else .ok ⟨r.standards ++ [s]⟩ := by
  have hprefix : empty.addAll r.standards = .ok r := h.ofList_eq
  unfold withStandard ofList
  rw [addAll_append, hprefix, ← has_eq_elem]
  rfl

/-- An id gives the standard that is there under it. -/
theorem IsDistinct.get_eq_ok_iff (h : r.IsDistinct) {id : Text} :
    r.get id = .ok s ↔ s ∈ r.standards ∧ s.key = normalizeId id := by
  unfold Registry.get
  split
  · next t ht =>
      have hkey : t.key = normalizeId id := by simpa [Standard.key] using List.find?_some ht
      have hmem := List.mem_of_find?_eq_some ht
      rw [Except.ok.injEq]
      refine ⟨?_, fun ⟨hs, e⟩ => h.eq_of_key hmem hs (hkey.trans e.symm)⟩
      rintro rfl
      exact ⟨hmem, hkey⟩
  · next hnone =>
      refine ⟨nofun, fun ⟨hs, e⟩ => ?_⟩
      have hne := List.find?_eq_none.mp hnone s hs
      exact absurd e (by simpa [Standard.key] using hne)

/-- A standard that is there can be left out. -/
theorem IsDistinct.without_eq (h : r.IsDistinct) {id : Text} (hid : r.has id = true) :
    r.without id = .ok ⟨r.standards.filter fun s => s.key ≠ normalizeId id⟩ := by
  unfold Registry.without
  rw [if_pos hid, ofList_eq_ok_iff]
  exact ⟨rfl, h.filter _⟩

/-- Standards are left out one by one, whatever their order. -/
theorem foldlM_without : ∀ {ids : List Text} {r : Registry}, r.IsDistinct →
    (ids.map normalizeId).Nodup → (∀ id ∈ ids, r.has id = true) →
    ids.foldlM without r = .ok ⟨r.standards.filter fun s => s.key ∉ ids.map normalizeId⟩
  | [], r, _, _, _ => by
      have hall : r.standards.filter (fun s => s.key ∉ ([] : List Text).map normalizeId) =
          r.standards := List.filter_eq_self.mpr fun s _ => by simp
      rw [hall]
      rfl
  | id :: ids, r, h, hn, hids => by
      obtain ⟨hid, hn⟩ := List.nodup_cons.mp hn
      have hrest : ∀ id' ∈ ids,
          has ⟨r.standards.filter fun s => s.key ≠ normalizeId id⟩ id' = true := by
        intro id' hid'
        obtain ⟨s, hs, e⟩ := has_iff.mp (hids id' (List.mem_cons_of_mem id hid'))
        refine has_iff.mpr ⟨s, List.mem_filter.mpr ⟨hs, ?_⟩, e⟩
        rw [decide_eq_true_eq, e]
        intro he
        exact hid (he ▸ List.mem_map_of_mem hid')
      rw [List.foldlM_cons, h.without_eq (hids id List.mem_cons_self)]
      refine (foldlM_without (h.filter _) hn hrest).trans ?_
      rw [List.filter_filter]
      congr 2
      refine List.filter_congr fun s _ => ?_
      rw [List.map_cons, Bool.and_comm]
      simp

end Registry
end SuiteAudit
