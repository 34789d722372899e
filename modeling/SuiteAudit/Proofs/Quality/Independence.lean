import SuiteAudit.Proofs.Quality.Registries
import SuiteAudit.Proofs.Quality.Scores

/-! # Independent standards

What a file is told about one standard does not depend on the others: a report has the violations of
each standard one after the other, and a standard that is faulty on the file, because its check fails or
speaks for another standard, has none (`Registry.violationsOf_eq`).  So leaving out the faulty standards
does not change the report, and the standards of some categories alone give just their part of it
(`Registry.check_isolates_faults`). -/

namespace SuiteAudit

variable {content path : Text}

namespace Standard

variable {s : Standard}

/-- Whether some violations are all of a standard. -/
def owns (s : Standard) (violations : List Violation) : Bool :=
  violations.all (·.standardId = s.id)

/-- The check of a standard fails on a file, or gives a violation of another standard. -/
def isFaulty (s : Standard) (content path : Text) : Bool :=
  match s.check content path with
  | .ok violations => !s.owns violations
  | .error _ => true

/-- What a standard says about a file: all that its check gives, and nothing when it is faulty. -/
def ownViolations (s : Standard) (content path : Text) : List Violation :=
  match s.check content path with
  | .ok violations => if s.owns violations then violations else []
  | .error _ => []

/-- A standard counts on a file as long as it is not faulty. -/
theorem getD_run (s : Standard) (content path : Text) :
    ((s.run content path).toOption).getD [] = s.ownViolations content path := by
  unfold ownViolations run
  cases s.check content path with
  | error fault => rfl
  | ok violations =>
      have hforeign : ((violations.map (·.standardId)).filter (· ≠ s.id)).isEmpty =
          s.owns violations := by
        rw [Bool.eq_iff_iff]
        simp [owns]
      simp only [bind, Except.bind, hforeign]
      split <;> rfl

theorem ownViolations_of_isFaulty (h : s.isFaulty content path = true) :
    s.ownViolations content path = [] := by
  unfold isFaulty at h
  unfold ownViolations
  split at h
  · rw [Bool.not_eq_true'] at h
    simp [h]
  · rfl

theorem standardId_of_mem_ownViolations {v : Violation} (h : v ∈ s.ownViolations content path) :
    v.standardId = s.id := by
  unfold ownViolations at h
  split at h
  · split at h
    · next howns => exact of_decide_eq_true (List.all_eq_true.mp howns v h)
    · cases h
  · cases h

end Standard

namespace Registry

variable {r : Registry}

theorem violationsOf_eq (r : Registry) (content path : Text) :
    r.violationsOf content path = r.standards.flatMap (·.ownViolations content path) :=
  congrArg r.standards.flatMap (funext fun s => s.getD_run content path)

/-- A report depends on the violations alone. -/
theorem check_eq_of_violationsOf {r' : Registry}
    (h : r'.violationsOf content path = r.violationsOf content path) :
    r'.check content path = r.check content path := by
  unfold check
  rw [h]

/-- The violations when only some standards are asked. -/
theorem violationsOf_filter (r : Registry) (p : Standard → Bool) :
    violationsOf ⟨r.standards.filter p⟩ content path =
      r.standards.flatMap fun s => if p s then s.ownViolations content path else [] := by
  rw [violationsOf_eq]
  change (r.standards.filter p).flatMap _ = _
  induction r.standards with
  | nil => rfl
  | cons s rest ih =>
      rw [List.flatMap_cons, List.filter_cons, ← ih]
      split <;> rfl

/-- The standards that are faulty on a file. -/
def faulty (r : Registry) (content path : Text) : List Standard :=
  r.standards.filter (·.isFaulty content path)

/-- Whether a violation is one of a standard in some categories. -/
def isOfCategory (r : Registry) (categories : List Category) (v : Violation) : Bool :=
  r.standards.any fun s => s.id = v.standardId && categories.elem s.category

/-- Without its faulty standards a registry gives the same report. -/
theorem IsDistinct.check_without (h : r.IsDistinct) {ids : List Text}
    (hids : ids.Perm ((r.faulty content path).map (·.id))) :
    ∃ r', ids.foldlM without r = .ok r' ∧ (∀ s ∈ r'.standards, s.isFaulty content path = false) ∧
      r'.check content path = r.check content path := by
  have hkeys : (ids.map normalizeId).Perm ((r.faulty content path).map Standard.key) := by
    have := hids.map normalizeId
    rwa [List.map_map] at this
  have hnodup : (ids.map normalizeId).Nodup := hkeys.nodup_iff.mpr (h.filter _)
  have hmem : ∀ s ∈ r.standards, s.key ∈ ids.map normalizeId ↔ s.isFaulty content path = true := by
    intro s hs
    rw [hkeys.mem_iff, List.mem_map]
    constructor
    · rintro ⟨t, ht, e⟩
      obtain ⟨ht, hfaulty⟩ := List.mem_filter.mp ht
      rwa [h.eq_of_key hs ht e.symm]
    · exact fun hfaulty => ⟨s, List.mem_filter.mpr ⟨hs, hfaulty⟩, rfl⟩
  have hthere : ∀ id ∈ ids, r.has id = true := by
    intro id hid
    obtain ⟨s, hs, rfl⟩ := List.mem_map.mp (hids.subset hid)
    exact has_iff.mpr ⟨s, List.mem_of_mem_filter hs, rfl⟩
  refine ⟨_, foldlM_without h hnodup hthere, fun s hs => ?_, ?_⟩
  · obtain ⟨hs, hout⟩ := List.mem_filter.mp hs
    rw [decide_eq_true_eq, hmem s hs] at hout
    exact Bool.eq_false_iff.mpr hout
  · refine check_eq_of_violationsOf ?_
    rw [violationsOf_filter, violationsOf_eq]
    refine List.flatMap_congr fun s hs => ?_
    split
    · rfl
    · next hout =>
        rw [decide_eq_true_eq, not_not, hmem s hs] at hout
        exact (Standard.ownViolations_of_isFaulty hout).symm

/-- The standards of some categories give their part of the violations. -/
theorem IsDistinct.violationsOf_select (h : r.IsDistinct) (categories : List Category) :
    (r.select categories).violationsOf content path =
      (r.violationsOf content path).filter (r.isOfCategory categories) := by
  have hown : ∀ s ∈ r.standards, (s.ownViolations content path).filter (r.isOfCategory categories) =
      if categories.elem s.category then s.ownViolations content path else [] := by
    intro s hs
    have hcategory : ∀ v ∈ s.ownViolations content path,
        r.isOfCategory categories v = categories.elem s.category := by
      intro v hv
      have hid := Standard.standardId_of_mem_ownViolations hv
      rw [Bool.eq_iff_iff, isOfCategory, List.any_eq_true]
      constructor
      · rintro ⟨t, ht, hboth⟩
        rw [Bool.and_eq_true, decide_eq_true_eq, hid] at hboth
        rw [← h.eq_of_id ht hs hboth.1]
        exact hboth.2
      · exact fun helem => ⟨s, hs, by rw [Bool.and_eq_true, decide_eq_true_eq]; exact ⟨hid.symm, helem⟩⟩
    split
    · next helem => exact List.filter_eq_self.mpr fun v hv => (hcategory v hv).trans helem
    · next helem => exact List.filter_eq_nil_iff.mpr fun v hv => by rwa [hcategory v hv]
  rw [r.violationsOf_eq, List.filter_flatMap, List.flatMap_congr hown]
  exact r.violationsOf_filter fun s => categories.elem s.category

/-- Each standard of a registry is reported on its own: a report is what the standards say one after the
other, where a faulty one says nothing; it is the same without the faulty ones; and some categories have
their part of it.  The score and the grade are those of its violations. -/
theorem check_isolates_faults (r : Registry) (h : r.IsDistinct) (content path : Text) :
    (r.check content path).violations = r.standards.flatMap (·.ownViolations content path) ∧
    (∀ ids : List Text, ids.Perm ((r.faulty content path).map (·.id)) →
      ∃ r', ids.foldlM without r = .ok r' ∧ (∀ s ∈ r'.standards, s.isFaulty content path = false) ∧
        r'.check content path = r.check content path) ∧
    (∀ categories, ((r.select categories).check content path).violations =
      (r.check content path).violations.filter (r.isOfCategory categories)) ∧
    (r.check content path).IsGraded :=
  ⟨r.violationsOf_eq content path, fun _ hids => h.check_without hids,
    fun categories => h.violationsOf_select categories, r.isGraded_check content path⟩

/-- A violation on the first line. -/
def firstLine (id : Text) (severity : Severity) : Violation := ⟨id, 1, "found", severity, none, none⟩

/-- A standard whose check gives the same for every file. -/
def fixed (id : Text) (category : Category) (found : Except CheckFault (List Violation)) : Standard :=
  ⟨id, "a", "b", category, .error, fun _ _ => found⟩

/-- Two standards that count, one that fails between them, and one that speaks for another. -/
def mixed : Registry where
  standards := [fixed "n-1" .naming (.ok [firstLine "n-1" .error, firstLine "n-1" .info]),
    fixed "N-2" .naming (.error (.raised "broken")),
    fixed "p-1" .performance (.ok [firstLine "p-1" .warning]),
    fixed "p-2" .performance (.ok [firstLine "p-2" .error, firstLine "n-1" .error])]

/-- The two faulty standards of that registry have no part in its reports. -/
theorem mixed_isolates_faults : mixed.IsDistinct ∧
    (mixed.check [] []).violations =
      [firstLine "n-1" .error, firstLine "n-1" .info, firstLine "p-1" .warning] ∧
    (∃ r', [("p-2" : Text), "N-2"].foldlM without mixed = .ok r' ∧
      r'.check [] [] = mixed.check [] []) ∧
    ((mixed.select [.performance]).check [] []).violations = [firstLine "p-1" .warning] ∧
    (mixed.check [] []).score = 83 ∧ (mixed.check [] []).grade = .B := by
  have hdistinct : mixed.IsDistinct := by
    unfold IsDistinct
    decide +kernel
  obtain ⟨hall, hwithout, hselect, hgraded⟩ := check_isolates_faults mixed hdistinct [] []
  have hids : [("p-2" : Text), "N-2"].Perm ((mixed.faulty [] []).map (·.id)) := List.Perm.swap _ _ _
  obtain ⟨r', hr', -, hsame⟩ := hwithout _ hids
  refine ⟨hdistinct, hall, ⟨r', hr', hsame⟩, hselect [.performance], hgraded.score, ?_⟩
  exact (hgraded.permuted _ (.refl _)).2.symm.trans (by decide +kernel)

end Registry
end SuiteAudit
