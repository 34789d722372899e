import Mathlib.Tactic.Tauto
import SuiteAudit.Proofs.Number.Order
import SuiteAudit.Proofs.Refactoring.Explained
import SuiteAudit.Proofs.Refactoring.KeptBytes
import SuiteAudit.Proofs.Refactoring.Recorded

/-! # Proposals that are selected and proposals that are applied

Which proposals are applied is decided twice: once when they are selected, by their changes and their
score, and once when they are applied, by their text as well.  Both gates are written out
(`Proposal.isApplicable_iff`, `Proposal.refusal?_eq_none_iff`) for proposals as they are made
(`Proposal.IsMade`), whose score is a number and whose text changes only with changes of two kinds
(`Proposal.IsMade.exists_edit`).  Hence what the two decisions agree on (`Proposal.selected_rewritten`). -/

namespace SuiteAudit

namespace Proposal

variable {thresholds : Thresholds} {p : Proposal} {m : Machine}

/-! ### Two gates -/

theorem isApplicable_iff : p.isApplicable thresholds = true ↔
    p.changes ≠ [] ∧ thresholds.applyMinImprovement < p.score := by
  rw [isApplicable, Bool.and_eq_true, decide_eq_true_eq, Bool.not_eq_true', List.isEmpty_eq_false_iff]

theorem refusal?_eq_none_iff : p.refusal? thresholds = none ↔
    p.changes ≠ [] ∧ p.after ≠ p.before ∧ ¬ p.score ≤ thresholds.applyMinImprovement := by
  unfold refusal?
  split
  · next h =>
      rw [Bool.or_eq_true, List.isEmpty_iff, decide_eq_true_eq] at h
      refine ⟨nofun, fun ⟨hc, ha, _⟩ => ?_⟩
      exact absurd h (not_or.mpr ⟨hc, ha⟩)
  · next h =>
      rw [Bool.or_eq_true, List.isEmpty_iff, decide_eq_true_eq, not_or] at h
      split
      · next hle => exact ⟨nofun, fun hall => absurd hle hall.2.2⟩
      · next hle => exact ⟨fun _ => ⟨h.1, h.2, hle⟩, fun _ => rfl⟩

/-! ### Proposals as they are made -/

/-- What is proposed for some text. -/
def IsMade (p : Proposal) : Prop :=
  ∃ content path context, ofText content path context = .ok p

theorem IsMade.exists_score (h : p.IsMade) : ∃ x : Binary64, p.score = .finite x := by
  obtain ⟨content, path, context, h⟩ := h
  obtain ⟨e, -, rfl⟩ := ofText_eq_ok_iff.mp h
  exact ⟨_, rfl⟩

theorem before_of_ofText {content path : Text} {context : Context}
    (h : ofText content path context = .ok p) : p.before = content := by
  obtain ⟨e, -, rfl⟩ := ofText_eq_ok_iff.mp h
  rfl

/-- Only a named value or a comment changes the text; all other changes are advice. -/
theorem IsMade.exists_edit (h : p.IsMade) (hne : p.after ≠ p.before) :
    ∃ c ∈ p.changes, c.kind = .extractConstant ∨ c.kind = .addComment := by
  obtain ⟨content, path, context, h⟩ := h
  obtain ⟨e, he, hafter, -, hchanges⟩ := parts_of_ofText h
  rw [before_of_ofText h, hafter] at hne
  rw [hchanges]
  by_cases hnone : (e.timeouts.isEmpty && e.data.isEmpty) = true
  · -- without named values a comment must have been added
    rw [Extraction.newText_of_isEmpty content hnone] at hne ⊢
    have hx := Comments.explains_add content
    have hadded : (Comments.add content).2 ≠ [] := by
      intro hnil
      have hfindings : commentFindings content = [] :=
        List.eq_nil_of_length_eq_zero (by rw [← hx.length_eq, hnil, List.length_nil])
      rw [Comments.add_of_commentFindings_eq_nil hfindings] at hne
      exact hne rfl
    obtain ⟨c, hc⟩ := List.exists_mem_of_ne_nil _ hadded
    exact ⟨c, List.mem_append_left _ (List.mem_append_right _ hc), .inr (hx.kind_eq c hc)⟩
  · obtain ⟨waits, texts, hr⟩ := Extraction.recorded_of_ofText he
    have hnamed : e.changes ≠ [] := by
      intro hnil
      rw [hr.changes_eq, List.append_eq_nil_iff, List.map_eq_nil_iff, List.map_eq_nil_iff] at hnil
      rw [hr.timeouts_eq, hr.data_eq, hnil.1, hnil.2] at hnone
      exact hnone rfl
    have hkind : ∀ c ∈ e.changes, c.kind = .extractConstant := by
      rw [hr.changes_eq]
      refine List.forall_mem_append.mpr ⟨?_, ?_⟩ <;>
      · intro c hc
        obtain ⟨_, -, rfl⟩ := List.mem_map.mp hc
        rfl
    obtain ⟨c, hc⟩ := List.exists_mem_of_ne_nil _ hnamed
    refine ⟨c, ?_, .inl (hkind c hc)⟩
    simp only [List.append_assoc]
    exact List.mem_append_left _ hc

/-! ### The result -/

/-- All steps of applying a proposal to a file go well: its path can be resolved, its bytes are a text,
the backup is another file that may be written, and none of the calls is in trouble. -/
structure StepsSucceed (path : Text) (m : Machine) : Prop where
  resolved : ∃ place, m.disk.realLocation m.folder path = .ok place
  readable : ∃ bytes raw, m.Holds path bytes ∧ Utf8.decode bytes = .ok raw
  apart : m.disk.sameEntry m.folder path (backupPath path) = false
  free : ∃ d, m.disk.createFile m.folder (backupPath path) = .ok d
  untroubled : m.Untroubled callsOfApplying

/-- Applying a proposal on a machine writes its text over its file. -/
def IsRewritten (thresholds : Thresholds) (p : Proposal) (m : Machine) : Prop :=
  ∃ outcome, (p.applied thresholds m).1 = .ok outcome ∧ outcome.applied = true

theorem Succeeds.steps (h : p.Succeeds thresholds m) : StepsSucceed p.filePath m :=
  ⟨h.resolved, h.readable, h.apart, h.free, h.untroubled⟩

/-- Where all steps go well only the gates decide. -/
theorem isRewritten_iff (hm : StepsSucceed p.filePath m) : p.IsRewritten thresholds m ↔
    p.changes ≠ [] ∧ p.after ≠ p.before ∧ ¬ p.score ≤ thresholds.applyMinImprovement := by
  rw [← refusal?_eq_none_iff]
  refine applied_iff_succeeds.trans ⟨fun h => h.accepted, fun h => ?_⟩
  exact ⟨h, hm.resolved, hm.readable, hm.apart, hm.free, hm.untroubled⟩

theorem mem_applicable_iff {proposals : List Proposal} (hp : p ∈ proposals) :
    p ∈ applicable proposals thresholds ↔
      p.changes ≠ [] ∧ thresholds.applyMinImprovement < p.score := by
  rw [applicable, List.mem_filter, isApplicable_iff]
  exact and_iff_right hp

/-- Among proposals as they are made those are rewritten whose text changes and that are selected, or
for which the limit of the score is no number.  So what is selected is just what is rewritten unless a
selected proposal leaves its text as it is, as it does when all its changes are advice, or the limit is
no number and a text changes. -/
theorem selected_rewritten {proposals : List Proposal} (hmade : ∀ p ∈ proposals, p.IsMade)
    (thresholds : Thresholds) (hp : p ∈ proposals) (hm : StepsSucceed p.filePath m) :
    (p.IsRewritten thresholds m ↔ p.after ≠ p.before ∧
      (p ∈ applicable proposals thresholds ∨ thresholds.applyMinImprovement = .undefined)) ∧
    ((p ∈ applicable proposals thresholds ↔ p.IsRewritten thresholds m) ↔
      (p ∈ applicable proposals thresholds → p.after ≠ p.before) ∧
      (thresholds.applyMinImprovement = .undefined → p.after = p.before)) ∧
    ((∀ c ∈ p.changes, c.kind ≠ .extractConstant ∧ c.kind ≠ .addComment) → p.after = p.before) := by
  have hadvice : (∀ c ∈ p.changes, c.kind ≠ .extractConstant ∧ c.kind ≠ .addComment) →
      p.after = p.before := by
    intro hall
    by_contra hne
    obtain ⟨c, hc, hkind⟩ := (hmade p hp).exists_edit hne
    exact not_or.mpr (hall c hc) hkind
  obtain ⟨x, hx⟩ := (hmade p hp).exists_score
  have hchanges : p.after ≠ p.before → p.changes ≠ [] := fun hne =>
    have ⟨_, hc, _⟩ := (hmade p hp).exists_edit hne
    List.ne_nil_of_mem hc
  rw [← and_assoc]
  refine ⟨?_, hadvice⟩
  rw [isRewritten_iff hm, mem_applicable_iff hp, hx]
  by_cases hlimit : thresholds.applyMinImprovement = .undefined
  · have hlt : ¬ thresholds.applyMinImprovement < .finite x := hlimit ▸ Extended.undefined_not_lt _
    have hle : ¬ Extended.finite x ≤ thresholds.applyMinImprovement := by
      rw [hlimit]
      exact Bool.eq_false_iff.mp (Extended.atMost_undefined _)
    tauto
  · have hlt := Extended.lt_finite_iff (x := x) hlimit
    tauto

/-! ### Two proposals -/

/-- Any proposal for its file can be applied on a machine with one file. -/
theorem steps_oneLine (h : p.filePath = newLine.filePath) : StepsSucceed p.filePath oneLine :=
  h ▸ oneLine.succeeds.steps

/-- A limit that one named value passes. -/
def lowLimit : Thresholds := { applyMinImprovement := Binary64.ofNat 5 }

/-- A named wait is selected and written. -/
theorem namedWait_selected_rewritten : ∃ p, p.IsMade ∧ p ∈ applicable [p] lowLimit ∧
    p.IsRewritten lowLimit oneLine := by
  have h : (ofText "waitForTimeout(5000);" newLine.filePath {}).toOption.any (fun p =>
      p.filePath = newLine.filePath ∧ p.after ≠ p.before ∧ p.isApplicable lowLimit = true) =
        true := by
    decide +kernel
  obtain ⟨p, hp, h⟩ := Extraction.exists_ok_of_any h
  obtain ⟨hpath, hne, happlicable⟩ := of_decide_eq_true h
  have hmade : ∀ q ∈ [p], q.IsMade := List.forall_mem_singleton.mpr ⟨_, _, _, hp⟩
  have hmem : p ∈ applicable [p] lowLimit :=
    List.mem_filter.mpr ⟨List.mem_singleton_self p, happlicable⟩
  have hboth := selected_rewritten hmade lowLimit (List.mem_singleton_self p) (steps_oneLine hpath)
  exact ⟨p, ⟨_, _, _, hp⟩, hmem, hboth.1.mpr ⟨hne, .inl hmem⟩⟩

/-- Three windows of lines that are there twice each. -/
def repeatedSteps : Text := Text.joinLines
  ["open();", "open();", "save();", "open();", "open();", "save();", "open();", "open();"]

/-- Advice alone passes the limit and is selected, but not written. -/
theorem advice_is_selected : ¬ ∀ (proposals : List Proposal) (thresholds : Thresholds),
    (∀ p ∈ proposals, p.IsMade) → ∀ p ∈ proposals, ∀ m, StepsSucceed p.filePath m →
      (p ∈ applicable proposals thresholds ↔ p.IsRewritten thresholds m) := by
  intro hall
  have h : (ofText repeatedSteps newLine.filePath {}).toOption.any (fun p =>
      p.filePath = newLine.filePath ∧ p.after = p.before ∧ p.isApplicable {} = true) = true := by
    decide +kernel
  obtain ⟨p, hp, h⟩ := Extraction.exists_ok_of_any h
  obtain ⟨hpath, hsame, happlicable⟩ := of_decide_eq_true h
  have hm := steps_oneLine hpath
  have hmade : ∀ q ∈ [p], q.IsMade := List.forall_mem_singleton.mpr ⟨_, _, _, hp⟩
  have hmem : p ∈ applicable [p] {} :=
    List.mem_filter.mpr ⟨List.mem_singleton_self p, happlicable⟩
  have hrewritten := (hall [p] {} hmade p (List.mem_singleton_self p) oneLine hm).mp hmem
  exact ((isRewritten_iff hm).mp hrewritten).2.1 hsame

end Proposal
end SuiteAudit
