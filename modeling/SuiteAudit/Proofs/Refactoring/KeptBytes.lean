import Mathlib
import SuiteAudit.Proofs.Disk.Work
import SuiteAudit.Proofs.Refactoring.Replacing

/-! # The bytes of a file that a proposal is applied to

Applying a proposal never loses the bytes that its file had: at every moment they are in the file or in
its backup (`Proposal.keeps_bytes`).  A moment is the end of the run on a machine that is cut there.
Only a path that cannot be resolved, such as a link to itself, has no outcome
(`selfLink.has_no_outcome`). -/

namespace SuiteAudit

variable {m : Machine} {n k progress : Nat} {p : Proposal} {bytes : Bytes}

theorem Machine.not_untroubled_cutAt (hk : 0 < k) (h : n < m.calls + k) :
    ¬ (m.cutAt n progress).Untroubled k := by
  intro hu
  have hnone := hu (n - m.calls) (by omega)
  have hle : ¬ m.calls + (n - m.calls) < n := by omega
  simp [cutAt, hle] at hnone

namespace Proposal

/-- The calls before the one that opens the file for writing. -/
def callsBeforeOpening : Nat := 6

/-- All calls of applying a proposal. -/
def callsOfApplying : Nat := 8

/-- All gates let a proposal through and all steps of applying it go well: it is not refused, its path
can be resolved, the bytes of its file are a text, the backup is another file that may be written, and
none of the calls is in trouble. -/
structure Succeeds (thresholds : Thresholds) (p : Proposal) (m : Machine) : Prop where
  accepted : p.refusal? thresholds = none
  resolved : ∃ place, m.disk.realLocation m.folder p.filePath = .ok place
  readable : ∃ bytes raw, m.Holds p.filePath bytes ∧ Utf8.decode bytes = .ok raw
  apart : m.disk.sameEntry m.folder p.filePath (backupPath p.filePath) = false
  free : ∃ d, m.disk.createFile m.folder (backupPath p.filePath) = .ok d
  untroubled : m.Untroubled callsOfApplying

/-- The bytes of a file are in the file or in its backup. -/
def HasBytes (p : Proposal) (m : Machine) (bytes : Bytes) : Prop :=
  m.Holds p.filePath bytes ∨ m.Holds (backupPath p.filePath) bytes

/-- What applying a proposal on a machine keeps to, whatever calls are in trouble. -/
structure KeepsBytes (thresholds : Thresholds) (p : Proposal) (m : Machine) : Prop where
  /-- There is an outcome but for a path that cannot be resolved. -/
  no_outcome_iff : ∀ fault, (p.applied thresholds m).1 = .error fault ↔
    p.refusal? thresholds = none ∧ m.disk.realLocation m.folder p.filePath = .error fault
  /-- At the end the bytes of the file are in it or in its backup. -/
  kept : ∀ bytes, m.Holds p.filePath bytes → p.HasBytes (p.applied thresholds m).2 bytes
  /-- The end is the moment behind the last call. -/
  moment_end : ∀ n progress, (p.applied thresholds m).2.calls ≤ n →
    p.applied thresholds (m.cutAt n progress) =
      ((p.applied thresholds m).1, (p.applied thresholds m).2.cutAt n progress)
  /-- At every moment the bytes are in the file or in its backup. -/
  kept_at : ∀ bytes, m.Holds p.filePath bytes → ∀ n progress,
    p.HasBytes (p.applied thresholds (m.cutAt n progress)).2 bytes
  /-- A run that ends before the opened file is written to leaves its bytes as they were. -/
  unopened : ∀ bytes, m.Holds p.filePath bytes →
    (p.applied thresholds m).2.calls ≤ m.calls + callsBeforeOpening + 1 →
    (p.applied thresholds m).2.Holds p.filePath bytes
  /-- So they are at every moment until the file is opened. -/
  unopened_at : ∀ bytes, m.Holds p.filePath bytes → ∀ n ≤ m.calls + callsBeforeOpening,
    ∀ progress, (p.applied thresholds (m.cutAt n progress)).2.Holds p.filePath bytes
  /-- The proposal is applied exactly when all went well. -/
  applied_iff : (∃ outcome, (p.applied thresholds m).1 = .ok outcome ∧ outcome.applied = true) ↔
    p.Succeeds thresholds m
  /-- Then the backup has the bytes, and the file the new text with the line ending that it had. -/
  replaced : ∀ outcome, (p.applied thresholds m).1 = .ok outcome → outcome.applied = true →
    ∃ bytes raw, m.Holds p.filePath bytes ∧ Utf8.decode bytes = .ok raw ∧
      (p.applied thresholds m).2.Holds (backupPath p.filePath) bytes ∧
      (p.applied thresholds m).2.Holds p.filePath
        (SourceFile.bytesOf (LineEnding.detect raw) p.after)
  /-- An outcome that names a backup names the one that holds the bytes. -/
  reported : ∀ outcome backup, (p.applied thresholds m).1 = .ok outcome →
    outcome.backupPath? = some backup → backup = backupPath p.filePath ∧
      ∀ bytes, m.Holds p.filePath bytes → (p.applied thresholds m).2.Holds backup bytes
  /-- An outcome that names none leaves the file as it was. -/
  unreported : ∀ outcome, (p.applied thresholds m).1 = .ok outcome → outcome.backupPath? = none →
    ∀ bytes, m.Holds p.filePath bytes → (p.applied thresholds m).2.Holds p.filePath bytes

/-! ### What a run comes to -/

/-- What applying a proposal to a file of some bytes comes to. -/
inductive Applies (thresholds : Thresholds) (p : Proposal) (m : Machine) (bytes : Bytes) :
    Except PathFault ApplyOutcome × Machine → Prop
  | refused {refusal : Refusal} (h : p.refusal? thresholds = some refusal) :
      Applies thresholds p m bytes (.ok (p.stopped none refusal.message), m)
  | unresolved {fault : PathFault} (accepted : p.refusal? thresholds = none)
      (h : m.disk.realLocation m.folder p.filePath = .error fault) :
      Applies thresholds p m bytes (.error fault, m)
  | ran {place : Location} {outcome : ApplyOutcome} {m' : Machine}
      (accepted : p.refusal? thresholds = none)
      (h : m.disk.realLocation m.folder p.filePath = .ok place)
      (run : Replaces m p bytes (outcome, m')) : Applies thresholds p m bytes (.ok outcome, m')

theorem applies (thresholds : Thresholds) (h : m.Holds p.filePath bytes) :
    Applies thresholds p m bytes (p.applied thresholds m) := by
  cases hrefusal : p.refusal? thresholds with
  | some refusal =>
      rw [applied_refused hrefusal]
      exact .refused hrefusal
  | none =>
      cases hplace : m.disk.realLocation m.folder p.filePath with
      | error fault =>
          rw [applied_unresolved hrefusal hplace]
          exact .unresolved hrefusal hplace
      | ok place =>
          rw [applied_resolved hrefusal hplace]
          exact .ran hrefusal hplace (run_replaceFile (null_of_resolved hplace) h)

/-- The bytes are in the file or in its backup, and in the file when it was not opened. -/
theorem hasBytes_applied (thresholds : Thresholds) (h : m.Holds p.filePath bytes) :
    p.HasBytes (p.applied thresholds m).2 bytes ∧
    ((p.applied thresholds m).2.calls ≤ m.calls + 7 ∨ ¬ m.Untroubled 7 →
      (p.applied thresholds m).2.Holds p.filePath bytes) := by
  have happlies := applies thresholds h
  generalize p.applied thresholds m = r at happlies ⊢
  have hafter (d : Disk) : ¬ (m.after 8 d).calls ≤ m.calls + 7 := by
    rw [Machine.after_calls]
    omega
  cases happlies with
  | refused | unresolved => exact ⟨.inl h, fun _ => h⟩
  | ran _ _ hrun =>
      cases hrun with
      | unopened _ hkept _ _ => exact ⟨.inl hkept, fun _ => hkept⟩
      | opened _ hu _ hbackup =>
          exact ⟨.inr hbackup, fun hstopped => absurd hstopped (not_or.mpr ⟨hafter _, (· hu)⟩)⟩
      | replaced _ hu _ _ hbackup =>
          have hu : m.Untroubled 7 := hu.mono (by omega)
          exact ⟨.inr hbackup, fun hstopped => absurd hstopped (not_or.mpr ⟨hafter _, (· hu)⟩)⟩

theorem applied_error_iff {thresholds : Thresholds} {fault : PathFault} :
    (p.applied thresholds m).1 = .error fault ↔
      p.refusal? thresholds = none ∧ m.disk.realLocation m.folder p.filePath = .error fault := by
  cases hrefusal : p.refusal? thresholds with
  | some refusal =>
      rw [applied_refused hrefusal]
      exact ⟨nofun, nofun⟩
  | none =>
      cases hplace : m.disk.realLocation m.folder p.filePath with
      | error fault' =>
          rw [applied_unresolved hrefusal hplace]
          exact ⟨fun h => ⟨rfl, congrArg Except.error (Except.error.inj h)⟩,
            fun h => congrArg Except.error (Except.error.inj h.2)⟩
      | ok place =>
          rw [applied_resolved hrefusal hplace]
          exact ⟨nofun, nofun⟩

theorem Succeeds.canBackUp {thresholds : Thresholds} (h : p.Succeeds thresholds m) :
    CanBackUp m p.filePath :=
  ⟨h.readable, h.apart, h.free, h.untroubled.mono (by decide)⟩

theorem applied_iff_succeeds {thresholds : Thresholds} :
    (∃ outcome, (p.applied thresholds m).1 = .ok outcome ∧ outcome.applied = true) ↔
      p.Succeeds thresholds m := by
  constructor
  · rintro ⟨outcome, h, hdone⟩
    obtain ⟨place, bytes, haccepted, hplace, -, hrun⟩ := exists_replaces h (.inl hdone)
    generalize (p.applied thresholds m).2 = m' at hrun
    cases hrun with
    | unopened | opened => cases hdone
    | replaced hcan hu =>
        exact ⟨haccepted, ⟨place, hplace⟩, hcan.readable, hcan.apart, hcan.free, hu⟩
  · intro h
    obtain ⟨bytes, raw, hbytes, -⟩ := h.readable
    obtain ⟨place, hplace⟩ := h.resolved
    have happlies := applies thresholds hbytes
    generalize p.applied thresholds m = r at happlies ⊢
    cases happlies with
    | refused hrefused => rw [h.accepted] at hrefused; cases hrefused
    | unresolved _ hfault => rw [hplace] at hfault; cases hfault
    | ran _ _ hrun =>
        cases hrun with
        | unopened _ _ _ hcannot =>
            exact absurd ⟨h.canBackUp, h.untroubled.mono (by decide)⟩ hcannot
        | opened _ _ htrouble => exact absurd h.untroubled htrouble
        | replaced => exact ⟨_, rfl, rfl⟩

/-! ### The result -/

/-- Applying a proposal keeps the bytes of its file on every machine. -/
theorem keeps_bytes (thresholds : Thresholds) (p : Proposal) (m : Machine) :
    p.KeepsBytes thresholds m where
  no_outcome_iff fault := applied_error_iff
  kept bytes h := (hasBytes_applied thresholds h).1
  moment_end n progress := (heedsCalls.apply thresholds p m).2 n progress
  kept_at bytes h n progress := (hasBytes_applied (m := m.cutAt n progress) thresholds h).1
  unopened bytes h hcalls := (hasBytes_applied thresholds h).2 (.inl hcalls)
  unopened_at bytes h n hn progress := by
    refine (hasBytes_applied (m := m.cutAt n progress) thresholds h).2 (.inr ?_)
    exact Machine.not_untroubled_cutAt (by omega) (Nat.lt_succ_of_le hn)
  applied_iff := applied_iff_succeeds
  replaced outcome h hdone := by
    obtain ⟨place, bytes, -, -, hbytes, hrun⟩ := exists_replaces h (.inl hdone)
    generalize (p.applied thresholds m).2 = m' at hrun ⊢
    cases hrun with
    | unopened | opened => cases hdone
    | replaced _ _ htext hnew hbackup => exact ⟨bytes, _, hbytes, htext, hbackup, hnew⟩
  reported outcome backup h hbackup := by
    obtain ⟨place, bytes, -, -, hbytes, hrun⟩ := exists_replaces h (.inr (by simp [hbackup]))
    generalize (p.applied thresholds m).2 = m' at hrun ⊢
    -- the bytes that the run is about are those of the file
    have hsame : ∀ bytes', m.Holds p.filePath bytes' → bytes' = bytes :=
      fun bytes' h => Except.ok.inj (Eq.trans h.symm hbytes)
    cases hrun with
    | unopened _ _ hnamed _ =>
        obtain hnamed | ⟨hnamed, hheld⟩ := hnamed
        · exact absurd (hbackup.symm.trans hnamed) nofun
        · have hname : backup = backupPath p.filePath := Option.some.inj (hbackup.symm.trans hnamed)
          exact ⟨hname, fun bytes' h => hname ▸ hsame bytes' h ▸ hheld⟩
    | opened _ _ _ hheld | replaced _ _ _ _ hheld =>
        have hname : backup = backupPath p.filePath := (Option.some.inj hbackup).symm
        exact ⟨hname, fun bytes' h => hname ▸ hsame bytes' h ▸ hheld⟩
  unreported outcome h hnone bytes hbytes := by
    have happlies := applies thresholds hbytes
    generalize p.applied thresholds m = r at h happlies ⊢
    cases happlies with
    | refused | unresolved => exact hbytes
    | ran _ _ hrun =>
        cases h
        cases hrun with
        | unopened _ hkept => exact hkept
        | opened | replaced => cases hnone

end Proposal

/-! ### Two files -/

/-- A proposal of one line. -/
def newLine : Proposal where
  filePath := "a.spec.ts"
  before := "old\n"
  after := "new\n"
  changes := [⟨.addComment, 1, [], [], []⟩]
  score := .ofWhole 50

theorem newLine_accepted : newLine.refusal? {} = none := by decide +kernel

/-- A file of one line. -/
def oneLine : Machine where
  disk := [([("a.spec.ts" : Text)], .file (Utf8.encode "old\r\n"))]

namespace oneLine

theorem holds : oneLine.Holds newLine.filePath (Utf8.encode "old\r\n") := by
  unfold Machine.Holds
  cbv

theorem succeeds : newLine.Succeeds {} oneLine where
  accepted := newLine_accepted
  resolved := ⟨[("a.spec.ts" : Text)], by cbv⟩
  readable := ⟨_, "old\r\n", holds, by cbv⟩
  apart := by cbv
  free := ⟨oneLine.disk ++ [([("a.spec.ts.backup" : Text)], .file [])], by cbv⟩
  untroubled _ _ := rfl

/-- The line is replaced, and before it is written in full the backup has the old one. -/
theorem is_replaced :
    (∃ outcome, (newLine.applied {} oneLine).1 = .ok outcome ∧ outcome.applied = true) ∧
    newLine.HasBytes (newLine.applied {} (oneLine.cutAt 7 2)).2 (Utf8.encode "old\r\n") :=
  ⟨(Proposal.keeps_bytes {} newLine oneLine).applied_iff.mpr succeeds,
    (Proposal.keeps_bytes {} newLine oneLine).kept_at _ holds 7 2⟩

end oneLine

/-- A file that is a link to itself. -/
def selfLink : Machine where
  disk := [([("a.spec.ts" : Text)], .link "a.spec.ts")]

/-- Applying a proposal does not always have an outcome. -/
theorem selfLink.has_no_outcome : ¬ ∀ (thresholds : Thresholds) (p : Proposal) (m : Machine),
    ∃ outcome, (p.applied thresholds m).1 = .ok outcome := by
  intro h
  obtain ⟨outcome, h⟩ := h {} newLine selfLink
  have hloop : selfLink.disk.realLocation selfLink.folder newLine.filePath =
      .error (.linkLoop "/a.spec.ts") := by
    cbv
  rw [Proposal.applied_unresolved newLine_accepted hloop] at h
  cases h

end SuiteAudit
