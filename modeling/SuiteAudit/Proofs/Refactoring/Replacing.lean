import SuiteAudit.Proofs.Disk.Copying
import SuiteAudit.Refactoring.Apply

/-! # Replacing a file

A file is backed up by four calls, compared with the backup by two and written anew by two.  What this
comes to when any of the calls is in trouble is said once for each part (`BacksUp`, `Overwrites`) and
once for the whole (`Replaces`). -/

namespace SuiteAudit

variable {m : Machine} {p : Proposal} {path : Text} {bytes : Bytes}

/-- Reading a source file is one call, behind which the bytes have to be UTF-8. -/
theorem SourceFile.run_read (hnull : path.elem '\x00' = false) (h : m.Holds path bytes) :
    (m.Untroubled 1 ∧ ∃ raw, Utf8.decode bytes = .ok raw ∧
      (SourceFile.read path).run.run m = (.ok (.ofRaw path raw), m.after 1 m.disk)) ∨
    (¬ (m.Untroubled 1 ∧ ∃ raw, Utf8.decode bytes = .ok raw) ∧
      ∃ e, (SourceFile.read path).run.run m = (.error e, m.after 1 m.disk)) := by
  unfold SourceFile.read
  obtain ⟨hu, hrun⟩ | ⟨htrouble, e, hrun⟩ := Machine.run_readFile hnull h
  · rw [runT_bind_ok (runT_adapt_ok hrun _)]
    unfold SourceFile.ofBytes
    cases hraw : Utf8.decode bytes with
    | ok raw => exact .inl ⟨hu, raw, rfl, rfl⟩
    | error fault => exact .inr ⟨fun ⟨_, _, h⟩ => (by cases h), _, rfl⟩
  · exact .inr ⟨fun h => htrouble h.1, _, runT_bind_error (runT_adapt_error hrun _)⟩

theorem SourceFile.run_read_error {fault : DiskFault} (hnull : path.elem '\x00' = false)
    (h : m.disk.readFile m.folder path = .error fault) :
    ∃ e, (SourceFile.read path).run.run m = (.error e, m.after 1 m.disk) := by
  obtain ⟨e, hrun⟩ := Machine.run_readFile_error hnull h
  exact ⟨_, runT_bind_error (runT_adapt_error hrun _)⟩

namespace Proposal

/-! ### Backing up -/

/-- What backing up a file needs: its bytes are a text, the backup is another file that may be written,
and no call is in trouble. -/
structure CanBackUp (m : Machine) (path : Text) : Prop where
  readable : ∃ bytes raw, m.Holds path bytes ∧ Utf8.decode bytes = .ok raw
  apart : m.disk.sameEntry m.folder path (backupPath path) = false
  free : ∃ d, m.disk.createFile m.folder (backupPath path) = .ok d
  untroubled : m.Untroubled 4

theorem CanBackUp.exists_text (hcan : CanBackUp m path) (h : m.Holds path bytes) :
    ∃ raw, Utf8.decode bytes = .ok raw := by
  obtain ⟨bytes', raw, hread, hraw⟩ := hcan.readable
  have hbytes : bytes = bytes' := Except.ok.inj (Eq.trans h.symm hread)
  exact ⟨raw, hbytes ▸ hraw⟩

/-- What backing up a file of some bytes comes to: the file is as it was in any case. -/
inductive BacksUp (m : Machine) (path : Text) (bytes : Bytes) :
    Except ApplyError LineEnding × Machine → Prop
  | failed {e : ApplyError} {n : Nat} {d : Disk} (calls : n ≤ 4)
      (kept : d.readFile m.folder path = .ok bytes) (cannot : ¬ CanBackUp m path) :
      BacksUp m path bytes (.error e, m.after n d)
  | done {raw : Text} {d : Disk} (can : CanBackUp m path) (text : Utf8.decode bytes = .ok raw)
      (kept : d.readFile m.folder path = .ok bytes)
      (backup : d.readFile m.folder (backupPath path) = .ok bytes)
      (apart : d.sameEntry m.folder path (backupPath path) = false) :
      BacksUp m path bytes (.ok (LineEnding.detect raw), m.after 4 d)

theorem backupPath_null (hnull : path.elem '\x00' = false) : (backupPath path).elem '\x00' = false := by
  have hending : backupEnding.elem '\x00' = false := by decide
  simp_all [backupPath]

theorem run_backUp (hnull : path.elem '\x00' = false) (h : m.Holds path bytes) :
    BacksUp m path bytes ((backUp path).run.run m) := by
  unfold backUp
  obtain ⟨hcannot, e, hrun⟩ | ⟨hu, raw, hraw, hrun⟩ := (SourceFile.run_read hnull h).symm
  · rw [runT_bind_error (runT_adapt_error hrun _)]
    exact .failed (by omega) h fun hcan =>
      hcannot ⟨hcan.untroubled.mono (by omega), hcan.exists_text h⟩
  rw [runT_bind_ok (runT_adapt_ok hrun _)]
  have hcopies := Machine.run_copyFile (m := m.after 1 m.disk) hnull (backupPath_null hnull) h
  generalize hcopy : (Machine.copyFile path (backupPath path)).run.run (m.after 1 m.disk) = r at hcopies
  cases hcopies with
  | failed hn hkept hcannot =>
      rw [runT_bind_error (runT_adapt_error hcopy _), Machine.after_after]
      exact .failed (by omega) hkept fun hcan =>
        hcannot ⟨hcan.apart, hcan.free, (Machine.untroubled_add.mp hcan.untroubled).2⟩
  | copied hcan hkept hbackup hapart =>
      rw [runT_bind_ok (runT_adapt_ok hcopy _), Machine.after_after]
      exact .done ⟨⟨bytes, raw, h, hraw⟩, hcan.apart, hcan.free,
        Machine.untroubled_add.mpr ⟨hu, hcan.untroubled⟩⟩ hraw hkept hbackup hapart

/-! ### Writing over the file -/

/-- What writing over a file that equals its backup comes to: it is not opened, or only the backup is
sure to hold its bytes, or all is written. -/
inductive Overwrites (m : Machine) (path : Text) (bytes content : Bytes) :
    Except ApplyError Unit × Machine → Prop
  | unopened {e : ApplyError} {n : Nat} (calls : n ≤ 3) (trouble : ¬ m.Untroubled 3) :
      Overwrites m path bytes content (.error e, m.after n m.disk)
  | opened {e : ApplyError} {d : Disk} (untroubled : m.Untroubled 3) (trouble : ¬ m.Untroubled 4)
      (backup : d.readFile m.folder (backupPath path) = .ok bytes) :
      Overwrites m path bytes content (.error e, m.after 4 d)
  | written {d : Disk} (untroubled : m.Untroubled 4) (new : d.readFile m.folder path = .ok content)
      (backup : d.readFile m.folder (backupPath path) = .ok bytes) :
      Overwrites m path bytes content (.ok (), m.after 4 d)

theorem run_overwrite (hnull : path.elem '\x00' = false) (h : m.Holds path bytes)
    (hbackup : m.Holds (backupPath path) bytes)
    (hapart : m.disk.sameEntry m.folder path (backupPath path) = false) (content : Text)
    (ending : LineEnding) : Overwrites m path bytes (SourceFile.bytesOf ending content)
      ((overwrite path content ending).run.run m) := by
  unfold overwrite
  obtain ⟨htrouble, e, n, hn, hrun⟩ | ⟨hu, hrun⟩ :=
    (Machine.run_sameContent hnull (backupPath_null hnull) h hbackup).symm
  · rw [runT_bind_error (runT_adapt_error hrun _)]
    exact .unopened (by omega) fun hu => htrouble (hu.mono (by omega))
  rw [runT_bind_ok (runT_adapt_ok hrun _)]
  obtain ⟨emptied, hcreate⟩ := Disk.exists_writeFile h []
  have hwrites := Machine.run_writeFile (m := m.after 2 m.disk) hnull hcreate
    (SourceFile.bytesOf ending content)
  generalize hwrite : (Machine.writeFile path (SourceFile.bytesOf ending content)).run.run
    (m.after 2 m.disk) = r at hwrites
  rw [if_neg (by simp)]
  dsimp only
  have hopened (hu' : (m.after 2 m.disk).Untroubled 1) : m.Untroubled 3 :=
    Machine.untroubled_add.mpr ⟨hu, hu'⟩
  have htroubled (h : ¬ (m.after 2 m.disk).Untroubled 2) : ¬ m.Untroubled 4 :=
    fun hu => h (Machine.untroubled_add.mp hu).2
  -- the backup is another file, which no write to the file changes
  have hapart' : m.disk.sameEntry m.folder (backupPath path) path = false :=
    Disk.sameEntry_comm.trans hapart
  cases hwrites with
  | unopened htrouble =>
      rw [runT_adapt_error hwrite, Machine.after_after]
      exact .unopened (by omega) fun hu => htrouble (Machine.untroubled_add.mp hu).2
  | partly hu' htrouble hempty hpart =>
      obtain ⟨hkept, -⟩ := Disk.readFile_of_writeFile_twice hbackup hapart' hempty hpart
      rw [runT_adapt_error hwrite, Machine.after_after]
      exact .opened (hopened hu') (htroubled htrouble) hkept
  | written hu' hempty hall =>
      obtain ⟨hkept, -⟩ := Disk.readFile_of_writeFile_twice hbackup hapart' hempty hall
      rw [runT_adapt_ok hwrite, Machine.after_after]
      exact .written (Machine.untroubled_add.mpr ⟨hu, hu'⟩) (Disk.readFile_of_writeFile hall) hkept

/-! ### Replacing the file -/

/-- What replacing a file of some bytes comes to.  The outcome names the backup when it holds the
bytes. -/
inductive Replaces (m : Machine) (p : Proposal) (bytes : Bytes) : ApplyOutcome × Machine → Prop
  | unopened {backup? : Option Text} {reason : Text} {n : Nat} {d : Disk} (calls : n ≤ 7)
      (kept : d.readFile m.folder p.filePath = .ok bytes)
      (backup : backup? = none ∨ backup? = some (backupPath p.filePath) ∧
        d.readFile m.folder (backupPath p.filePath) = .ok bytes)
      (cannot : ¬ (CanBackUp m p.filePath ∧ m.Untroubled 7)) :
      Replaces m p bytes (p.stopped backup? reason, m.after n d)
  | opened {reason : Text} {d : Disk} (can : CanBackUp m p.filePath) (untroubled : m.Untroubled 7)
      (trouble : ¬ m.Untroubled 8)
      (backup : d.readFile m.folder (backupPath p.filePath) = .ok bytes) :
      Replaces m p bytes (p.stopped (some (backupPath p.filePath)) reason, m.after 8 d)
  | replaced {raw : Text} {d : Disk} (can : CanBackUp m p.filePath) (untroubled : m.Untroubled 8)
      (text : Utf8.decode bytes = .ok raw)
      (new : d.readFile m.folder p.filePath =
        .ok (SourceFile.bytesOf (LineEnding.detect raw) p.after))
      (backup : d.readFile m.folder (backupPath p.filePath) = .ok bytes) :
      Replaces m p bytes (⟨p.filePath, true, some (backupPath p.filePath), none⟩, m.after 8 d)

theorem run_replaceFile (hnull : p.filePath.elem '\x00' = false) (h : m.Holds p.filePath bytes) :
    Replaces m p bytes (p.replaceFile.run m) := by
  unfold replaceFile
  have hbacks := run_backUp hnull h
  rw [run_bind]
  generalize (backUp p.filePath).run.run m = r at hbacks ⊢
  cases hbacks with
  | failed hn hkept hcannot =>
      exact .unopened (by omega) hkept (.inl rfl) fun hcan => hcannot hcan.1
  | @done raw d hcan htext hkept hbackup hapart =>
      dsimp only
      have hover := run_overwrite (m := m.after 4 d) hnull hkept hbackup hapart p.after
        (LineEnding.detect raw)
      rw [run_bind]
      generalize (overwrite p.filePath p.after (LineEnding.detect raw)).run.run (m.after 4 d) = r
        at hover ⊢
      have huntroubled (k : Nat) : m.Untroubled (4 + k) ↔ m.Untroubled 4 ∧ (m.after 4 d).Untroubled k :=
        Machine.untroubled_add
      cases hover with
      | unopened hn htrouble =>
          dsimp only
          rw [Machine.after_after]
          exact .unopened (by omega) hkept (.inr ⟨rfl, hbackup⟩) fun hcan =>
            htrouble ((huntroubled 3).mp hcan.2).2
      | opened hu htrouble hbackup =>
          dsimp only
          rw [Machine.after_after]
          exact .opened hcan ((huntroubled 3).mpr ⟨hcan.untroubled, hu⟩)
            (fun hu => htrouble ((huntroubled 4).mp hu).2) hbackup
      | written hu hnew hbackup =>
          dsimp only
          rw [Machine.after_after]
          exact .replaced hcan ((huntroubled 4).mpr ⟨hcan.untroubled, hu⟩) htext hnew hbackup

theorem run_replaceFile_error {fault : DiskFault} (hnull : p.filePath.elem '\x00' = false)
    (h : m.disk.readFile m.folder p.filePath = .error fault) :
    ∃ reason, p.replaceFile.run m = (p.stopped none reason, m.after 1 m.disk) := by
  obtain ⟨e, hrun⟩ := SourceFile.run_read_error hnull h
  have hback : (backUp p.filePath).run.run m = (.error (.source e), m.after 1 m.disk) := by
    unfold backUp
    exact runT_bind_error (runT_adapt_error hrun _)
  unfold replaceFile
  rw [run_bind, hback]
  exact ⟨_, rfl⟩

/-! ### Applying -/

/-- What applying a proposal gives, and the machine that it leaves. -/
def applied (thresholds : Thresholds) (p : Proposal) (m : Machine) :
    Except PathFault ApplyOutcome × Machine :=
  (p.apply thresholds).run.run m

theorem applied_refused {thresholds : Thresholds} {refusal : Refusal}
    (h : p.refusal? thresholds = some refusal) :
    p.applied thresholds m = (.ok (p.stopped none refusal.message), m) := by
  unfold applied apply
  rw [h]
  rfl

theorem applied_unresolved {thresholds : Thresholds} {fault : PathFault}
    (h : p.refusal? thresholds = none)
    (hplace : m.disk.realLocation m.folder p.filePath = .error fault) :
    p.applied thresholds m = (.error fault, m) := by
  unfold applied apply
  rw [h]
  dsimp only
  rw [runT_bind_ok (runT_get m), hplace]
  rfl

theorem applied_resolved {thresholds : Thresholds} {place : Location}
    (h : p.refusal? thresholds = none)
    (hplace : m.disk.realLocation m.folder p.filePath = .ok place) :
    p.applied thresholds m = (.ok (p.replaceFile.run m).1, (p.replaceFile.run m).2) := by
  unfold applied apply
  rw [h]
  dsimp only
  rw [runT_bind_ok (runT_get m), hplace]
  rfl

theorem null_of_resolved {place : Location}
    (h : m.disk.realLocation m.folder path = .ok place) : path.elem '\x00' = false := by
  unfold Disk.realLocation at h
  split at h
  · cases h
  · next hnull => simpa using hnull

/-- A proposal that is applied, or backs its file up, was not refused and read its file. -/
theorem exists_replaces {thresholds : Thresholds} {outcome : ApplyOutcome}
    (h : (p.applied thresholds m).1 = .ok outcome)
    (hdone : outcome.applied = true ∨ outcome.backupPath? ≠ none) :
    ∃ place bytes, p.refusal? thresholds = none ∧
      m.disk.realLocation m.folder p.filePath = .ok place ∧ m.Holds p.filePath bytes ∧
      Replaces m p bytes (outcome, (p.applied thresholds m).2) := by
  cases hrefusal : p.refusal? thresholds with
  | some refusal =>
      rw [applied_refused hrefusal] at h
      cases h
      simp [stopped] at hdone
  | none =>
      cases hplace : m.disk.realLocation m.folder p.filePath with
      | error fault =>
          rw [applied_unresolved hrefusal hplace] at h
          cases h
      | ok place =>
          rw [applied_resolved hrefusal hplace] at h ⊢
          have hnull := null_of_resolved hplace
          have houtcome : (p.replaceFile.run m).1 = outcome := Except.ok.inj h
          cases hread : m.disk.readFile m.folder p.filePath with
          | error fault =>
              obtain ⟨reason, hrun⟩ := run_replaceFile_error hnull hread
              rw [hrun] at houtcome
              simp [← houtcome, stopped] at hdone
          | ok bytes => exact ⟨place, bytes, rfl, rfl, hread, houtcome ▸ run_replaceFile hnull hread⟩

end Proposal

/-! ### Properties of all work -/

namespace OfFileWork

variable {P : (α : Type) → StateM Machine α → Prop} (h : OfFileWork P)

include h

theorem replaceFile (p : Proposal) : P _ p.replaceFile := by
  have hback : P _ (Proposal.backUp p.filePath).run :=
    h.bindT (h.adapt (h.read h.call) _) fun _ => h.bindT (h.adapt h.copyFile _) fun _ => h.pureT _
  have hover : ∀ ending, P _ (Proposal.overwrite p.filePath p.after ending).run := by
    intro ending
    refine h.bindT (h.adapt h.sameContent _) fun same => ?_
    split
    · exact h.throwT _
    · exact h.adapt h.writeFile _
  refine h.bind hback fun r => ?_
  cases r with
  | error e => exact h.pure _
  | ok ending =>
      refine h.bind (hover ending) fun r => ?_
      cases r with
      | error e => exact h.pure _
      | ok u => exact h.pure _

theorem apply (thresholds : Thresholds) (p : Proposal) : P _ (p.apply thresholds).run := by
  unfold Proposal.apply
  split
  · exact h.pureT _
  · refine h.look (fun m => ?_) fun m m' hdisk hfolder => by rw [hdisk, hfolder]
    split
    · exact h.throwT _
    · exact h.bind (h.replaceFile p) fun outcome => h.pure _

end OfFileWork
end SuiteAudit
