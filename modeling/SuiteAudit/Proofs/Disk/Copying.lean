import SuiteAudit.Proofs.Disk.Beside

/-! # Copying and writing with trouble

Writing a file, copying one and comparing two are a few calls in a row, each of which may be in trouble.
What each of them can come to is said once: `Writes`, `Copies` and `run_sameContent`.  A copy in trouble
leaves its source as it was, and the target may hold any part of it. -/

namespace SuiteAudit.Machine

variable {m : Machine} {n k : Nat} {d d' : Disk} {path source target : Text} {bytes : Bytes}

/-- The machine after some calls, with the disk that they leave. -/
def after (m : Machine) (n : Nat) (d : Disk) : Machine := { m with calls := m.calls + n, disk := d }

@[simp] theorem after_calls : (m.after n d).calls = m.calls + n := rfl

@[simp] theorem after_trouble : (m.after n d).trouble = m.trouble := rfl

@[simp] theorem after_after : (m.after n d).after k d' = m.after (n + k) d' := by
  simp [after, Nat.add_assoc]

/-- A path leads to a file of some bytes. -/
def Holds (m : Machine) (path : Text) (bytes : Bytes) : Prop :=
  m.disk.readFile m.folder path = .ok bytes

theorem Holds.unique {bytes' : Bytes} (h : m.Holds path bytes) (h' : m.Holds path bytes') :
    bytes = bytes' := Except.ok.inj (Eq.trans h.symm h')

/-- None of the next calls is in trouble. -/
def Untroubled (m : Machine) (n : Nat) : Prop := ∀ i < n, m.trouble (m.calls + i) = none

theorem untroubled_one : m.Untroubled 1 ↔ m.trouble m.calls = none := by
  simp [Untroubled]

theorem untroubled_add :
    m.Untroubled (n + k) ↔ m.Untroubled n ∧ (m.after n d).Untroubled k := by
  constructor
  · intro h
    refine ⟨fun i hi => h i (by omega), fun i hi => ?_⟩
    have hcall := h (n + i) (by omega)
    rwa [← Nat.add_assoc] at hcall
  · rintro ⟨hn, hk⟩ i hi
    by_cases hin : i < n
    · exact hn i hin
    · have hcall := hk (i - n) (by omega)
      rwa [after_trouble, after_calls, Nat.add_assoc, Nat.add_sub_cancel' (by omega)] at hcall

theorem Untroubled.mono (h : m.Untroubled n) (hk : k ≤ n) : m.Untroubled k :=
  fun i hi => h i (by omega)

/-! ### Single calls -/

theorem run_readFile (hnull : path.elem '\x00' = false) (h : m.Holds path bytes) :
    m.Untroubled 1 ∧ (readFile path).run.run m = (.ok bytes, m.after 1 m.disk) ∨
    ¬ m.Untroubled 1 ∧ ∃ e, (readFile path).run.run m = (.error e, m.after 1 m.disk) := by
  unfold Holds at h
  rw [untroubled_one]
  unfold readFile
  rw [run_call, if_neg (by simpa using hnull), h]
  cases m.trouble m.calls with
  | none => exact .inl ⟨rfl, rfl⟩
  | some t => exact .inr ⟨nofun, _, rfl⟩

/-- A file that cannot be read is not by the call. -/
theorem run_readFile_error {fault : DiskFault} (hnull : path.elem '\x00' = false)
    (h : m.disk.readFile m.folder path = .error fault) :
    ∃ e, (readFile path).run.run m = (.error e, m.after 1 m.disk) := by
  unfold readFile
  rw [run_call, if_neg (by simpa using hnull), h]
  cases m.trouble m.calls <;> exact ⟨_, rfl⟩

theorem run_createFile (hnull : path.elem '\x00' = false)
    (h : m.disk.createFile m.folder path = .ok d) :
    m.Untroubled 1 ∧ (createFile path).run.run m = (.ok (), m.after 1 d) ∨
    ¬ m.Untroubled 1 ∧ ∃ e, (createFile path).run.run m = (.error e, m.after 1 m.disk) := by
  rw [untroubled_one]
  unfold createFile
  rw [run_call, if_neg (by simpa using hnull), h]
  cases m.trouble m.calls with
  | none => exact .inl ⟨rfl, rfl⟩
  | some t => exact .inr ⟨nofun, _, rfl⟩

theorem run_createFile_error {fault : DiskFault} (hnull : path.elem '\x00' = false)
    (h : m.disk.createFile m.folder path = .error fault) :
    ∃ e, (createFile path).run.run m = (.error e, m.after 1 m.disk) := by
  unfold createFile
  rw [run_call, if_neg (by simpa using hnull), h]
  cases m.trouble m.calls <;> exact ⟨_, rfl⟩

/-- Some bytes get behind those of a file, or a part of them. -/
theorem run_appendFile (hnull : path.elem '\x00' = false) (h : m.Holds path bytes) (more : Bytes) :
    (m.Untroubled 1 ∧ ∃ d, m.disk.writeFile m.folder path (bytes ++ more) = .ok d ∧
      (appendFile path more).run.run m = (.ok (), m.after 1 d)) ∨
    (¬ m.Untroubled 1 ∧ ∃ e part d, m.disk.writeFile m.folder path part = .ok d ∧
      (appendFile path more).run.run m = (.error e, m.after 1 d)) := by
  obtain ⟨d, hd, hwrite⟩ := Disk.exists_appendFile h more
  rw [untroubled_one]
  unfold appendFile
  rw [run_call, if_neg (by simpa using hnull), hd]
  cases m.trouble m.calls with
  | none => exact .inl ⟨rfl, d, hwrite, rfl⟩
  | some t =>
      obtain ⟨d', hd', hwrite'⟩ := Disk.exists_appendFile h (more.take t.progress)
      refine .inr ⟨nofun, .failed t.fault path, _, d', hwrite', ?_⟩
      simp only [Except.map, hd']
      rfl

/-! ### Writing -/

/-- What writing a whole file comes to when its path may lead to one: it is not emptied, or some part
of its bytes is written, or all. -/
inductive Writes (m : Machine) (path : Text) (bytes : Bytes) :
    Except DiskError Unit × Machine → Prop
  | unopened {e : DiskError} (trouble : ¬ m.Untroubled 1) :
      Writes m path bytes (.error e, m.after 1 m.disk)
  | partly {e : DiskError} {emptied d : Disk} {part : Bytes} (opened : m.Untroubled 1)
      (trouble : ¬ m.Untroubled 2) (empty : m.disk.writeFile m.folder path [] = .ok emptied)
      (write : emptied.writeFile m.folder path part = .ok d) :
      Writes m path bytes (.error e, m.after 2 d)
  | written {emptied d : Disk} (untroubled : m.Untroubled 2)
      (empty : m.disk.writeFile m.folder path [] = .ok emptied)
      (write : emptied.writeFile m.folder path bytes = .ok d) :
      Writes m path bytes (.ok (), m.after 2 d)

theorem run_writeFile (hnull : path.elem '\x00' = false) {emptied : Disk}
    (h : m.disk.createFile m.folder path = .ok emptied) (bytes : Bytes) :
    Writes m path bytes ((writeFile path bytes).run.run m) := by
  unfold writeFile
  obtain ⟨hopened, hrun⟩ | ⟨htrouble, e, hrun⟩ := run_createFile hnull h
  · have hempty : (m.after 1 emptied).Holds path [] := Disk.readFile_of_writeFile h
    rw [runT_bind_ok hrun]
    obtain ⟨hu, d, hwrite, hrun⟩ | ⟨htrouble, e, part, d, hwrite, hrun⟩ :=
      run_appendFile hnull hempty bytes
    · rw [hrun, after_after]
      exact .written (untroubled_add.mpr ⟨hopened, hu⟩) h hwrite
    · rw [hrun, after_after]
      exact .partly hopened (fun hu => htrouble (untroubled_add.mp hu).2) h hwrite
  · rw [runT_bind_error hrun]
    exact .unopened htrouble

theorem run_writeFile_error {fault : DiskFault} (hnull : path.elem '\x00' = false)
    (h : m.disk.createFile m.folder path = .error fault) (bytes : Bytes) :
    ∃ e, (writeFile path bytes).run.run m = (.error e, m.after 1 m.disk) := by
  obtain ⟨e, hrun⟩ := run_createFile_error hnull h
  exact ⟨e, runT_bind_error hrun⟩

/-! ### Copying -/

/-- What copying a file needs: the target leads elsewhere and may be written, and no call is in
trouble. -/
structure CanCopy (m : Machine) (source target : Text) : Prop where
  apart : m.disk.sameEntry m.folder source target = false
  free : ∃ d, m.disk.createFile m.folder target = .ok d
  untroubled : m.Untroubled 3

/-- What copying a file comes to. -/
inductive Copies (m : Machine) (source target : Text) (bytes : Bytes) :
    Except DiskError Unit × Machine → Prop
  | failed {e : DiskError} {n : Nat} {d : Disk} (calls : n ≤ 3)
      (source_kept : d.readFile m.folder source = .ok bytes) (cannot : ¬ m.CanCopy source target) :
      Copies m source target bytes (.error e, m.after n d)
  | copied {d : Disk} (can : m.CanCopy source target)
      (source_kept : d.readFile m.folder source = .ok bytes)
      (copy : d.readFile m.folder target = .ok bytes)
      (apart : d.sameEntry m.folder source target = false) :
      Copies m source target bytes (.ok (), m.after 3 d)

theorem run_copyFile (hsource : source.elem '\x00' = false) (htarget : target.elem '\x00' = false)
    (h : m.Holds source bytes) : Copies m source target bytes ((copyFile source target).run.run m) := by
  unfold copyFile
  rw [runT_bind_ok (runT_get m)]
  by_cases hapart : m.disk.sameEntry m.folder source target = true
  · rw [if_pos hapart]
    exact .failed (n := 0) (by omega) h fun hcan => by simp [hcan.apart] at hapart
  rw [if_neg hapart]
  have hapart : m.disk.sameEntry m.folder source target = false := by simpa using hapart
  dsimp only
  obtain ⟨htrouble, e, hrun⟩ | ⟨hread, hrun⟩ := (run_readFile hsource h).symm
  · rw [runT_bind_error hrun]
    exact .failed (by omega) h fun hcan => htrouble (hcan.untroubled.mono (by omega))
  rw [runT_bind_ok hrun, runT_bind_ok (runT_get _), runT_tryCatch]
  cases hcreate : m.disk.createFile m.folder target with
  | error fault =>
      obtain ⟨e, hrun⟩ := run_writeFile_error (m := m.after 1 m.disk) htarget hcreate bytes
      have hcannot : ¬ m.CanCopy source target := fun hcan => by
        obtain ⟨d, hd⟩ := hcan.free
        rw [hcreate] at hd
        cases hd
      rw [hrun, after_after]
      dsimp only
      split <;> exact .failed (by omega) h hcannot
  | ok emptied =>
      have hwrites := run_writeFile (m := m.after 1 m.disk) htarget hcreate bytes
      generalize (writeFile target bytes).run.run (m.after 1 m.disk) = r at hwrites ⊢
      have huntroubled : ∀ k ≤ 2, m.CanCopy source target → (m.after 1 m.disk).Untroubled k :=
        fun k hk hcan => (untroubled_add.mp (hcan.untroubled.mono (by omega : 1 + k ≤ 3))).2
      cases hwrites with
      | unopened htrouble =>
          have hcannot := fun hcan => htrouble (huntroubled 1 (by omega) hcan)
          dsimp only
          rw [after_after]
          split <;> exact .failed (by omega) h hcannot
      | partly _ htrouble hempty hwrite =>
          have hcannot := fun hcan => htrouble (huntroubled 2 (by omega) hcan)
          obtain ⟨hkept, -⟩ := Disk.readFile_of_writeFile_twice h hapart hempty hwrite
          dsimp only
          rw [after_after]
          split <;> exact .failed (by omega) hkept hcannot
      | written hu hempty hwrite =>
          obtain ⟨hkept, hapart'⟩ := Disk.readFile_of_writeFile_twice h hapart hempty hwrite
          dsimp only
          rw [after_after]
          exact .copied ⟨hapart, ⟨emptied, hcreate⟩, untroubled_add.mpr ⟨hread, hu⟩⟩ hkept
            (Disk.readFile_of_writeFile hwrite) hapart'

/-! ### Comparing -/

/-- Two files of the same bytes are found to be the same, unless a call is in trouble. -/
theorem run_sameContent (hsource : source.elem '\x00' = false) (htarget : target.elem '\x00' = false)
    (hs : m.Holds source bytes) (ht : m.Holds target bytes) :
    m.Untroubled 2 ∧ (sameContent source target).run.run m = (.ok true, m.after 2 m.disk) ∨
    ¬ m.Untroubled 2 ∧ ∃ e, ∃ n ≤ 2,
      (sameContent source target).run.run m = (.error e, m.after n m.disk) := by
  unfold sameContent
  obtain ⟨hfirst, hrun⟩ | ⟨htrouble, e, hrun⟩ := run_readFile hsource hs
  · have ht' : (m.after 1 m.disk).Holds target bytes := ht
    rw [runT_bind_ok hrun]
    obtain ⟨hsecond, hrun⟩ | ⟨htrouble, e, hrun⟩ := run_readFile htarget ht'
    · refine .inl ⟨untroubled_add.mpr ⟨hfirst, hsecond⟩, ?_⟩
      rw [runT_bind_ok hrun, after_after, decide_eq_true rfl]
      rfl
    · refine .inr ⟨fun hu => htrouble (untroubled_add.mp hu).2, e, 2, by omega, ?_⟩
      rw [runT_bind_error hrun, after_after]
      rfl
  · refine .inr ⟨fun hu => htrouble (hu.mono (by omega)), e, 1, by omega, ?_⟩
    rw [runT_bind_error hrun]

end SuiteAudit.Machine
