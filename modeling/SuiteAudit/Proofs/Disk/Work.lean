import SuiteAudit.Disk.SourceFile

/-! # Running work on a machine

What work gives and the machine it leaves are read off its parts: `runT_bind` for work put together,
`run_call` for a call on a file.  A property that is kept when work is put together (`Composes`) and
holds of each call holds of all work on files (`OfFileWork`); that work leaves the clock alone
(`leavesClock`) is one of them.

A machine that is cut at a call lets the calls before it through, a number of bytes of the call itself
and nothing behind it: the disk on which work ends there is the one that it had at that moment.  A cut
behind all calls of some work changes nothing for it (`heedsCalls`), so its end is one of its moments. -/

namespace SuiteAudit

variable {α γ ε δ : Type}

@[simp] theorem run_bind (work : StateM Machine α) (f : α → StateM Machine γ) (m : Machine) :
    (work >>= f).run m = (f (work.run m).1).run (work.run m).2 := rfl

@[simp] theorem runT_pure (a : α) (m : Machine) :
    (pure a : Work ε α).run.run m = (.ok a, m) := rfl

@[simp] theorem runT_get (m : Machine) : (get : Work ε Machine).run.run m = (.ok m, m) := rfl

@[simp] theorem runT_set (m m' : Machine) : (set m' : Work ε PUnit).run.run m = (.ok ⟨⟩, m') := rfl

/-- Work put together stops at an error of its first part. -/
@[simp] theorem runT_bind (work : Work ε α) (f : α → Work ε γ) (m : Machine) :
    (work >>= f).run.run m = match work.run.run m with
      | (.ok a, m') => (f a).run.run m'
      | (.error e, m') => (.error e, m') := by
  change (ExceptT.bindCont f (work.run.run m).1).run (work.run.run m).2 = _
  rcases work.run.run m with ⟨_ | _, _⟩ <;> rfl

theorem runT_bind_ok {work : Work ε α} {f : α → Work ε γ} {m m' : Machine} {a : α}
    (h : work.run.run m = (.ok a, m')) : (work >>= f).run.run m = (f a).run.run m' := by
  rw [runT_bind, h]

theorem runT_bind_error {work : Work ε α} {f : α → Work ε γ} {m m' : Machine} {e : ε}
    (h : work.run.run m = (.error e, m')) : (work >>= f).run.run m = (.error e, m') := by
  rw [runT_bind, h]

@[simp] theorem runT_lift (work : StateM Machine α) (m : Machine) :
    (liftM work : Work ε α).run.run m = (.ok (work.run m).1, (work.run m).2) := rfl

@[simp] theorem runT_adapt (work : Work ε α) (f : ε → δ) (m : Machine) :
    (work.adapt f).run.run m = ((work.run.run m).1.mapError f, (work.run.run m).2) := rfl

theorem runT_adapt_ok {work : Work ε α} {m m' : Machine} {a : α}
    (h : work.run.run m = (.ok a, m')) (f : ε → δ) : (work.adapt f).run.run m = (.ok a, m') := by
  rw [runT_adapt, h]
  rfl

theorem runT_adapt_error {work : Work ε α} {m m' : Machine} {e : ε}
    (h : work.run.run m = (.error e, m')) (f : ε → δ) :
    (work.adapt f).run.run m = (.error (f e), m') := by
  rw [runT_adapt, h]
  rfl

/-- Work is taken up where its first part failed. -/
@[simp] theorem runT_tryCatch (work : Work ε α) (f : ε → Work ε α) (m : Machine) :
    (tryCatch work f).run.run m = match work.run.run m with
      | (.ok a, m') => (.ok a, m')
      | (.error e, m') => (f e).run.run m' := by
  have hrun : StateT.run (m := Id) work m = work.run.run m := rfl
  change StateT.run (ExceptT.tryCatch work f) m = _
  unfold ExceptT.tryCatch ExceptT.mk
  rw [StateT.run_bind, hrun]
  rcases work.run.run m with ⟨_ | _, _⟩ <;> rfl

/-- A call fails by the file it is for, or by trouble; either way it was made. -/
theorem run_call {path : Text} (result : Disk → Location → Except DiskFault (α × Disk))
    (broken : Disk → Location → Nat → Disk) (m : Machine) :
    (Machine.call path result broken).run.run m =
      if path.elem '\x00' then (.error .nullCharacter, m)
      else match m.trouble m.calls, result m.disk m.folder with
        | none, .ok (a, disk) => (.ok a, { m with calls := m.calls + 1, disk := disk })
        | some t, .ok _ => (.error (.failed t.fault path),
            { m with calls := m.calls + 1, disk := broken m.disk m.folder t.progress })
        | _, .error fault => (.error (.failed fault path), { m with calls := m.calls + 1 }) := by
  unfold Machine.call
  split
  · rfl
  · simp only [runT_bind, runT_get, runT_set]
    cases m.trouble m.calls <;> cases result m.disk m.folder <;> rfl

/-- A call that succeeds leaves its disk and changes nothing else but the number of calls. -/
theorem exists_of_run_call {path : Text} {result : Disk → Location → Except DiskFault (α × Disk)}
    {broken : Disk → Location → Nat → Disk} {m m' : Machine} {a : α}
    (h : (Machine.call path result broken).run.run m = (.ok a, m')) :
    ∃ disk, result m.disk m.folder = .ok (a, disk) ∧
      m' = { m with calls := m.calls + 1, disk := disk } := by
  rw [run_call] at h
  split at h
  · cases h
  · split at h
    · next disk _ hresult =>
        cases h
        exact ⟨disk, hresult, rfl⟩
    · cases h
    · cases h

/-- Work put together that succeeds does so in both parts. -/
theorem exists_of_runT_bind {work : Work ε α} {f : α → Work ε γ} {m m' : Machine} {b : γ}
    (h : (work >>= f).run.run m = (.ok b, m')) :
    ∃ a m₁, work.run.run m = (.ok a, m₁) ∧ (f a).run.run m₁ = (.ok b, m') := by
  rw [runT_bind] at h
  split at h
  · next a m₁ hwork => exact ⟨a, m₁, hwork, h⟩
  · cases h

/-! ### Properties of all work -/

/-- A property of work that is kept when work is put together. -/
structure Composes (P : (α : Type) → StateM Machine α → Prop) : Prop where
  pure {α : Type} (a : α) : P α (pure a)
  bind {α γ : Type} {work : StateM Machine α} {f : α → StateM Machine γ} (hw : P α work)
    (hf : ∀ a, P γ (f a)) : P γ (work >>= f)

namespace Composes

variable {P : (α : Type) → StateM Machine α → Prop} (h : Composes P)

include h

theorem bindT {work : Work ε α} {f : α → Work ε γ} (hw : P _ work.run) (hf : ∀ a, P _ (f a).run) :
    P _ (work >>= f).run := by
  refine h.bind (f := ExceptT.bindCont f) hw fun a => ?_
  cases a with
  | ok a => exact hf a
  | error e => exact h.pure (Except.error e)

theorem pureT (a : α) : P _ (Pure.pure a : Work ε α).run := h.pure (Except.ok a)

theorem throwT (e : ε) : P _ (throw e : Work ε α).run := h.pure (Except.error e)

theorem tryCatchT {work : Work ε α} {f : ε → Work ε α} (hw : P _ work.run)
    (hf : ∀ e, P _ (f e).run) : P _ (tryCatch work f).run := by
  change P _ (ExceptT.tryCatch work f)
  refine h.bind hw fun a => ?_
  cases a with
  | ok a => exact h.pure (Except.ok a)
  | error e => exact hf e

theorem adapt {work : Work ε α} (hw : P _ work.run) (f : ε → δ) : P _ (work.adapt f).run :=
  h.bind hw fun a => h.pure (a.mapError f)

theorem read {path : Text} (hread : P _ (Machine.readFile path).run) :
    P _ (SourceFile.read path).run := by
  refine h.bindT (h.adapt hread _) fun bytes => ?_
  split
  · exact h.pureT _
  · exact h.throwT _

end Composes

/-- A property of work that is kept when work is put together, also behind a look at the files. -/
structure OfLooks (P : (α : Type) → StateM Machine α → Prop) : Prop extends Composes P where
  look {ε α : Type} {f : Machine → Work ε α} (hf : ∀ m, P _ (f m).run)
    (hfiles : ∀ m m' : Machine, m.disk = m'.disk → m.folder = m'.folder → f m = f m') :
    P _ (get >>= f).run

namespace OfLooks

variable {P : (α : Type) → StateM Machine α → Prop} (h : OfLooks P) {path : Text}
  (hmake : ∀ path, P _ (Machine.makeFolder path).run)

include h

theorem passOver {work : Work DiskError Unit} (hw : P _ work.run) :
    P _ (Machine.passOver work).run := by
  refine h.tryCatchT hw fun e => ?_
  split
  · exact h.pureT _
  · exact h.throwT _

include hmake

theorem makeFolderOnce : P _ (Machine.makeFolderOnce path).run := by
  refine h.tryCatchT (hmake path) fun e => h.look (fun m => ?_) fun m m' hdisk hfolder => by
    rw [hdisk, hfolder]
  split
  · exact h.throwT _
  · exact h.pureT _

theorem ensureFolderWithin (depth : Nat) : P _ (Machine.ensureFolderWithin depth path).run := by
  have hlast : ∀ path name : Text, P _
      (if name = ['.'] then pure () else Machine.makeFolderOnce path : Work DiskError Unit).run := by
    intro path name
    split
    · exact h.pureT _
    · exact h.makeFolderOnce hmake
  induction depth generalizing path with
  | zero =>
      unfold Machine.ensureFolderWithin
      refine h.look (fun m => ?_) fun m m' hdisk hfolder => by rw [hdisk, hfolder]
      generalize (if (Path.split path).2.isEmpty then _ else _) = parts
      dsimp only
      split
      · exact hlast _ _
      · exact h.makeFolderOnce hmake
  | succ depth ih =>
      unfold Machine.ensureFolderWithin
      refine h.look (fun m => ?_) fun m m' hdisk hfolder => by rw [hdisk, hfolder]
      generalize (if (Path.split path).2.isEmpty then _ else _) = parts
      dsimp only
      split
      · exact h.bindT (h.passOver ih) fun _ => hlast _ _
      · exact h.makeFolderOnce hmake

end OfLooks

/-- A property of all work on files: it holds of each call, and of what is done after a look at the
files. -/
structure OfFileWork (P : (α : Type) → StateM Machine α → Prop) : Prop extends OfLooks P where
  call {α : Type} {path : Text} {result : Disk → Location → Except DiskFault (α × Disk)}
    {broken : Disk → Location → Nat → Disk} : P _ (Machine.call path result broken).run

namespace OfFileWork

variable {P : (α : Type) → StateM Machine α → Prop} (h : OfFileWork P) {path : Text}

include h

theorem writeFile {bytes : Bytes} : P _ (Machine.writeFile path bytes).run :=
  h.bindT h.call fun _ => h.call

theorem copyFile {source target : Text} : P _ (Machine.copyFile source target).run := by
  unfold Machine.copyFile
  refine h.look (fun m => ?_) fun m m' hdisk hfolder => by rw [hdisk, hfolder]
  split
  · exact h.throwT _
  · refine h.bindT h.call fun bytes => h.look (fun m => ?_) fun m m' hdisk hfolder => by
      rw [hdisk, hfolder]
    refine h.tryCatchT h.writeFile fun e => ?_
    split
    · exact h.throwT _
    · exact h.throwT _

theorem sameContent {first second : Text} : P _ (Machine.sameContent first second).run :=
  h.bindT h.call fun _ => h.bindT h.call fun _ => h.pureT _

theorem writeInto {bytes : Bytes} : P _ (Machine.writeInto path bytes).run :=
  h.bindT (h.ensureFolderWithin (fun _ => h.call) _) fun _ => h.writeFile

end OfFileWork

/-! ### Work that leaves the clock alone -/

/-- Work ends with the clock as it was and did not read it. -/
def LeavesClock (work : StateM Machine α) : Prop :=
  ∀ m, (work.run m).2.clock = m.clock ∧ (work.run m).2.readings = m.readings

theorem leavesClock : OfFileWork @LeavesClock where
  pure _ _ := ⟨rfl, rfl⟩
  bind {_ _ work _} hw hf m := by
    obtain ⟨hclock, hreadings⟩ := hf (work.run m).1 (work.run m).2
    rw [run_bind, hclock, hreadings]
    exact hw m
  call m := by
    rw [run_call]
    split
    · exact ⟨rfl, rfl⟩
    · split <;> exact ⟨rfl, rfl⟩
  look hf _ m := by
    rw [runT_bind_ok (runT_get m)]
    exact hf m m

/-! ### Moments of work -/

/-- The machine on which the calls before number `n` go as they do, a number of bytes of that call gets
through, and nothing does behind it. -/
def Machine.cutAt (m : Machine) (n progress : Nat) : Machine :=
  { m with trouble := fun i =>
      if i < n then m.trouble i else some ⟨.hardware, if i = n then progress else 0⟩ }

/-- Work is the same on a machine that is cut behind its calls. -/
def HeedsCalls (work : StateM Machine α) : Prop :=
  ∀ m : Machine, m.calls ≤ (work.run m).2.calls ∧
    ∀ n progress, (work.run m).2.calls ≤ n →
      work.run (m.cutAt n progress) = ((work.run m).1, (work.run m).2.cutAt n progress)

theorem heedsCalls : OfFileWork @HeedsCalls where
  pure a m := ⟨Nat.le_refl m.calls, fun _ _ _ => rfl⟩
  bind {_ _ work _} hw hf m := by
    obtain ⟨hle, hcut⟩ := hw m
    obtain ⟨hle', hcut'⟩ := hf (work.run m).1 (work.run m).2
    rw [run_bind]
    refine ⟨Nat.le_trans hle hle', fun n progress hn => ?_⟩
    rw [run_bind, hcut n progress (Nat.le_trans hle' hn)]
    exact hcut' n progress hn
  call {_ path result broken} m := by
    have hcalls : m.calls ≤ ((Machine.call path result broken).run.run m).2.calls := by
      rw [run_call]
      split
      · exact Nat.le_refl _
      · split <;> exact Nat.le_succ _
    refine ⟨hcalls, fun n progress hn => ?_⟩
    rw [run_call] at hn ⊢
    rw [run_call]
    split
    · rfl
    · next hnull =>
        have hcall : m.calls < n := by
          rw [if_neg hnull] at hn
          split at hn <;> exact hn
        have htrouble : (m.cutAt n progress).trouble (m.cutAt n progress).calls = m.trouble m.calls :=
          if_pos hcall
        rw [htrouble]
        cases m.trouble m.calls <;> cases hresult : result m.disk m.folder <;>
          · simp only [Machine.cutAt, hresult]
  look hf hfiles m := by
    rw [runT_bind_ok (runT_get m)]
    refine ⟨(hf m m).1, fun n progress hn => ?_⟩
    rw [runT_bind_ok (runT_get _), hfiles (m.cutAt n progress) m rfl rfl]
    exact (hf m m).2 n progress hn

end SuiteAudit
