import SuiteAudit.Proofs.Refactoring.Replacing
import SuiteAudit.Proofs.Run.BatchTime
import SuiteAudit.Run.Pipeline

/-! # Work on files

The workers of a run leave the clock alone (`leavesClock_fileWorker`, `leavesClock_applyWorker`),
and what they give for a file names that file (`namesFiles_fileWorker`).  So the results of a batch,
its failures and the files that it skipped are together its files (`Batch.Accounted.perm`).  Work
that reads files and the clock leaves every file as it was: the machine behind it differs in the
number of its calls and readings alone (`OnlyReads`), also behind the batches of all phases that
analyse files (`RunState.onlyReads_batch`). -/

namespace SuiteAudit

variable {β : Type}

/-! ### Workers -/

/-- A result of a worker names the file that it is for. -/
def NamesFiles (worker : Worker β) (pathOf : β → Text) : Prop :=
  ∀ path m b, ((worker path).run m).1 = .ok b → pathOf b = path

theorem Composes.readSource {P : (α : Type) → StateM Machine α → Prop} (h : Composes P)
    {path : Text} (hread : P _ (Machine.readFile path).run) : P _ (readSource path) := by
  refine h.bind (h.read hread) fun r => ?_
  cases r with
  | ok file => exact h.pure _
  | error e => exact h.pure _

theorem Composes.fileWorker {P : (α : Type) → StateM Machine α → Prop} (h : Composes P)
    {path : Text} (hread : P _ (Machine.readFile path).run) (f : SourceFile → Except Text β) :
    P _ (fileWorker f path) := by
  refine h.bind (h.readSource hread) fun r => ?_
  cases r with
  | ok file => exact h.pure _
  | error text => exact h.pure _

theorem leavesClock_fileWorker (f : SourceFile → Except Text β) (path : Text) :
    LeavesClock (fileWorker f path) :=
  leavesClock.fileWorker leavesClock.call f

theorem leavesClock_applyWorker (thresholds : Thresholds) (candidates : Table Text Proposal)
    (path : Text) : LeavesClock (RunState.applyWorker thresholds candidates path) := by
  unfold RunState.applyWorker
  split
  · exact leavesClock.bind (leavesClock.apply thresholds _) fun r => leavesClock.pure _
  · exact leavesClock.pure _

theorem path_of_ofBytes {path : Text} {bytes : Bytes} {file : SourceFile}
    (h : SourceFile.ofBytes path bytes = .ok file) : file.path = path := by
  unfold SourceFile.ofBytes at h
  split at h
  · have hfile := Except.ok.inj h
    rw [← hfile]
    rfl
  · cases h

/-- A file that was read has the path that it was read from. -/
theorem path_of_read {path : Text} {m m' : Machine} {file : SourceFile}
    (h : (SourceFile.read path).run.run m = (.ok file, m')) : file.path = path := by
  obtain ⟨bytes, m₁, -, hbytes⟩ := exists_of_runT_bind h
  split at hbytes
  · next read hread =>
      have hfile : read = file := Except.ok.inj (congrArg Prod.fst hbytes)
      rw [← hfile]
      exact path_of_ofBytes hread
  · cases hbytes

theorem path_of_readSource {path : Text} {m : Machine} {file : SourceFile}
    (h : ((readSource path).run m).1 = .ok file) : file.path = path := by
  unfold readSource at h
  rw [run_bind] at h
  generalize hr : (SourceFile.read path).run.run m = r at h
  obtain ⟨_ | read, m'⟩ := r
  · cases h
  · have hfile : read = file := Except.ok.inj h
    rw [← hfile]
    exact path_of_read hr

theorem namesFiles_fileWorker {f : SourceFile → Except Text β} {pathOf : β → Text}
    (hf : ∀ file b, f file = .ok b → pathOf b = file.path) : NamesFiles (fileWorker f) pathOf := by
  intro path m b h
  unfold fileWorker at h
  rw [run_bind] at h
  cases hr : ((readSource path).run m).1 with
  | error text => rw [hr] at h; cases h
  | ok file =>
      rw [hr] at h
      rw [← path_of_readSource hr]
      exact hf file b h

/-! ### The files that results name -/

theorem Proposal.path_of_ofText {content path : Text} {context : Context} {p : Proposal}
    (h : Proposal.ofText content path context = .ok p) : p.filePath = path := by
  obtain ⟨e, -, rfl⟩ := Proposal.ofText_eq_ok_iff.mp h
  rfl

theorem Metrics.path_of_ofText {content path : Text} {thresholds : Thresholds} {metrics : Metrics}
    (h : Metrics.ofText content path thresholds = .ok metrics) : metrics.testFile = path := by
  obtain ⟨smells, -, -, rfl⟩ := Metrics.ofText_eq_ok_iff.mp h
  rfl

theorem eq_ok_of_mapError {ε ε' α : Type} {f : ε → ε'} {x : Except ε α} {a : α}
    (h : x.mapError f = .ok a) : x = .ok a := by
  cases x with
  | error e => cases h
  | ok b => exact congrArg Except.ok (Except.ok.inj h)

theorem path_of_proposeFor {file : SourceFile} {p : Proposal} (h : proposeFor file = .ok p) :
    p.filePath = file.path := Proposal.path_of_ofText (eq_ok_of_mapError h)

theorem path_of_measure {thresholds : Thresholds} {file : SourceFile} {metrics : Metrics}
    (h : measure thresholds file = .ok metrics) : metrics.testFile = file.path :=
  Metrics.path_of_ofText (eq_ok_of_mapError h)

theorem path_of_checkQuality {file : SourceFile} {report : QualityReport}
    (h : checkQuality file = .ok report) : report.filePath = file.path := by
  have hreport := Except.ok.inj h
  rw [← hreport]
  rfl

theorem path_of_describeFile {time : Timestamp} {file : SourceFile} {doc : Document}
    (h : describeFile time file = .ok doc) : doc.filePath = file.path := by
  have hdoc := Except.ok.inj h
  rw [← hdoc]
  rfl

/-! ### The files of a batch -/

/-- Answers that name their files are results and failures for them. -/
theorem perm_ofAnswers {pathOf : β → Text} (stage : Stage)
    {answered : List (Text × Except Text β)} (skipped : List Text)
    (h : ∀ p ∈ answered, ∀ b, p.2 = .ok b → pathOf b = p.1) :
    let b := BatchOutcome.ofAnswers stage answered skipped
    (b.results.map pathOf ++ b.failures.map (·.filePath)).Perm (answered.map Prod.fst) := by
  induction answered with
  | nil => exact .nil
  | cons p answered ih =>
      have hrest := ih fun q hq => h q (List.mem_cons_of_mem p hq)
      obtain ⟨path, _ | b⟩ := p
      · exact List.perm_middle.trans (hrest.cons path)
      · have hpath : pathOf b = path := h _ List.mem_cons_self b rfl
        rw [← hpath]
        exact hrest.cons (pathOf b)

theorem stage_of_mem_ofAnswers {stage : Stage} {answered : List (Text × Except Text β)}
    {skipped : List Text} {f : FileFailure}
    (h : f ∈ (BatchOutcome.ofAnswers stage answered skipped).failures) : f.stage = stage := by
  obtain ⟨p, -, hp⟩ := List.mem_filterMap.mp h
  split at hp
  · cases hp
  · exact congrArg FileFailure.stage (Option.some.inj hp).symm

namespace Batch.Accounted

variable {stage : Stage} {worker : Worker β} {deadline? : Option Rat} {paths : List Text}
  {m : Machine} {r : BatchOutcome β × Machine} {answered : List (Text × Except Text β)}

/-- The results of a batch, its failures and what it skipped are its files. -/
theorem perm {pathOf : β → Text} (h : Accounted stage worker deadline? paths m r answered)
    (hw : NamesFiles worker pathOf) :
    (r.1.results.map pathOf ++ r.1.failures.map (·.filePath) ++ r.1.skipped).Perm paths := by
  have hnames : ∀ p ∈ answered, ∀ b, p.2 = .ok b → pathOf b = p.1 := by
    intro p hp b hb
    obtain ⟨m', ha⟩ := h.answers p hp
    exact hw p.1 m' b (ha.trans hb)
  have hperm := (perm_ofAnswers stage r.1.skipped hnames).append_right r.1.skipped
  rw [← h.outcome_eq, h.files_eq] at hperm
  exact hperm

theorem stage_of_mem_failures (h : Accounted stage worker deadline? paths m r answered)
    {f : FileFailure} (hf : f ∈ r.1.failures) : f.stage = stage := by
  rw [h.outcome_eq] at hf
  exact stage_of_mem_ofAnswers hf

end Batch.Accounted
/-! ### Work that only reads -/

variable {α : Type}

/-- One machine is another one after some calls and readings, with the same files. -/
def Machine.SameFiles (m m' : Machine) : Prop :=
  ∃ calls readings, m' = { m with calls := calls, readings := readings }

theorem Machine.SameFiles.refl (m : Machine) : m.SameFiles m := ⟨m.calls, m.readings, rfl⟩

theorem Machine.SameFiles.trans {m m' m'' : Machine} (h : m.SameFiles m') (h' : m'.SameFiles m'') :
    m.SameFiles m'' := by
  obtain ⟨_, _, rfl⟩ := h
  obtain ⟨calls, readings, rfl⟩ := h'
  exact ⟨calls, readings, rfl⟩

/-- Work ends with the files as they were. -/
def OnlyReads (work : StateM Machine α) : Prop :=
  ∀ m : Machine, m.SameFiles (work.run m).2

theorem onlyReads : Composes @OnlyReads where
  pure _ m := .refl m
  bind hw hf m := (hw m).trans (hf _ _)

theorem onlyReads_readFile (path : Text) : OnlyReads (Machine.readFile path).run := by
  intro m
  unfold Machine.readFile
  rw [run_call]
  split
  · exact .refl m
  · cases m.disk.readFile m.folder path with
    | error fault => cases m.trouble m.calls <;> exact ⟨m.calls + 1, m.readings, rfl⟩
    | ok bytes => cases m.trouble m.calls <;> exact ⟨m.calls + 1, m.readings, rfl⟩

theorem onlyReads_fileWorker {β : Type} (f : SourceFile → Except Text β) (path : Text) :
    OnlyReads (fileWorker f path) :=
  onlyReads.fileWorker (onlyReads_readFile path) f

theorem onlyReads_timeIsUp (deadline? : Option Rat) : OnlyReads (Batch.timeIsUp deadline?) := by
  intro m
  cases deadline? with
  | none => exact .refl m
  | some deadline => exact ⟨m.calls, m.readings + 1, rfl⟩

/-- A batch of calls that only read leaves the files as they were. -/
theorem RunState.onlyReads_batch {β : Type} (s : RunState) (stage : Stage) {worker : Worker β}
    (hw : ∀ path, OnlyReads (worker path)) (paths : List Text) :
    OnlyReads (s.batch stage worker paths) := by
  intro m
  have hkeeps : Batch.Keeps worker s.deadline? fun _ m' => m.SameFiles m' := {
    call := fun path _ m' h => h.trans (hw path m')
    turn := fun _ m' h => h.trans (onlyReads_timeIsUp s.deadline? m') }
  obtain ⟨made, rest, h⟩ :=
    Batch.exists_ran stage s.order s.options.maxWorkers hkeeps paths (.refl m)
  exact h.machine

end SuiteAudit
