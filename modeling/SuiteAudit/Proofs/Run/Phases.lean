import SuiteAudit.Proofs.Run.FileWork

/-! # What a phase leaves

`RunState.Advances` says all that a phase does to the state of a run: its failures and the files
that it skipped stand behind those of the phases before, its own report is on its files, and no
other report changes.  Each phase advances the run so (`RunState.exists_advances`): one that takes
on all files accounts for each of them, and once the time is up it skips them all. -/

namespace SuiteAudit

/-! ### Phases and their files -/

/-- The stage under which a phase records its failures. -/
def Phase.stage? : Phase → Option Stage
  | refactor => some .refactoring
  | apply => some .apply
  | maintainability => some .maintainability
  | quality => some .quality
  | documentation => some .documentation
  | report => none

/-- Whether a phase takes on all files of a run. -/
def Phase.takesAll : Phase → Bool
  | apply | report => false
  | _ => true

/-- How many files have a result of a phase, if there is a summary of it. -/
def RunSummary.totalFiles? (run : RunSummary) : Phase → Option Int
  | .refactor => run.refactoring?.map (·.totalFiles)
  | .maintainability => run.maintainability?.map (·.totalFiles)
  | .quality => run.quality?.map (·.totalFiles)
  | .documentation => run.documentation?.map (·.totalFiles)
  | .apply | .report => none

namespace RunState

/-- The files that have a result in the report of a phase. -/
def resultFiles (s : RunState) : Phase → List Text
  | .refactor => (s.refactoring?.map fun r => r.proposals.map (·.filePath)).getD []
  | .maintainability => (s.maintainability?.map fun r => r.files.map (·.testFile)).getD []
  | .quality => (s.quality?.map fun r => r.reports.map (·.filePath)).getD []
  | .documentation => (s.documentation?.map fun r => r.documents.map (·.filePath)).getD []
  | .apply | .report => []

/-- How many files have a result of a phase, if there is a report of it. -/
def totalFiles? (s : RunState) (phase : Phase) : Option Int := (s.summary []).totalFiles? phase

/-- What a phase recorded: its failures and the files that it skipped. -/
structure PhaseLog where
  phase : Phase
  failures : List FileFailure := []
  skipped : List Text := []

/-- What a phase does to the state of a run on a machine. -/
structure Advances (s : RunState) (m : Machine) (l : PhaseLog) (r : RunState × Machine) : Prop where
  options_eq : r.1.options = s.options
  deadline_eq : r.1.deadline? = s.deadline?
  files_eq : r.1.files = s.files
  failures_eq : r.1.failures = s.failures ++ l.failures
  skipped_eq : r.1.skipped = s.skipped ++ l.skipped
  errors : ∃ errors, r.1.errors = s.errors ++ errors ∧ ∀ e ∈ errors, RunSummary.isAbort e = false
  stage : ∀ f ∈ l.failures, l.phase.stage? = some f.stage
  others : ∀ p, p ≠ l.phase →
    r.1.resultFiles p = s.resultFiles p ∧ r.1.totalFiles? p = s.totalFiles? p
  results : l.phase.takesAll = true →
    r.1.totalFiles? l.phase = some ((r.1.resultFiles l.phase).length : Int) ∧
    (r.1.resultFiles l.phase ++ l.failures.map (·.filePath) ++ l.skipped).Perm s.files
  later : m.Later r.2
  in_time : s.deadline? = none → l.skipped = []
  late : l.phase.takesAll = true → Batch.TimeUp s.deadline? m → l.skipped = s.files
  expired : m.ClockGoesOn → l.skipped ≠ [] → Batch.TimeUp s.deadline? r.2

/-! ### Writing artifacts -/

variable {s : RunState} {m : Machine} {phase : Phase}

theorem leavesClock_writeAll (output : Text) (artifacts : List Artifact) :
    LeavesClock (Artifact.writeAll output artifacts).run := by
  induction artifacts with
  | nil => exact leavesClock.pureT _
  | cons a rest ih =>
      exact leavesClock.bindT leavesClock.writeInto fun _ =>
        leavesClock.bindT ih fun _ => leavesClock.pureT _

theorem leavesClock_writeArtifacts (s : RunState) (phase : Phase) (artifacts : List Artifact) :
    LeavesClock (s.writeArtifacts phase artifacts) := by
  refine leavesClock.bind (leavesClock_writeAll _ _) fun r => ?_
  cases r with
  | ok paths => exact leavesClock.pure _
  | error e => exact leavesClock.pure _

theorem not_isAbort_phaseError (phase : Phase) (e : DiskError) :
    RunSummary.isAbort (phaseError phase.name e) = false := by
  cases phase <;> rfl

/-- Only artifacts and errors are added. -/
theorem exists_writeArtifacts (s : RunState) (phase : Phase) (artifacts : List Artifact)
    (m : Machine) : ∃ paths errors, ((s.writeArtifacts phase artifacts).run m).1 =
      { s with artifacts := s.artifacts ++ paths, errors := s.errors ++ errors } ∧
      ∀ e ∈ errors, RunSummary.isAbort e = false := by
  unfold writeArtifacts
  rw [run_bind]
  cases ((Artifact.writeAll s.options.outputDirectory artifacts).run.run m).1 with
  | ok paths =>
      refine ⟨paths, [], ?_, fun e he => by cases he⟩
      rw [List.append_nil]
      rfl
  | error e =>
      refine ⟨[], [phaseError phase.name e], ?_, fun t ht => ?_⟩
      · rw [List.append_nil]
        rfl
      · rw [List.mem_singleton.mp ht]
        exact not_isAbort_phaseError phase e

/-! ### Phases on all files -/

/-- A state with the report of a phase on some files. -/
structure Reports (s : RunState) (phase : Phase) (files : List Text) (s' : RunState) : Prop where
  options_eq : s'.options = s.options
  deadline_eq : s'.deadline? = s.deadline?
  files_eq : s'.files = s.files
  failures_eq : s'.failures = s.failures
  skipped_eq : s'.skipped = s.skipped
  errors_eq : s'.errors = s.errors
  resultFiles_eq : s'.resultFiles phase = files
  totalFiles_eq : s'.totalFiles? phase = some (files.length : Int)
  others : ∀ p, p ≠ phase → s'.resultFiles p = s.resultFiles p ∧ s'.totalFiles? p = s.totalFiles? p

/-- What a batch could not do, artifacts and errors are in no report. -/
theorem same_reports {β : Type} (s : RunState) (b : BatchOutcome β) (paths errors : List Text)
    (p : Phase) :
    let s' := { s.withBatch b with
      artifacts := (s.withBatch b).artifacts ++ paths, errors := (s.withBatch b).errors ++ errors }
    s'.resultFiles p = s.resultFiles p ∧ s'.totalFiles? p = s.totalFiles? p := by
  cases p <;> exact ⟨rfl, rfl⟩

/-- A phase that runs a batch over all files and then writes its report. -/
theorem advances_of_batch {β : Type} {worker : Worker β} {pathOf : β → Text} {stage : Stage}
    (hstage : phase.stage? = some stage) (hclock : ∀ path, LeavesClock (worker path))
    (hnames : NamesFiles worker pathOf) {reported : BatchOutcome β → RunState}
    (hreports : ∀ b, s.Reports phase (b.results.map pathOf) (reported b))
    (artifacts : BatchOutcome β → List Artifact) (m : Machine) :
    ∃ l, l.phase = phase ∧ Advances s m l ((s.batch stage worker s.files >>= fun b =>
      ((reported b).withBatch b).writeArtifacts phase (artifacts b)).run m) := by
  obtain ⟨answered, hb⟩ := Batch.exists_accounted hclock stage s.options.maxWorkers s.deadline?
    s.order s.files m
  rw [run_bind]
  unfold batch
  generalize (Batch.run stage worker s.options.maxWorkers s.deadline? s.order s.files).run m = r
    at hb ⊢
  obtain ⟨b, m'⟩ := r
  obtain ⟨paths, errors, hwrote, herrors⟩ :=
    exists_writeArtifacts ((reported b).withBatch b) phase (artifacts b) m'
  have hlater :=
    (leavesClock_writeArtifacts ((reported b).withBatch b) phase (artifacts b)).later m'
  generalize (((reported b).withBatch b).writeArtifacts phase (artifacts b)).run m' = t
    at hwrote hlater ⊢
  obtain ⟨s', m''⟩ := t
  obtain rfl : s' = _ := hwrote
  have hr := hreports b
  have hsame := same_reports (reported b) b paths errors
  refine ⟨⟨phase, b.failures, b.skipped⟩, rfl, {
    options_eq := hr.options_eq
    deadline_eq := hr.deadline_eq
    files_eq := hr.files_eq
    failures_eq := congrArg (· ++ b.failures) hr.failures_eq
    skipped_eq := congrArg (· ++ b.skipped) hr.skipped_eq
    errors := ⟨errors, congrArg (· ++ errors) hr.errors_eq, herrors⟩
    stage := fun f hf => ?_
    others := fun p hp => ?_
    results := fun _ => ?_
    later := hb.later.trans hlater
    in_time := hb.in_time
    late := fun _ => hb.late
    expired := fun hgoes hne => ?_ }⟩
  · rw [hb.stage_of_mem_failures hf]
    exact hstage
  · obtain ⟨hfiles, htotal⟩ := hr.others p hp
    exact ⟨(hsame p).1.trans hfiles, (hsame p).2.trans htotal⟩
  · obtain ⟨hfiles, htotal⟩ := hsame phase
    rw [hr.resultFiles_eq] at hfiles
    rw [hr.totalFiles_eq] at htotal
    have hperm := hb.perm hnames
    rw [← hfiles] at htotal hperm
    exact ⟨htotal, hperm⟩
  · exact (hb.expired hgoes hne).later (hb.later.clockGoesOn hgoes) hlater

theorem exists_advances_refactor (s : RunState) (m : Machine) :
    ∃ l, l.phase = .refactor ∧ Advances s m l (s.refactor.run m) := by
  have hreports : ∀ b : BatchOutcome Proposal, s.Reports .refactor (b.results.map (·.filePath))
      { s with refactoring? := some (ProposalReport.ofProposals b.results b.failures) } := by
    intro b
    refine ⟨rfl, rfl, rfl, rfl, rfl, rfl, rfl, ?_, ?_⟩
    · simp [totalFiles?, RunSummary.totalFiles?, summary, ProposalReport.ofProposals]
    · intro p hp
      cases p with
      | refactor => exact absurd rfl hp
      | _ => exact ⟨rfl, rfl⟩
  exact advances_of_batch rfl (leavesClock_fileWorker _)
    (namesFiles_fileWorker fun _ _ => path_of_proposeFor) hreports
    (fun b => (ProposalReport.ofProposals b.results b.failures).artifacts s.startedAt) m

theorem exists_advances_assess (s : RunState) (m : Machine) :
    ∃ l, l.phase = .maintainability ∧ Advances s m l (s.assess.run m) := by
  have hreports : ∀ b : BatchOutcome Metrics,
      s.Reports .maintainability (b.results.map (·.testFile)) { s with
        maintainability? :=
          some (MaintainabilityReport.ofFiles s.options.thresholds b.results b.failures) } := by
    intro b
    refine ⟨rfl, rfl, rfl, rfl, rfl, rfl, rfl, ?_, ?_⟩
    · simp [totalFiles?, RunSummary.totalFiles?, summary, MaintainabilityReport.ofFiles]
    · intro p hp
      cases p with
      | maintainability => exact absurd rfl hp
      | _ => exact ⟨rfl, rfl⟩
  exact advances_of_batch rfl (leavesClock_fileWorker _)
    (namesFiles_fileWorker fun _ _ => path_of_measure) hreports
    (fun b => (MaintainabilityReport.ofFiles s.options.thresholds b.results b.failures).artifacts
      s.startedAt) m

theorem exists_advances_checkStandards (s : RunState) (m : Machine) :
    ∃ l, l.phase = .quality ∧ Advances s m l (s.checkStandards.run m) := by
  have hreports : ∀ b : BatchOutcome QualityReport, s.Reports .quality (b.results.map (·.filePath))
      { s with quality? := some (QualitySuiteReport.ofReports .default b.results b.failures) } := by
    intro b
    refine ⟨rfl, rfl, rfl, rfl, rfl, rfl, rfl, ?_, ?_⟩
    · simp [totalFiles?, RunSummary.totalFiles?, summary, QualitySuiteReport.ofReports]
    · intro p hp
      cases p with
      | quality => exact absurd rfl hp
      | _ => exact ⟨rfl, rfl⟩
  exact advances_of_batch rfl (leavesClock_fileWorker _)
    (namesFiles_fileWorker fun _ _ => path_of_checkQuality) hreports
    (fun b => (QualitySuiteReport.ofReports .default b.results b.failures).artifacts .default
      s.startedAt) m

theorem exists_advances_document (s : RunState) (m : Machine) :
    ∃ l, l.phase = .documentation ∧ Advances s m l (s.document.run m) := by
  have hreports : ∀ b : BatchOutcome Document, s.Reports .documentation (b.results.map (·.filePath))
      { s with documentation? := some (DocumentReport.ofDocuments b.results b.failures) } := by
    intro b
    refine ⟨rfl, rfl, rfl, rfl, rfl, rfl, rfl, ?_, ?_⟩
    · simp [totalFiles?, RunSummary.totalFiles?, summary, DocumentReport.ofDocuments]
    · intro p hp
      cases p with
      | documentation => exact absurd rfl hp
      | _ => exact ⟨rfl, rfl⟩
  exact advances_of_batch rfl (leavesClock_fileWorker _)
    (namesFiles_fileWorker fun _ _ => path_of_describeFile) hreports
    (fun b => (DocumentReport.ofDocuments b.results b.failures).artifacts) m

/-! ### The other phases -/

/-- A phase that takes on no file. -/
theorem advances_of_no_files {s' : RunState} {m' : Machine} (hphase : phase.takesAll = false)
    {paths errors : List Text}
    (hs : s' = { s with artifacts := s.artifacts ++ paths, errors := s.errors ++ errors })
    (herrors : ∀ e ∈ errors, RunSummary.isAbort e = false) (hlater : m.Later m') :
    Advances s m ⟨phase, [], []⟩ (s', m') := by
  subst hs
  exact {
    options_eq := rfl
    deadline_eq := rfl
    files_eq := rfl
    failures_eq := (List.append_nil _).symm
    skipped_eq := (List.append_nil _).symm
    errors := ⟨errors, rfl, herrors⟩
    stage := fun f hf => by cases hf
    others := fun p _ => by cases p <;> exact ⟨rfl, rfl⟩
    results := fun h => by rw [hphase] at h; cases h
    later := hlater
    in_time := fun _ => rfl
    late := fun h => by rw [hphase] at h; cases h
    expired := fun _ h => absurd rfl h }

theorem exists_advances_writeReports (s : RunState) (m : Machine) :
    ∃ l, l.phase = .report ∧ Advances s m l (s.writeReports.run m) := by
  obtain ⟨paths, errors, hs, herrors⟩ :=
    exists_writeArtifacts s .report (s.reportArtifacts m.folder) m
  have hlater := (leavesClock_writeArtifacts s .report (s.reportArtifacts m.folder)).later m
  exact ⟨_, rfl, advances_of_no_files rfl hs herrors hlater⟩

/-- Proposals are applied to their files only, and no report changes. -/
theorem exists_advances_applyProposals (s : RunState) (m : Machine) :
    ∃ l, l.phase = .apply ∧ Advances s m l (s.applyProposals.run m) := by
  unfold applyProposals
  split
  · next =>
      have hs : s = { s with artifacts := s.artifacts ++ [], errors := s.errors ++ [] } := by
        rw [List.append_nil, List.append_nil]
      exact ⟨_, rfl, advances_of_no_files rfl hs (fun e he => by cases he) (.refl m)⟩
  · next r _ =>
      generalize Table.ofPairs ((Proposal.applicable r.proposals s.options.thresholds).map
        fun p => (p.filePath, p)) = candidates
      obtain ⟨answered, hb⟩ := Batch.exists_accounted
        (leavesClock_applyWorker s.options.thresholds candidates) .apply s.options.maxWorkers
        s.deadline? s.order candidates.keys m
      rw [run_bind]
      unfold batch
      generalize (Batch.run .apply (applyWorker s.options.thresholds candidates) s.options.maxWorkers
        s.deadline? s.order candidates.keys).run m = t at hb ⊢
      obtain ⟨b, m'⟩ := t
      exact ⟨⟨.apply, b.failures, b.skipped⟩, rfl, {
        options_eq := rfl
        deadline_eq := rfl
        files_eq := rfl
        failures_eq := rfl
        skipped_eq := rfl
        errors := ⟨[], (List.append_nil _).symm, fun e he => by cases he⟩
        stage := fun f hf => congrArg some (hb.stage_of_mem_failures hf).symm
        others := fun p _ => by cases p <;> exact ⟨rfl, rfl⟩
        results := fun h => by cases h
        later := hb.later
        in_time := hb.in_time
        late := fun h => by cases h
        expired := hb.expired }⟩

/-- What every phase does. -/
theorem exists_advances (s : RunState) (phase : Phase) (m : Machine) :
    ∃ l, l.phase = phase ∧ Advances s m l ((s.after phase).run m) := by
  cases phase with
  | refactor => exact exists_advances_refactor s m
  | apply => exact exists_advances_applyProposals s m
  | maintainability => exact exists_advances_assess s m
  | quality => exact exists_advances_checkStandards s m
  | documentation => exact exists_advances_document s m
  | report => exact exists_advances_writeReports s m

end RunState
end SuiteAudit
