import SuiteAudit.Proofs.Run.Accounts

/-! # Runs account for their files

A run accounts for every file that was found in every phase that takes on all of them: as a result,
as a failure of the phase or as skipped (`Options.accounts_for_files`).  Its failures are those of
the discovery and then those of its phases in their order, and the comprehensive report lists
them. -/

namespace SuiteAudit

namespace RunState

/-! ### The course of a run -/

theorem nodup_route (options : Options) : options.route.Nodup := List.Nodup.filter _ (by decide)

/-- A state at the start of a run. -/
def fresh (options : Options) (startedAt : Timestamp) (order : Completion)
    (deadline? : Option Rat) : RunState := { options, startedAt, order, deadline? := deadline? }

/-- The state with what was found. -/
def withFiles (s : RunState) (found : Discovered) : RunState :=
  { s with files := found.files, failures := s.failures ++ found.failures }

theorem totalFiles?_fresh {options : Options} {startedAt : Timestamp} {order : Completion}
    {deadline? : Option Rat} (found : Discovered) (phase : Phase) :
    ((fresh options startedAt order deadline?).withFiles found).totalFiles? phase = none := by
  cases phase <;> rfl

theorem run_start (options : Options) (startedAt : Timestamp) (order : Completion) (m : Machine) :
    ∃ deadline? m₀, (start options startedAt order).run m =
      (fresh options startedAt order deadline?, m₀) ∧ m.Later m₀ ∧
      m₀.disk = m.disk ∧ m₀.folder = m.folder ∧ m₀.unlisted = m.unlisted ∧
      (options.timeBudget? = none → deadline? = none) := by
  unfold start
  split
  · next budget hbudget =>
      refine ⟨_, _, rfl, ⟨rfl, Nat.le_succ _⟩, rfl, rfl, rfl, fun h => ?_⟩
      rw [h] at hbudget
      cases hbudget
  · exact ⟨none, m, rfl, .refl m, rfl, rfl, rfl, fun _ => rfl⟩

/-- A run goes through its phases with the files that were found. -/
theorem run_finish {found : Discovered} (s : RunState) (m : Machine)
    (hfound : discoverListed (FileFilter.of s.options.endings s.options.excluded) m.disk m.unlisted
      m.folder s.options.testDirectory = .ok found) (hfiles : found.files ≠ []) :
    s.finish.run.run m = if s.options.outputDirectory.elem '\x00' then (.error .nullCharacter, m)
      else let r := (s.withFiles found).runPhases.run m; (.ok r.1, r.2) := by
  unfold finish discoverFiles
  simp only [runT_bind, runT_get, hfound, runT_pure]
  rw [if_neg (by simpa using hfiles)]
  split
  · rfl
  · rfl

/-- The result of a run that was not aborted. -/
theorem run_runIn (options : Options) (order : Completion) (startedAt : Timestamp) (m : Machine)
    {s : RunState} {m' : Machine}
    (h : (start options startedAt order >>= fun s => s.finish.run).run m = (.ok s, m'))
    (herrors : ∀ e ∈ s.errors, RunSummary.isAbort e = false) :
    (options.runIn order startedAt).run.run m = (.ok (s.summary []), m') := by
  have habortion : (s.summary []).abortion? = none := by
    refine List.find?_eq_none.mpr fun e he => ?_
    rw [herrors e he]
    exact Bool.false_ne_true
  rw [run_bind] at h
  unfold Options.runIn
  simp only [runT_bind, runT_lift, runT_adapt]
  rw [h]
  simp only [Except.mapError, habortion]
  rfl

theorem phase_eq_of_stage {p q : Phase} {stage : Stage} (hp : p.stage? = some stage)
    (hq : q.stage? = some stage) : p = q := by
  cases p <;> cases hp <;> cases q <;> first | rfl | cases hq

/-- The failures of a phase have no other stage. -/
theorem PhaseLog.stage_ne {l : PhaseLog} {phase : Phase} {f : FileFailure}
    (hstage : ∀ f ∈ l.failures, l.phase.stage? = some f.stage) (hne : l.phase ≠ phase)
    (hf : f ∈ l.failures) : phase.stage? ≠ some f.stage :=
  fun hsame => hne (phase_eq_of_stage (hstage f hf) hsame)

theorem filter_stage_eq_nil {phase : Phase} {failures : List FileFailure}
    (h : ∀ f ∈ failures, phase.stage? ≠ some f.stage) :
    failures.filter (fun f => phase.stage? = some f.stage) = [] := by
  refine List.filter_eq_nil_iff.mpr fun f hf => ?_
  rw [decide_eq_true_eq]
  exact h f hf

/-- The failures of a phase are those of its stage. -/
theorem filter_failures_eq {l : PhaseLog} {log : List PhaseLog}
    (hstage : ∀ l ∈ log, ∀ f ∈ l.failures, l.phase.stage? = some f.stage)
    (hnodup : (log.map (·.phase)).Nodup) (hl : l ∈ log) :
    (log.flatMap (·.failures)).filter (fun f => l.phase.stage? = some f.stage) = l.failures := by
  induction log with
  | nil => cases hl
  | cons l' log ih =>
      rw [List.map_cons, List.nodup_cons] at hnodup
      obtain ⟨hnew, hnodup⟩ := hnodup
      have hrest := fun l hl => hstage l (List.mem_cons_of_mem l' hl)
      have hfirst := hstage l' List.mem_cons_self
      rw [List.flatMap_cons, List.filter_append]
      rcases List.mem_cons.mp hl with rfl | hl
      · have hown : l.failures.filter (fun f => l.phase.stage? = some f.stage) = l.failures := by
          refine List.filter_eq_self.mpr fun f hf => ?_
          rw [decide_eq_true_eq]
          exact hfirst f hf
        have hother : ∀ f ∈ log.flatMap (·.failures), l.phase.stage? ≠ some f.stage := by
          intro f hf
          obtain ⟨l'', hl'', hfl⟩ := List.mem_flatMap.mp hf
          have hne : l''.phase ≠ l.phase := by
            intro h
            rw [← h] at hnew
            exact hnew (List.mem_map_of_mem hl'')
          exact PhaseLog.stage_ne (hrest l'' hl'') hne hfl
        rw [hown, filter_stage_eq_nil hother, List.append_nil]
      · have hne : l'.phase ≠ l.phase := by
          intro h
          rw [h] at hnew
          exact hnew (List.mem_map_of_mem hl)
        have hother : ∀ f ∈ l'.failures, l.phase.stage? ≠ some f.stage :=
          fun f hf => PhaseLog.stage_ne hfirst hne hf
        rw [filter_stage_eq_nil hother, List.nil_append, ih hrest hnodup hl]

end RunState

/-- How a run accounts for what was found, by what its phases recorded and the files with
results. -/
structure RunSummary.AccountsFor (run : RunSummary) (options : Options) (found : Discovered)
    (log : List RunState.PhaseLog) (resultFiles : Phase → List Text) : Prop where
  phases : log.map (·.phase) = options.route
  discovered : run.filesDiscovered = found.files.length
  /-- Each file has a result, a failure or was skipped. -/
  results : ∀ l ∈ log, l.phase.takesAll = true →
    run.totalFiles? l.phase = some ((resultFiles l.phase).length : Int) ∧
    (resultFiles l.phase ++ l.failures.map (·.filePath) ++ l.skipped).Perm found.files
  disabled : ∀ phase, phase ∉ options.route → run.totalFiles? phase = none
  unlimited : options.timeBudget? = none → ∀ l ∈ log, l.phase.takesAll = true →
    ∃ total, run.totalFiles? l.phase = some total ∧ total + l.failures.length = run.filesDiscovered
  failures : run.failures = found.failures ++ log.flatMap (·.failures)
  of_stage : ∀ l ∈ log, l.failures = run.failures.filter fun f => l.phase.stage? = some f.stage
  skipped : run.skippedFiles = (log.flatMap (·.skipped)).eraseDups
  growing : log.Pairwise fun l l' =>
    l.phase.takesAll = true → l'.phase.takesAll = true → l.skipped ⊆ l'.skipped

namespace RunState

/-- What the phases of a run recorded accounts for its files. -/
theorem Tallied.accountsFor {found : Discovered} {s₀ s : RunState} {m₀ m : Machine}
    {log : List PhaseLog} (h : Tallied s₀ m₀ log (s, m))
    (hphases : log.map (·.phase) = s₀.options.route) (hgoes : m₀.ClockGoesOn)
    (hbudget : s₀.options.timeBudget? = none → s₀.deadline? = none)
    (hfiles : s₀.files = found.files) (hfailures : s₀.failures = found.failures)
    (hstage : ∀ f ∈ found.failures, f.stage = .discovery) (hskipped : s₀.skipped = [])
    (hfresh : ∀ phase, s₀.totalFiles? phase = none) :
    (s.summary []).AccountsFor s₀.options found log s.resultFiles := by
  have hall : s.failures = found.failures ++ log.flatMap (·.failures) := by
    rw [← hfailures]
    exact h.failures_eq
  have hresults : ∀ l ∈ log, l.phase.takesAll = true →
      s.totalFiles? l.phase = some ((s.resultFiles l.phase).length : Int) ∧
      (s.resultFiles l.phase ++ l.failures.map (·.filePath) ++ l.skipped).Perm found.files := by
    rw [← hfiles]
    exact h.results
  have hlength : s.files.length = found.files.length := congrArg List.length (h.files_eq.trans hfiles)
  refine {
    phases := hphases
    discovered := congrArg Int.ofNat hlength
    results := hresults
    disabled := fun phase hphase => ?_
    unlimited := fun hnone l hl htakes => ?_
    failures := hall
    of_stage := fun l hl => ?_
    skipped := ?_
    growing := h.growing hgoes }
  · rw [← hphases] at hphase
    exact (h.others phase hphase).2.trans (hfresh phase)
  · obtain ⟨htotal, hperm⟩ := hresults l hl htakes
    refine ⟨_, htotal, ?_⟩
    have hcount := hperm.length_eq
    rw [h.in_time (hbudget hnone) l hl] at hcount
    simp only [List.length_append, List.length_map, List.length_nil] at hcount
    change ((s.resultFiles l.phase).length : Int) + l.failures.length = (s.files.length : Int)
    omega
  · have hnodup : (log.map (·.phase)).Nodup := by
      rw [hphases]
      exact nodup_route s₀.options
    have hdiscovered : ∀ f ∈ found.failures, l.phase.stage? ≠ some f.stage := by
      intro f hf
      rw [hstage f hf]
      cases l.phase <;> intro h <;> cases h
    change l.failures = s.failures.filter _
    rw [hall, List.filter_append, filter_stage_eq_nil hdiscovered, List.nil_append,
      filter_failures_eq h.stage hnodup hl]
  · change s.skipped.eraseDups = _
    rw [h.skipped_eq, hskipped, List.nil_append]

/-- What becomes of a run when its files were found. -/
theorem exists_accounts {options : Options} {found : Discovered} {deadline? : Option Rat}
    (startedAt : Timestamp) (order : Completion) (m₀ : Machine) (hgoes : m₀.ClockGoesOn)
    (hbudget : options.timeBudget? = none → deadline? = none)
    (hstage : ∀ f ∈ found.failures, f.stage = .discovery) :
    let r := ((fresh options startedAt order deadline?).withFiles found).runPhases.run m₀
    (∀ e ∈ r.1.errors, RunSummary.isAbort e = false) ∧
      ∃ log, (r.1.summary []).AccountsFor options found log r.1.resultFiles := by
  obtain ⟨log, hphases, htallied⟩ := exists_tallied options.route
    (tallied_nil ((fresh options startedAt order deadline?).withFiles found) m₀)
    (nodup_route options)
  obtain ⟨errors, heq, hall⟩ := htallied.errors
  refine ⟨fun e he => hall e ?_, log, htallied.accountsFor hphases hgoes hbudget rfl rfl hstage rfl
    (totalFiles?_fresh found)⟩
  change e ∈ ((options.route.foldlM after _).run m₀).1.errors at he
  rwa [heq] at he

end RunState

def newYear : Timestamp := { year := 2024, month := 1, day := 1 }

theorem realLocation_of_realWalk {d : Disk} {folder place : Location} {path : Text}
    (hnull : path.elem '\x00' = false)
    (h : d.realWalk (d.length + 1) [] (Disk.startOf folder path) (Disk.plainNames path) =
      .ok place) : d.realLocation folder path = .ok place := by
  unfold Disk.realLocation
  rw [if_neg (by simpa using hnull), h]

/-- What is found when the selected files stand in order. -/
theorem discoverListed_of_sorted {f : FileFilter} {d : Disk}
    {unlisted : Location → Option DiskFault} {folder root : Location} {path : Text}
    {found : Discovered} (hroot : d.realLocation folder path = .ok root)
    (hfolder : d.folderAt root = .ok true)
    (hselected : ((d.filter fun p => f.selects unlisted root p.1 p.2).map fun p => p.1.path) =
      found.files)
    (hsorted : found.files.Pairwise fun a b => Text.le a b)
    (hfailures : f.failuresBelow d unlisted root = found.failures) :
    discoverListed f d unlisted folder path = .ok found := by
  have hfiles : f.filesBelow d unlisted root = found.files := by
    unfold FileFilter.filesBelow
    rw [hselected]
    exact List.mergeSort_of_pairwise hsorted
  unfold discoverListed
  rw [hroot]
  simp only [Except.mapError, bind, Except.bind, hfolder, hfiles, hfailures]
  rfl

end SuiteAudit
