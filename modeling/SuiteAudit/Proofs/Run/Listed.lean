import Mathlib
import SuiteAudit.Proofs.Run.FileWork
import SuiteAudit.Proofs.Run.WholeRun
import SuiteAudit.Proofs.Run.Writing

/-! # The artifacts that a run lists

A phase writes its artifacts as a group.  `WriteGroup` keeps what the phase was to write beside what
it wrote in full; the phase lists its group only when nothing is missing in it, and has an error
otherwise (`RunState.artifacts_after`).  Along the phases of a run this adds up: the artifacts of a
run are those of its unbroken groups, so all of them were written, and what it hides is just what a
broken group wrote before the write that failed (`Options.lists_unbroken_groups`).  A run does hide
such a file (`blockedReport.hides_guide`). -/

namespace SuiteAudit

/-- The artifacts that a phase is to write, and those of them that it writes in full. -/
structure WriteGroup where
  phase : Phase
  planned : List Text
  completed : List Text
  deriving DecidableEq

namespace WriteGroup

/-- A write of the group failed. -/
def isBroken (g : WriteGroup) : Bool := g.completed ≠ g.planned

/-- The artifacts of the group that the phase lists. -/
def listed (g : WriteGroup) : List Text := if g.isBroken then [] else g.completed

/-- An error that names the phase of the group. -/
def Explains (g : WriteGroup) (error : Text) : Prop :=
  ∃ e, error = RunState.phaseError g.phase.name e

theorem listed_sublist (g : WriteGroup) : g.listed.Sublist g.completed := by
  unfold listed
  split
  · exact List.nil_sublist _
  · exact List.Sublist.refl _

/-- A group hides nothing unless it is broken behind some write. -/
theorem listed_eq_iff (g : WriteGroup) :
    g.listed = g.completed ↔ g.isBroken = false ∨ g.completed = [] := by
  unfold listed
  cases g.isBroken with
  | false => simp
  | true => simp [eq_comm]

end WriteGroup

/-- Parts of the members of a list make a part of the whole. -/
theorem flatMap_sublist_of_sublist {α β : Type} {f g : α → List β} {l : List α}
    (h : ∀ a ∈ l, (f a).Sublist (g a)) : (l.flatMap f).Sublist (l.flatMap g) := by
  induction l with
  | nil => exact List.Sublist.refl _
  | cons a l ih =>
      obtain ⟨ha, hl⟩ := List.forall_mem_cons.mp h
      exact ha.append (ih hl)

/-- They are all of it only when each part is the whole member. -/
theorem flatMap_eq_iff_of_sublist {α β : Type} {f g : α → List β} {l : List α}
    (h : ∀ a ∈ l, (f a).Sublist (g a)) : l.flatMap f = l.flatMap g ↔ ∀ a ∈ l, f a = g a := by
  induction l with
  | nil => simp
  | cons a l ih =>
      obtain ⟨ha, hl⟩ := List.forall_mem_cons.mp h
      have hrest := flatMap_sublist_of_sublist hl
      rw [List.flatMap_cons, List.flatMap_cons, List.forall_mem_cons, ← ih hl]
      constructor
      · intro heq
        have hlength := congrArg List.length heq
        have hle := ha.length_le
        have hle' := hrest.length_le
        rw [List.length_append, List.length_append] at hlength
        exact ⟨ha.eq_of_length (by omega), hrest.eq_of_length (by omega)⟩
      · rintro ⟨h₁, h₂⟩
        rw [h₁, h₂]

namespace RunState

/-- The group that a phase writes. -/
def groupOf (s : RunState) (phase : Phase) (m : Machine) : WriteGroup :=
  let output := s.options.outputDirectory
  let r := (s.prepare phase).run m
  ⟨phase, Artifact.paths output r.1.2, Artifact.completed output r.1.2 r.2⟩

/-- The groups that some phases write one after the other. -/
def groups : List Phase → RunState → Machine → List WriteGroup
  | [], _, _ => []
  | phase :: rest, s, m =>
    s.groupOf phase m :: groups rest ((s.after phase).run m).1 ((s.after phase).run m).2

/-- A phase lists its group, or has an error when the group is broken. -/
theorem artifacts_after (s : RunState) (phase : Phase) (m : Machine) :
    ((s.after phase).run m).1.options = s.options ∧
      ((s.after phase).run m).1.artifacts = s.artifacts ++ (s.groupOf phase m).listed ∧
      ∃ errors, ((s.after phase).run m).1.errors = s.errors ++ errors ∧
        List.Forall₂ WriteGroup.Explains ([s.groupOf phase m].filter (·.isBroken)) errors := by
  obtain ⟨hoptions, hartifacts, herrors⟩ := prepare_same s phase m
  rw [after_eq, run_bind]
  unfold groupOf
  generalize (s.prepare phase).run m = r at hoptions hartifacts herrors ⊢
  obtain ⟨⟨s', artifacts⟩, m'⟩ := r
  dsimp only at hoptions hartifacts herrors ⊢
  rw [← hoptions]
  rcases Artifact.writeAll_cases s'.options.outputDirectory artifacts m' with
    ⟨m'', hwrite, hall⟩ | ⟨e, m'', hwrite, hsome⟩
  · rw [run_writeArtifacts hwrite]
    refine ⟨rfl, ?_, [], ?_, ?_⟩
    · simp [WriteGroup.listed, WriteGroup.isBroken, hall, hartifacts]
    · simp [herrors]
    · simp [WriteGroup.isBroken, hall]
  · rw [run_writeArtifacts_error hwrite]
    refine ⟨rfl, ?_, [phaseError phase.name e], ?_, ?_⟩
    · simp [WriteGroup.listed, WriteGroup.isBroken, hsome, hartifacts]
    · simp [herrors]
    · simp [WriteGroup.isBroken, hsome, WriteGroup.Explains]

/-- What some phases list, and the errors that they have. -/
theorem artifacts_foldlM : ∀ (phases : List Phase) (s : RunState) (m : Machine),
    ((phases.foldlM after s).run m).1.artifacts =
        s.artifacts ++ (groups phases s m).flatMap WriteGroup.listed ∧
      ∃ errors, ((phases.foldlM after s).run m).1.errors = s.errors ++ errors ∧
        List.Forall₂ WriteGroup.Explains ((groups phases s m).filter (·.isBroken)) errors
  | [], s, m => ⟨(List.append_nil _).symm, [], (List.append_nil _).symm, .nil⟩
  | phase :: rest, s, m => by
      obtain ⟨-, hartifacts, first, hfirst, hexplains⟩ := artifacts_after s phase m
      obtain ⟨hrest, more, hmore, hexplains'⟩ :=
        artifacts_foldlM rest ((s.after phase).run m).1 ((s.after phase).run m).2
      rw [List.foldlM_cons, run_bind]
      refine ⟨?_, first ++ more, ?_, ?_⟩
      · rw [hrest, hartifacts, groups, List.flatMap_cons, List.append_assoc]
      · rw [hmore, hfirst, List.append_assoc]
      · rw [groups, ← List.singleton_append, List.filter_append]
        exact List.rel_append hexplains hexplains'

theorem map_phase_groups : ∀ (phases : List Phase) (s : RunState) (m : Machine),
    (groups phases s m).map (·.phase) = phases
  | [], _, _ => rfl
  | phase :: rest, s, m => by
      rw [groups, List.map_cons, map_phase_groups rest]
      rfl

/-- A group writes its artifacts from the first one on. -/
theorem completed_prefix_planned : ∀ (phases : List Phase) (s : RunState) (m : Machine),
    ∀ g ∈ groups phases s m, g.completed <+: g.planned
  | [], _, _, g, h => by cases h
  | phase :: rest, s, m, g, h => by
      rcases List.mem_cons.mp h with rfl | h
      · exact Artifact.completed_prefix _ _
      · exact completed_prefix_planned rest _ _ g h

/-! ### From the start of a run -/

/-- A run that was aborted says so. -/
theorem abortion?_abort (s : RunState) : (s.abort.summary []).abortion? ≠ none := by
  intro h
  have hall : ∀ e ∈ s.abort.errors, ¬ RunSummary.isAbort e = true := List.find?_eq_none.mp h
  unfold abort at hall
  refine hall _ (List.mem_append_right _ List.mem_cons_self) ?_
  unfold RunSummary.isAbort Text.startsWith
  rw [List.isPrefixOf_iff_prefix]
  split
  · rw [List.append_assoc, List.append_assoc, List.append_assoc]
    exact List.prefix_append _ _
  · rw [List.append_assoc]
    exact List.prefix_append _ _

/-- A run that ends without being aborted found files and went through its phases. -/
theorem exists_of_finish {s s' : RunState} {m m' : Machine} (hfiles : s.files = [])
    (h : s.finish.run.run m = (.ok s', m')) (hgood : (s'.summary []).abortion? = none) :
    ∃ found, discoverListed (FileFilter.of s.options.endings s.options.excluded) m.disk m.unlisted
        m.folder s.options.testDirectory = .ok found ∧
      (s.withFiles found).runPhases.run m = (s', m') := by
  have habort : ∀ s₁ : RunState, s' ≠ s₁.abort := by
    rintro s₁ rfl
    exact abortion?_abort s₁ hgood
  cases hfound : discoverListed (FileFilter.of s.options.endings s.options.excluded) m.disk
      m.unlisted m.folder s.options.testDirectory with
  | ok found =>
      by_cases hnone : found.files = []
      · unfold finish discoverFiles at h
        simp only [runT_bind, runT_get, hfound, runT_pure] at h
        rw [if_pos (by simpa using hnone)] at h
        exact absurd (Except.ok.inj (congrArg Prod.fst h)).symm (habort _)
      · rw [run_finish s m hfound hnone] at h
        split at h
        · cases h
        · have hstate := Except.ok.inj (congrArg Prod.fst h)
          have hmachine := congrArg Prod.snd h
          exact ⟨found, rfl, Prod.ext hstate hmachine⟩
  | error e =>
      unfold finish discoverFiles at h
      simp only [runT_bind, runT_get, hfound] at h
      cases e with
      | unresolved fault => cases h
      | _ =>
          simp only [runT_pure] at h
          rw [if_pos (by simp [hfiles])] at h
          exact absurd (Except.ok.inj (congrArg Prod.fst h)).symm (habort _)

/-- The summary of a run is that of its last state. -/
theorem exists_of_runIn {options : Options} {order : Completion} {startedAt : Timestamp}
    {m m' : Machine} {run : RunSummary}
    (h : (options.runIn order startedAt).run.run m = (.ok run, m')) :
    ∃ s : RunState, (start options startedAt order >>= fun s => s.finish.run).run m = (.ok s, m') ∧
      run = s.summary [] ∧ (s.summary []).abortion? = none := by
  unfold Options.runIn at h
  simp only [runT_bind, runT_lift, runT_adapt] at h
  rw [run_bind]
  generalize ((start options startedAt order).run m).1.finish.run.run
    ((start options startedAt order).run m).2 = r at h ⊢
  rcases r with ⟨_ | s, m₁⟩
  · cases h
  · simp only [Except.mapError] at h
    cases hgood : (s.summary []).abortion? with
    | some error =>
        rw [hgood] at h
        cases h
    | none =>
        rw [hgood] at h
        cases h
        exact ⟨s, rfl, rfl, hgood⟩

end RunState

/-- The groups that a run writes with the files that it finds. -/
def Options.writeGroups (options : Options) (order : Completion) (startedAt : Timestamp)
    (m : Machine) : List WriteGroup :=
  let r := (RunState.start options startedAt order).run m
  match discoverListed (FileFilter.of options.endings options.excluded) r.2.disk r.2.unlisted
    r.2.folder options.testDirectory with
  | .ok found => RunState.groups options.route (r.1.withFiles found) r.2
  | .error _ => []

/-- A run lists its unbroken groups and has an error for each other one. -/
theorem RunState.listed_of_runIn {options : Options} {order : Completion} {startedAt : Timestamp}
    {m m' : Machine} {run : RunSummary}
    (h : (options.runIn order startedAt).run.run m = (.ok run, m')) :
    (∃ s m₀, options.writeGroups order startedAt m = groups options.route s m₀) ∧
    run.artifacts = (options.writeGroups order startedAt m).flatMap (·.listed) ∧
    List.Forall₂ WriteGroup.Explains
      ((options.writeGroups order startedAt m).filter (·.isBroken)) run.errors := by
  obtain ⟨s, hstate, rfl, hgood⟩ := exists_of_runIn h
  obtain ⟨deadline?, m₀, hstart, -⟩ := run_start options startedAt order m
  rw [run_bind, hstart] at hstate
  obtain ⟨found, hfound, hphases⟩ := exists_of_finish rfl hstate hgood
  let s₀ := (fresh options startedAt order deadline?).withFiles found
  have hgroups : options.writeGroups order startedAt m = groups options.route s₀ m₀ := by
    unfold Options.writeGroups
    rw [hstart]
    simp only [fresh] at hfound
    simp only [hfound]
    rfl
  obtain ⟨hartifacts, errors, herrors, hexplains⟩ := artifacts_foldlM options.route s₀ m₀
  have hrun : (options.route.foldlM after s₀).run m₀ = (s, m') := hphases
  rw [hrun] at hartifacts herrors
  rw [hgroups]
  refine ⟨⟨s₀, m₀, rfl⟩, ?_, ?_⟩
  · have hsummary : (s.summary []).artifacts = s.artifacts := List.append_nil s.artifacts
    rw [hsummary, hartifacts]
    rfl
  · have hsummary : (s.summary []).errors = s.errors := rfl
    rw [hsummary, herrors]
    exact hexplains

/-- A run that is not aborted lists the artifacts of its unbroken groups, whatever fails on its
machine: each of them was written in full, and the list is complete just when no group broke behind
a write.  There is one error for each broken group, which names its phase, and no other. -/
theorem Options.lists_unbroken_groups (options : Options) (order : Completion)
    (startedAt : Timestamp) (m : Machine) {run : RunSummary} {m' : Machine}
    (h : (options.runIn order startedAt).run.run m = (.ok run, m')) :
    let groups := options.writeGroups order startedAt m
    groups.map (·.phase) = options.route ∧
    (∀ g ∈ groups, g.completed <+: g.planned) ∧
    run.artifacts = groups.flatMap (·.listed) ∧
    run.artifacts.Sublist (groups.flatMap (·.completed)) ∧
    (run.artifacts = groups.flatMap (·.completed) ↔
      ∀ g ∈ groups, g.isBroken = false ∨ g.completed = []) ∧
    List.Forall₂ WriteGroup.Explains (groups.filter (·.isBroken)) run.errors := by
  intro groups
  obtain ⟨⟨s₀, m₀, hgroups⟩, hlisted, herrors⟩ := RunState.listed_of_runIn h
  have hsub := fun g (_ : g ∈ groups) => WriteGroup.listed_sublist g
  refine ⟨?_, ?_, hlisted, ?_, ?_, herrors⟩
  · change (options.writeGroups order startedAt m).map (·.phase) = _
    rw [hgroups, RunState.map_phase_groups]
  · change ∀ g ∈ options.writeGroups order startedAt m, _
    rw [hgroups]
    exact RunState.completed_prefix_planned _ _ _
  · rw [hlisted]
    exact flatMap_sublist_of_sublist hsub
  · rw [hlisted, flatMap_eq_iff_of_sublist hsub]
    exact forall₂_congr fun g _ => g.listed_eq_iff

/-! ### A run that hides a file -/

/-- A test file, and an output folder in which a folder stands in the place of the last report. -/
def blockedReport : Machine where
  disk := [([("t" : Text)], .folder), ([("t" : Text), "a.spec.ts"], .file []),
    ([("out" : Text)], .folder), ([("out" : Text), "comprehensive-report.md"], .folder)]

/-- The maintainability of the file and the guide on it. -/
def guideOnly : Options :=
  { testDirectory := "/t", outputDirectory := "/out", refactoring := false, quality := false,
    documentation := false }

def foundOne : Discovered where
  files := [("/t/a.spec.ts" : Text)]
  failures := []

namespace blockedReport

/-- The machine later on, with some more files. -/
def later (files : Disk) (calls readings : Nat) : Machine :=
  { blockedReport with disk := blockedReport.disk ++ files, calls := calls, readings := readings }

def jsonPlace : Location := [("out" : Text), "maintainability-report.json"]

def guidePlace : Location := [("out" : Text), "maintainability-improvements.md"]

def jsonPath : Text := "/out/maintainability-report.json"

def guidePath : Text := "/out/maintainability-improvements.md"

def reportPath : Text := "/out/comprehensive-report.md"

theorem discovers : discoverListed (FileFilter.of guideOnly.endings guideOnly.excluded)
    blockedReport.disk blockedReport.unlisted blockedReport.folder guideOnly.testDirectory =
      .ok foundOne := by
  have hwalk : blockedReport.disk.realWalk 5 [] [] [("t" : Text)] = .ok [("t" : Text)] := by
    rw [Disk.realWalk, Disk.realWalk]
    rfl
  have hroot : blockedReport.disk.realLocation blockedReport.folder guideOnly.testDirectory =
      .ok [("t" : Text)] := realLocation_of_realWalk (by decide) hwalk
  exact discoverListed_of_sorted hroot (by cbv) (by decide +kernel) (by decide +kernel)
    (by decide +kernel)

variable (bytes bytes' : Bytes) (calls readings : Nat)

theorem writes_json : (Machine.writeInto jsonPath bytes).run.run (later [] calls readings) =
    (.ok (), later [(jsonPlace, .file bytes)] (calls + 3) readings) := by
  cbv

theorem writes_guide : (Machine.writeInto guidePath bytes').run.run
      (later [(jsonPlace, .file bytes)] calls readings) =
    (.ok (),
      later [(jsonPlace, .file bytes), (guidePlace, .file bytes')] (calls + 3) readings) := by
  cbv

theorem fails_report (page : Bytes) : ((Machine.writeInto reportPath page).run.run
      (later [(jsonPlace, .file bytes), (guidePlace, .file bytes')] calls readings)).1 =
    .error (.failed .isFolder reportPath) := by
  cbv

/-- A group of the maintainability alone is written. -/
theorem completes_json (a : Artifact) (ha : a.name = "maintainability-report.json") :
    (Artifact.writeAll guideOnly.outputDirectory [a]).run.run (later [] calls readings) =
      (.ok [jsonPath], later [(jsonPlace, .file (Utf8.encode a.content))] (calls + 3) readings) ∧
    Artifact.completed guideOnly.outputDirectory [a] (later [] calls readings) = [jsonPath] := by
  have hpath : a.pathIn guideOnly.outputDirectory = jsonPath := by
    rw [Artifact.pathIn, ha]
    rfl
  constructor
  · simp only [Artifact.writeAll, runT_bind, hpath, writes_json, runT_pure]
  · simp only [Artifact.completed, hpath, writes_json]

/-- Of a guide and the report only the guide is written. -/
theorem completes_guide (a c : Artifact) (ha : a.name = "maintainability-improvements.md")
    (hc : c.name = comprehensiveName) :
    Artifact.completed guideOnly.outputDirectory [a, c]
      (later [(jsonPlace, .file bytes)] calls readings) = [guidePath] := by
  have hguide : a.pathIn guideOnly.outputDirectory = guidePath := by
    rw [Artifact.pathIn, ha]
    rfl
  have hreport : c.pathIn guideOnly.outputDirectory = reportPath := by
    rw [Artifact.pathIn, hc]
    rfl
  have hfails :=
    fails_report bytes (Utf8.encode a.content) (calls + 3) readings (Utf8.encode c.content)
  simp only [Artifact.completed, hguide, hreport, writes_guide]
  generalize (Machine.writeInto reportPath (Utf8.encode c.content)).run.run _ = r at hfails ⊢
  obtain ⟨_, m'⟩ := r
  obtain rfl := hfails
  rfl

/-- The run with the file that it finds. -/
def started : RunState := (RunState.fresh guideOnly newYear .inOrder none).withFiles foundOne

/-- The first phase only reads the file, whatever comes of it, and then writes its report. -/
theorem prepares_json : ∃ (s : RunState) (r : MaintainabilityReport) (calls readings : Nat),
    (started.prepare .maintainability).run blockedReport =
      ((s, r.artifacts newYear), later [] calls readings) ∧
    s.options = guideOnly ∧ s.artifacts = [] ∧
    s.refactoring? = none ∧ s.maintainability? = some r ∧ s.quality? = none := by
  obtain ⟨calls, readings, hreads⟩ := started.onlyReads_batch .maintainability
    (onlyReads_fileWorker (measure started.options.thresholds)) started.files blockedReport
  exact ⟨_, _, calls, readings, congrArg (_, ·) hreads, rfl, rfl, rfl, rfl, rfl⟩

/-- The last phase writes the guide and not the report. -/
theorem groupOf_report {s : RunState} {r : MaintainabilityReport} (hoptions : s.options = guideOnly)
    (hrefactoring : s.refactoring? = none) (hmaintainability : s.maintainability? = some r)
    (hquality : s.quality? = none) :
    s.groupOf .report (later [(jsonPlace, .file bytes)] calls readings) =
      ⟨.report, [guidePath, reportPath], [guidePath]⟩ := by
  let m := later [(jsonPlace, .file bytes)] calls readings
  have hartifacts : ∀ folder, s.reportArtifacts folder =
      [.ofPage "maintainability-improvements.md" r.guide,
        s.comprehensive folder [guidePath, reportPath]] := by
    intro folder
    unfold RunState.reportArtifacts
    rw [hoptions, hrefactoring, hmaintainability, hquality]
    rfl
  unfold RunState.groupOf
  change WriteGroup.mk .report
    (Artifact.paths s.options.outputDirectory (s.reportArtifacts m.folder))
    (Artifact.completed s.options.outputDirectory (s.reportArtifacts m.folder) m) = _
  rw [hartifacts, hoptions, completes_guide bytes calls readings _ _ rfl rfl]
  rfl

/-- The maintainability of the file is written, then the guide, but not the report. -/
theorem groups_eq : guideOnly.writeGroups .inOrder newYear blockedReport =
    [⟨.maintainability, [jsonPath], [jsonPath]⟩,
      ⟨.report, [guidePath, reportPath], [guidePath]⟩] := by
  have hgroups : guideOnly.writeGroups .inOrder newYear blockedReport =
      RunState.groups [.maintainability, .report] started blockedReport := by
    unfold Options.writeGroups
    change (match discoverListed (FileFilter.of guideOnly.endings guideOnly.excluded)
      blockedReport.disk blockedReport.unlisted blockedReport.folder guideOnly.testDirectory with
      | .ok found => _
      | .error _ => _) = _
    rw [discovers]
    rfl
  obtain ⟨s, r, calls, readings, hprepare, hoptions, -, hrefactoring, hmaintainability, hquality⟩ :=
    prepares_json
  let json := Artifact.ofJson "maintainability-report.json" (r.artifact newYear)
  obtain ⟨hwrite, hjson⟩ := completes_json calls readings json rfl
  have hfirst : started.groupOf .maintainability blockedReport =
      ⟨.maintainability, [jsonPath], [jsonPath]⟩ := by
    unfold RunState.groupOf
    rw [hprepare]
    exact congrArg (WriteGroup.mk .maintainability [jsonPath]) hjson
  have hafter : (started.after .maintainability).run blockedReport =
      ({ s with artifacts := s.artifacts ++ [jsonPath] },
        later [(jsonPlace, .file (Utf8.encode json.content))] (calls + 3) readings) := by
    rw [RunState.after_eq, run_bind, hprepare]
    rw [← hoptions] at hwrite
    exact RunState.run_writeArtifacts hwrite
  rw [hgroups, RunState.groups, RunState.groups, RunState.groups, hfirst, hafter]
  let s' := { s with artifacts := s.artifacts ++ [jsonPath] }
  have hsecond : s'.groupOf .report _ = _ := groupOf_report (Utf8.encode json.content) (calls + 3)
    readings hoptions hrefactoring hmaintainability hquality
  rw [hsecond]

/-- The run has a summary. -/
theorem exists_run : ∃ run m',
    (guideOnly.runIn .inOrder newYear).run.run blockedReport = (.ok run, m') := by
  have hgoes : blockedReport.ClockGoesOn := fun _ _ _ => Rat.le_refl
  have hstart : (RunState.start guideOnly newYear .inOrder >>= fun s => s.finish.run).run
      blockedReport = _ :=
    RunState.run_finish (RunState.fresh guideOnly newYear .inOrder none) blockedReport discovers
      (List.cons_ne_nil _ _)
  rw [if_neg (by decide)] at hstart
  obtain ⟨herrors, -⟩ := RunState.exists_accounts newYear .inOrder blockedReport hgoes
    (fun _ => rfl) (fun f (hf : f ∈ foundOne.failures) => by cases hf)
  exact ⟨_, _, RunState.run_runIn guideOnly .inOrder newYear blockedReport hstart herrors⟩

/-- It lists the artifact of the first phase, and its only error is of the last one. -/
theorem lists_one_group : ∃ run m',
    (guideOnly.runIn .inOrder newYear).run.run blockedReport = (.ok run, m') ∧
    run.artifacts = [jsonPath] ∧ ∃ e, run.errors = [RunState.phaseError Phase.report.name e] := by
  obtain ⟨run, m', hrun⟩ := exists_run
  obtain ⟨-, -, hlisted, -, -, herrors⟩ :=
    Options.lists_unbroken_groups guideOnly .inOrder newYear blockedReport hrun
  rw [groups_eq] at hlisted herrors
  refine ⟨run, m', hrun, hlisted, ?_⟩
  obtain ⟨error, rest, ⟨e, rfl⟩, hrest, herrors⟩ := List.forall₂_cons_left_iff.mp herrors
  rw [List.forall₂_nil_left_iff.mp hrest] at herrors
  exact ⟨e, herrors⟩

/-- It writes a guide that it does not list. -/
theorem hides_guide : ∃ run m',
    (guideOnly.runIn .inOrder newYear).run.run blockedReport = (.ok run, m') ∧
    guidePath ∈ (guideOnly.writeGroups .inOrder newYear blockedReport).flatMap (·.completed) ∧
    guidePath ∉ run.artifacts := by
  obtain ⟨run, m', hrun⟩ := exists_run
  obtain ⟨-, hlisted, -⟩ := RunState.listed_of_runIn hrun
  rw [groups_eq] at hlisted
  refine ⟨run, m', hrun, ?_, ?_⟩
  · rw [groups_eq]
    decide
  · rw [hlisted]
    decide

end blockedReport

end SuiteAudit
