import SuiteAudit.Proofs.Disk.Copying
import SuiteAudit.Proofs.Text.Lines
import SuiteAudit.Run.Pipeline

/-! # What a phase writes

A phase writes its artifacts one after the other until a write fails.  `Artifact.completed` lists the
paths of those that were written in full, whether or not the writes behind them failed, and what is
listed could be read back at that moment (`exists_of_mem_completed`).  `Artifact.writeAll` gives the
same list when all writes succeed, and no list at all otherwise (`writeAll_cases`).  Artifacts with
different names are then all there at the end, if no link has one of the names
(`holds_of_writeAll`).

`RunState.prepare` is a phase up to its writes: each phase is `prepare` and then `writeArtifacts`
(`RunState.after_eq`). -/

namespace SuiteAudit

namespace Artifact

/-- The paths of the artifacts that are written in full before a write fails. -/
def completed (output : Text) : List Artifact → Machine → List Text
  | [], _ => []
  | a :: rest, m =>
    match (Machine.writeInto (a.pathIn output) (Utf8.encode a.content)).run.run m with
    | (.ok _, m') => a.pathIn output :: completed output rest m'
    | (.error _, _) => []

/-- The paths of artifacts in their order. -/
def paths (output : Text) (artifacts : List Artifact) : List Text :=
  artifacts.map (·.pathIn output)

variable {output : Text}

theorem completed_prefix : ∀ (artifacts : List Artifact) (m : Machine),
    completed output artifacts m <+: paths output artifacts
  | [], _ => List.nil_prefix
  | a :: rest, m => by
      unfold completed
      split
      · next m' _ =>
        exact List.cons_prefix_cons.mpr ⟨rfl, completed_prefix rest m'⟩
      · exact List.nil_prefix

/-- What was written in full held the bytes of its artifact then. -/
theorem exists_of_mem_completed {path : Text} : ∀ {artifacts : List Artifact} {m : Machine},
    path ∈ completed output artifacts m → ∃ a ∈ artifacts, a.pathIn output = path ∧
      ∃ m' : Machine, m'.disk.readFile m'.folder path = .ok (Utf8.encode a.content)
  | [], _, h => by cases h
  | a :: rest, m, h => by
      unfold completed at h
      split at h
      · next m' hwrite =>
        rcases List.mem_cons.mp h with rfl | h
        · exact ⟨a, List.mem_cons_self, rfl, m', Machine.readFile_of_writeInto hwrite⟩
        · obtain ⟨b, hb, hpath, hread⟩ := exists_of_mem_completed h
          exact ⟨b, List.mem_cons_of_mem a hb, hpath, hread⟩
      · cases h

/-- Artifacts are written in full and their paths given, or a write fails and no path is given. -/
theorem writeAll_cases (output : Text) : ∀ (artifacts : List Artifact) (m : Machine),
    (∃ m', (writeAll output artifacts).run.run m = (.ok (paths output artifacts), m') ∧
      completed output artifacts m = paths output artifacts) ∨
    ∃ e m', (writeAll output artifacts).run.run m = (.error e, m') ∧
      completed output artifacts m ≠ paths output artifacts
  | [], m => .inl ⟨m, rfl, rfl⟩
  | a :: rest, m => by
      unfold writeAll completed
      rw [runT_bind]
      rcases (Machine.writeInto (a.pathIn output) (Utf8.encode a.content)).run.run m with
        ⟨e | _, m₁⟩
      · exact .inr ⟨e, m₁, rfl, (List.cons_ne_nil _ _).symm⟩
      · rcases writeAll_cases output rest m₁ with ⟨m', hrun, hall⟩ | ⟨e, m', hrun, hsome⟩
        · refine .inl ⟨m', ?_, by simp only [hall]; rfl⟩
          simp only [runT_bind, hrun, runT_pure]
          rfl
        · refine .inr ⟨e, m', ?_, ?_⟩
          · simp only [runT_bind, hrun]
          · intro h
            exact hsome (List.cons.inj h).2

end Artifact

/-! ### Work that makes folders -/

/-- Work changes the files in nothing but that there are more folders. -/
def MakesFolders {α : Type} (work : StateM Machine α) : Prop :=
  ∀ m, (work.run m).2.folder = m.folder ∧ m.disk.GainsFolders (work.run m).2.disk

theorem makesFolders : OfLooks @MakesFolders where
  pure _ _ := ⟨rfl, .refl _⟩
  bind {_ _ work _} hw hf m := by
    obtain ⟨hfolder, hgains⟩ := hw m
    obtain ⟨hfolder', hgains'⟩ := hf (work.run m).1 (work.run m).2
    rw [run_bind]
    exact ⟨hfolder'.trans hfolder, hgains.trans hgains'⟩
  look hf _ m := by
    rw [runT_bind_ok (runT_get m)]
    exact hf m m

theorem makesFolders_makeFolder (path : Text) : MakesFolders (Machine.makeFolder path).run := by
  intro m
  unfold Machine.makeFolder
  rw [run_call]
  split
  · exact ⟨rfl, .refl _⟩
  · cases hmade : m.disk.makeFolder m.folder path with
    | error fault => cases m.trouble m.calls <;> exact ⟨rfl, .refl _⟩
    | ok d =>
        cases m.trouble m.calls with
        | none => exact ⟨rfl, Disk.gainsFolders_of_makeFolder hmade⟩
        | some trouble => exact ⟨rfl, .refl _⟩

theorem makesFolders_ensureFolder (path : Text) : MakesFolders (Machine.ensureFolder path).run :=
  makesFolders.ensureFolderWithin makesFolders_makeFolder path.length

/-- A file that is written into its folder leaves links and other files as they were. -/
theorem Machine.writeInto_beside {m m' : Machine} {path : Text} {bytes : Bytes}
    (h : (writeInto path bytes).run.run m = (.ok (), m')) :
    m'.folder = m.folder ∧ (∀ name, m.disk.Unlinked name → m'.disk.Unlinked name) ∧
    ∀ other old, m.Holds other old →
      (∀ d, m.disk.GainsFolders d → d.sameEntry m.folder other path = false) →
      m'.Holds other old := by
  obtain ⟨made, m₁, hfolders, hwrite⟩ := exists_of_runT_bind h
  obtain ⟨hfolder₁, hgains⟩ : m₁.folder = m.folder ∧ m.disk.GainsFolders m₁.disk := by
    have hmade := makesFolders_ensureFolder
      (if (Path.folderOf path).isEmpty then ['.'] else Path.folderOf path) m
    rwa [hfolders] at hmade
  obtain ⟨hfolder, emptied, hempty, hfull⟩ := exists_of_writeFile hwrite
  rw [hfolder₁] at hempty hfull hfolder
  refine ⟨hfolder, fun name hname => ?_, fun other old hold hapart => ?_⟩
  · obtain ⟨_, _, -, hwritten⟩ := Disk.exists_written hempty
    obtain ⟨_, _, -, hwritten'⟩ := Disk.exists_written hfull
    exact hwritten'.unlinked (hwritten.unlinked (hgains.unlinked hname))
  · obtain ⟨hkept, -⟩ :=
      Disk.readFile_of_writeFile_twice (hgains.readFile hold) (hapart _ hgains) hempty hfull
    rwa [← hfolder] at hkept

namespace Artifact

variable {output : Text} {a b : Artifact} {m m' : Machine} {d : Disk}

/-! ### Artifacts in different places -/

theorem namesOf_injective : Function.Injective Disk.namesOf := fun a b h => by
  rw [← Text.join_splitOn '/' a, ← Text.join_splitOn '/' b]
  exact congrArg (Text.join ['/']) h

/-- All paths below an output folder start where it does, and lead first to that folder. -/
theorem exists_names_join (output : Text) (folder : Location) : ∃ start above, ∀ name : Text,
    (∀ n ∈ Disk.namesOf name, Disk.IsPlain n) →
    Disk.startOf folder (Path.join output name) = start ∧
      Disk.namesOf (Path.join output name) = above ++ Disk.namesOf name := by
  have hrelative : ∀ name : Text, (∀ n ∈ Disk.namesOf name, Disk.IsPlain n) →
      name.head? ≠ some '/' := by
    intro name hplain hhead
    obtain ⟨rest, rfl⟩ : ∃ rest, name = '/' :: rest := List.head?_eq_some_iff.mp hhead
    have hempty : [] ∈ Disk.namesOf ('/' :: rest) := by
      rw [Disk.namesOf, Text.splitOn_cons_self]
      exact List.mem_cons_self
    exact (hplain [] hempty).1 rfl
  have hbelow : ∀ q : Text, ∃ start above, ∀ name : Text,
      Disk.startOf folder (q ++ '/' :: name) = start ∧
        Disk.namesOf (q ++ '/' :: name) = above ++ Disk.namesOf name := by
    intro q
    refine ⟨Disk.startOf folder (q ++ ['/']), Text.splitOn '/' q, fun name => ⟨?_, ?_⟩⟩
    · cases q <;> rfl
    · exact Text.splitOn_append '/' q name
  unfold Path.join
  rcases List.eq_nil_or_concat output with rfl | ⟨q, last, rfl⟩
  · refine ⟨folder, [], fun name hplain => ?_⟩
    rw [if_neg (hrelative name hplain)]
    simp only [List.isEmpty_nil, Bool.true_or, if_true, List.nil_append]
    exact ⟨if_neg (hrelative name hplain), trivial⟩
  · by_cases hlast : last = '/'
    · obtain ⟨start, above, h⟩ := hbelow q
      refine ⟨start, above, fun name hplain => ?_⟩
      rw [if_neg (hrelative name hplain), if_pos (by simp [hlast]), List.concat_eq_append,
        List.append_assoc, hlast]
      exact h name
    · obtain ⟨start, above, h⟩ := hbelow (q.concat last)
      refine ⟨start, above, fun name hplain => ?_⟩
      rw [if_neg (hrelative name hplain), if_neg (by simp [hlast]), List.append_assoc]
      exact h name

theorem join_inj {a b : Text} (ha : ∀ n ∈ Disk.namesOf a, Disk.IsPlain n)
    (hb : ∀ n ∈ Disk.namesOf b, Disk.IsPlain n) (h : Path.join output a = Path.join output b) :
    a = b := by
  obtain ⟨_, above, hjoin⟩ := exists_names_join output []
  have hnames := congrArg Disk.namesOf h
  rw [(hjoin a ha).2, (hjoin b hb).2] at hnames
  exact namesOf_injective (List.append_cancel_left hnames)

/-- The path of an artifact leads down from the output folder, and no link has a name in it. -/
def IsBelow (d : Disk) (a : Artifact) : Prop :=
  ∀ name ∈ Disk.namesOf a.name, Disk.IsPlain name ∧ d.Unlinked name

theorem sameEntry_pathIn (ha : a.IsBelow d) (hb : b.IsBelow d) (hne : a.name ≠ b.name)
    (folder : Location) (output : Text) :
    d.sameEntry folder (a.pathIn output) (b.pathIn output) = false := by
  obtain ⟨start, above, hjoin⟩ := exists_names_join output folder
  obtain ⟨hstart, hnames⟩ := hjoin a.name fun n hn => (ha n hn).1
  obtain ⟨hstart', hnames'⟩ := hjoin b.name fun n hn => (hb n hn).1
  have hsplit : Disk.namesOf a.name ≠ Disk.namesOf b.name := fun h => hne (namesOf_injective h)
  refine Disk.sameEntry_eq_false_of_below (hstart.trans hstart'.symm) hnames hnames'
    (Text.splitOn_ne_nil _ _) (Text.splitOn_ne_nil _ _) hsplit fun name hm => ?_
  exact (List.mem_append.mp hm).elim (ha name) (hb name)

/-- A file that is written leaves an artifact in another place as it was. -/
theorem holds_of_writeInto (ha : a.IsBelow m.disk) (hb : b.IsBelow m.disk) (hne : a.name ≠ b.name)
    {old bytes : Bytes} (hold : m.Holds (a.pathIn output) old)
    (h : (Machine.writeInto (b.pathIn output) bytes).run.run m = (.ok (), m')) :
    m'.Holds (a.pathIn output) old := by
  refine (Machine.writeInto_beside h).2.2 _ _ hold fun d hgains => ?_
  exact sameEntry_pathIn (fun n hn => ⟨(ha n hn).1, hgains.unlinked (ha n hn).2⟩)
    (fun n hn => ⟨(hb n hn).1, hgains.unlinked (hb n hn).2⟩) hne m.folder output

/-- Artifacts in different places, all written, are all there, with what was there before in yet other
places. -/
theorem holds_of_writeAll : ∀ {artifacts : List Artifact} {m m' : Machine} {paths : List Text},
    (∀ a ∈ artifacts, a.IsBelow m.disk) → (artifacts.map (·.name)).Nodup →
    (writeAll output artifacts).run.run m = (.ok paths, m') →
    (∀ a ∈ artifacts, m'.Holds (a.pathIn output) (Utf8.encode a.content)) ∧
    ∀ (b : Artifact) (old : Bytes), b.IsBelow m.disk → b.name ∉ artifacts.map (·.name) →
      m.Holds (b.pathIn output) old → m'.Holds (b.pathIn output) old
  | [], m, m', paths, _, _, h => by
      cases h
      exact ⟨fun a ha => (by cases ha), fun _ _ _ _ hold => hold⟩
  | a :: rest, m, m', paths, hbelow, hnodup, h => by
      obtain ⟨⟨⟩, m₁, hwrite, h⟩ := exists_of_runT_bind h
      obtain ⟨paths', m₂, hrest, hpaths⟩ := exists_of_runT_bind h
      obtain rfl : m₂ = m' := congrArg Prod.snd hpaths
      obtain ⟨ha, hnodup⟩ := List.nodup_cons.mp hnodup
      have hkept {b : Artifact} (hb : b.IsBelow m.disk) : b.IsBelow m₁.disk := fun n hn =>
        ⟨(hb n hn).1, (Machine.writeInto_beside hwrite).2.1 n (hb n hn).2⟩
      obtain ⟨hall, hothers⟩ := holds_of_writeAll
        (fun b hb => hkept (hbelow b (List.mem_cons_of_mem a hb))) hnodup hrest
      have hbelow_a := hbelow a List.mem_cons_self
      refine ⟨List.forall_mem_cons.mpr ⟨?_, hall⟩, fun b old hb hname hold => ?_⟩
      · exact hothers a _ (hkept hbelow_a) ha (Machine.readFile_of_writeInto hwrite)
      · obtain ⟨hne, hname⟩ := not_or.mp fun hm => hname (List.mem_cons.mpr hm)
        exact hothers b old (hkept hb) hname (holds_of_writeInto hb hbelow_a hne hold hwrite)

end Artifact

namespace RunState

/-- A phase up to its writes: the state with its report, and the artifacts that are to be written. -/
def prepare (s : RunState) : Phase → StateM Machine (RunState × List Artifact)
  | .refactor => do
    let b ← s.batch .refactoring (fileWorker proposeFor) s.files
    let r := ProposalReport.ofProposals b.results b.failures
    return ({ s with refactoring? := some r }.withBatch b, r.artifacts s.startedAt)
  | .apply => do return (← s.applyProposals, [])
  | .maintainability => do
    let thresholds := s.options.thresholds
    let b ← s.batch .maintainability (fileWorker (measure thresholds)) s.files
    let r := MaintainabilityReport.ofFiles thresholds b.results b.failures
    return ({ s with maintainability? := some r }.withBatch b, r.artifacts s.startedAt)
  | .quality => do
    let b ← s.batch .quality (fileWorker checkQuality) s.files
    let r := QualitySuiteReport.ofReports .default b.results b.failures
    return ({ s with quality? := some r }.withBatch b, r.artifacts .default s.startedAt)
  | .documentation => do
    let b ← s.batch .documentation (fileWorker (describeFile s.startedAt)) s.files
    let r := DocumentReport.ofDocuments b.results b.failures
    return ({ s with documentation? := some r }.withBatch b, r.artifacts)
  | .report => do return (s, s.reportArtifacts (← get).folder)

section

variable {s : RunState} {phase : Phase} {artifacts : List Artifact} {m m' : Machine}

/-- Artifacts that are all written are listed. -/
theorem run_writeArtifacts {paths : List Text}
    (h : (Artifact.writeAll s.options.outputDirectory artifacts).run.run m = (.ok paths, m')) :
    (s.writeArtifacts phase artifacts).run m =
      ({ s with artifacts := s.artifacts ++ paths }, m') := by
  unfold writeArtifacts
  rw [run_bind, h]
  rfl

/-- When a write fails there is an error in their place. -/
theorem run_writeArtifacts_error {e : DiskError}
    (h : (Artifact.writeAll s.options.outputDirectory artifacts).run.run m = (.error e, m')) :
    (s.writeArtifacts phase artifacts).run m =
      ({ s with errors := s.errors ++ [phaseError phase.name e] }, m') := by
  unfold writeArtifacts
  rw [run_bind, h]
  rfl

end

/-- Nothing to write changes nothing. -/
theorem writeArtifacts_nil (s : RunState) (phase : Phase) : s.writeArtifacts phase [] = pure s := by
  have hsame : { s with artifacts := s.artifacts ++ [] } = s := by
    rw [List.append_nil]
  funext m
  exact congrArg (·, m) hsame

/-- A phase prepares its artifacts and writes them. -/
theorem after_eq (s : RunState) (phase : Phase) :
    s.after phase = s.prepare phase >>= fun p => p.1.writeArtifacts phase p.2 := by
  cases phase with
  | apply =>
      funext m
      exact (congrFun (writeArtifacts_nil (s.applyProposals.run m).1 .apply)
        (s.applyProposals.run m).2).symm
  | _ => rfl

/-- Up to its writes a phase lists no artifact and has no error. -/
theorem prepare_same (s : RunState) (phase : Phase) (m : Machine) :
    ((s.prepare phase).run m).1.1.options = s.options ∧
      ((s.prepare phase).run m).1.1.artifacts = s.artifacts ∧
      ((s.prepare phase).run m).1.1.errors = s.errors := by
  cases phase with
  | apply =>
      have hrun : ((s.prepare .apply).run m).1.1 = (s.applyProposals.run m).1 := rfl
      rw [hrun]
      unfold applyProposals
      split <;> exact ⟨rfl, rfl, rfl⟩
  | _ => exact ⟨rfl, rfl, rfl⟩

end RunState
end SuiteAudit
