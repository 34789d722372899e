import SuiteAudit.Proofs.Run.BatchRun

/-! # Batches in a row

Batches that share a deadline also share a clock that goes on from one to the next.
`Batch.Accounted` says what becomes of the files of a batch and of its machine: as long as the time
is not up each file has an answer, once it is up the files are skipped, and then it is up for every
batch behind, whose files are all skipped (`Batch.exists_accounted`). -/

namespace SuiteAudit

variable {β : Type}

/-! ### Time -/

/-- The clock of a machine does not go back. -/
def Machine.ClockGoesOn (m : Machine) : Prop := ∀ i j, i ≤ j → m.clock i ≤ m.clock j

/-- A machine with the same clock, which may have been read since. -/
structure Machine.Later (m m' : Machine) : Prop where
  clock_eq : m'.clock = m.clock
  readings_le : m.readings ≤ m'.readings

theorem Machine.Later.refl (m : Machine) : m.Later m := ⟨rfl, Nat.le_refl _⟩

theorem Machine.Later.trans {m m' m'' : Machine} (h : m.Later m') (h' : m'.Later m'') : m.Later m'' :=
  ⟨h'.clock_eq.trans h.clock_eq, Nat.le_trans h.readings_le h'.readings_le⟩

theorem Machine.Later.clockGoesOn {m m' : Machine} (h : m.Later m') (hgoes : m.ClockGoesOn) :
    m'.ClockGoesOn := by
  intro i j hij
  rw [h.clock_eq]
  exact hgoes i j hij

theorem LeavesClock.later {α : Type} {work : StateM Machine α} (h : LeavesClock work) (m : Machine) :
    m.Later (work.run m).2 := by
  obtain ⟨hclock, hreadings⟩ := h m
  exact ⟨hclock, Nat.le_of_eq hreadings.symm⟩

namespace Batch

variable {stage : Stage} {worker : Worker β} {deadline? : Option Rat} {order : Completion}
  {limit : WorkerLimit} {paths : List Text} {m m' : Machine}

/-- The time is up when the clock is read next. -/
def TimeUp (deadline? : Option Rat) (m : Machine) : Prop := upAt deadline? m 0 = true

/-- Once the time is up at the turn of a call it stays so. -/
theorem timeUp_of_upAt {n : Nat} (hgoes : m.ClockGoesOn) (h : upAt deadline? m n = true)
    (hclock : m'.clock = m.clock) (hread : m.readings + n ≤ m'.readings) :
    TimeUp deadline? m' := by
  unfold TimeUp
  unfold upAt at h ⊢
  cases deadline? with
  | none => cases h
  | some deadline =>
      have hbefore : deadline ≤ m.clock (m.readings + n) := of_decide_eq_true h
      have hafter : deadline ≤ m'.clock m'.readings := by
        rw [hclock]
        exact Rat.le_trans hbefore (hgoes _ _ hread)
      exact decide_eq_true hafter

theorem TimeUp.later (hgoes : m.ClockGoesOn) (h : TimeUp deadline? m) (hl : m.Later m') :
    TimeUp deadline? m' :=
  timeUp_of_upAt hgoes h hl.clock_eq hl.readings_le

/-! ### The files of a batch -/

/-- What becomes of the files of a batch and of its machine, when its worker leaves the clock
alone. -/
structure Accounted (stage : Stage) (worker : Worker β) (deadline? : Option Rat)
    (paths : List Text) (m : Machine) (r : BatchOutcome β × Machine)
    (answered : List (Text × Except Text β)) : Prop where
  files_eq : answered.map Prod.fst ++ r.1.skipped = paths
  answers : ∀ p ∈ answered, ∃ m, ((worker p.1).run m).1 = p.2
  outcome_eq : r.1 = .ofAnswers stage answered r.1.skipped
  later : m.Later r.2
  in_time : deadline? = none → r.1.skipped = []
  late : TimeUp deadline? m → r.1.skipped = paths
  expired : m.ClockGoesOn → r.1.skipped ≠ [] → TimeUp deadline? r.2

theorem getElem_callsFor {i : Nat} (h : i < (callsFor paths).length) :
    (callsFor paths)[i].index = i := by
  simp [callsFor]

/-- The first call that was not made has the number of those that were. -/
theorem index_of_callsFor {made rest : List Call} {c : Call}
    (h : callsFor paths = made ++ c :: rest) : c.index = made.length := by
  have hlt : made.length < (callsFor paths).length := by
    rw [h]
    simp
  have hc : (callsFor paths)[made.length] = c := by
    simp [h]
  rw [← hc, getElem_callsFor]

section
variable {made rest : List Call} {r : BatchOutcome β × Machine}
  (h : Ran stage worker limit deadline? (ReadFor deadline? m) paths r made rest)
include h

theorem Ran.skipped_eq_nil (hnone : deadline? = none) : r.1.skipped = [] := by
  rw [h.skipped_eq]
  cases rest with
  | nil => rfl
  | cons c rest =>
      have hup := h.upAt_of_head? c rfl
      rw [hnone] at hup
      cases hup

/-- When the time is up before the first call, none is made. -/
theorem Ran.skipped_eq_paths (hnow : TimeUp deadline? m) : r.1.skipped = paths := by
  cases made with
  | nil => rw [h.skipped_eq, ← map_path_callsFor paths, h.calls_eq, List.nil_append]
  | cons c made =>
      have hfirst : callsFor paths = [] ++ c :: (made ++ rest) := h.calls_eq
      have hup := h.upAt_of_mem c List.mem_cons_self
      rw [index_of_callsFor hfirst, List.length_nil, hnow] at hup
      cases hup

/-- When calls are not made, the time is up behind them. -/
theorem Ran.timeUp (hgoes : m.ClockGoesOn) (hne : r.1.skipped ≠ []) : TimeUp deadline? r.2 := by
  rw [h.skipped_eq] at hne
  cases rest with
  | nil => exact absurd rfl hne
  | cons c rest =>
      have hup := h.upAt_of_head? c rfl
      rw [index_of_callsFor h.calls_eq] at hup
      obtain ⟨hclock, hreadings⟩ := h.machine
      have hread : m.readings + made.length ≤ r.2.readings := by
        cases deadline? with
        | none => cases hup
        | some deadline =>
            rw [hreadings]
            simp
      exact timeUp_of_upAt hgoes hup hclock hread

end

theorem exists_accounted (hw : ∀ path, LeavesClock (worker path)) (stage : Stage)
    (limit : WorkerLimit) (deadline? : Option Rat) (order : Completion) (paths : List Text)
    (m : Machine) :
    ∃ answered, Accounted stage worker deadline? paths m
      ((run stage worker limit deadline? order paths).run m) answered := by
  obtain ⟨made, rest, h⟩ := exists_ran stage order limit (keeps_readFor deadline? m hw) paths
    readFor_zero
  obtain ⟨s, hs, hdone, houtcome⟩ := h.reached _ h.upAt_of_mem h.upAt_of_head?
  obtain ⟨_, _, haccounts⟩ := Standing.exists_accounts hs
  obtain ⟨answered, hfiles, hanswers, hskipped, heq⟩ := haccounts.outcome_eq hdone
  rw [houtcome] at hskipped heq
  obtain ⟨hclock, hreadings⟩ := h.machine
  refine ⟨answered, {
    files_eq := by rw [hfiles, ← hskipped]
    answers := fun p hp => ?_
    outcome_eq := heq
    later := ⟨hclock, by omega⟩
    in_time := h.skipped_eq_nil
    late := h.skipped_eq_paths
    expired := h.timeUp }⟩
  obtain ⟨_, m₁, -, ha⟩ := hanswers p hp
  exact ⟨m₁, ha⟩

end Batch
end SuiteAudit
