import Mathlib.Data.List.Sort
import Mathlib.Logic.Relation
import SuiteAudit.Run.Batch

/-! # Schedules of a batch

`Batch.Step` says how a batch may go on, without saying what it does next: it makes the next call
while fewer than the limit are in flight, it makes no more of them when the time is up at the turn
of a call, and any call in flight may be done at any moment, with any answer that it can have.  What
a step keeps (`Standing.Accounts.step`) holds along every schedule: the calls that were made are in
flight or answered, each once.  A schedule ends, for each step leaves less to do
(`Step.remaining_lt`), and then its outcome gives each file its answer in the order of the files
(`Standing.Accounts.outcome_eq`). -/

namespace SuiteAudit

variable {β : Type}

/-! ### Keys -/

theorem pairwise_mergeSort_key {α : Type} (key : α → Nat) (l : List α) :
    (l.mergeSort fun a b => key a ≤ key b).Pairwise fun a b => key a ≤ key b := by
  have hsorted : (l.mergeSort fun a b => key a ≤ key b).Pairwise
      fun a b => decide (key a ≤ key b) = true :=
    List.pairwise_mergeSort
      (fun a b c hab hbc => by simp only [decide_eq_true_eq] at hab hbc ⊢; omega)
      (fun a b => by simp only [Bool.or_eq_true, decide_eq_true_eq]; omega) l
  exact hsorted.imp of_decide_eq_true

/-- A list is sorted by numbers that are all different in just one way. -/
theorem mergeSort_eq_of_perm {α : Type} (key : α → Nat) {l l' : List α} (hp : l.Perm l')
    (hs : l'.Pairwise fun a b => key a < key b) :
    l.mergeSort (fun a b => key a ≤ key b) = l' := by
  have hperm := (List.mergeSort_perm l fun a b => key a ≤ key b).trans hp
  have hinj : ∀ a ∈ l', ∀ b ∈ l', key a = key b → a = b :=
    List.inj_on_of_nodup_map (List.pairwise_map.mpr (hs.imp Nat.ne_of_lt))
  refine hperm.eq_of_pairwise (fun a b ha hb hab hba => ?_) (pairwise_mergeSort_key key l)
    (hs.imp Nat.le_of_lt)
  exact hinj a (hperm.mem_iff.mp ha) b hb (Nat.le_antisymm hab hba)

/-! ### Answers -/

/-- The outcome in which each of some files has its answer, in their order. -/
def BatchOutcome.ofAnswers (stage : Stage) (answered : List (Text × Except Text β))
    (skipped : List Text) : BatchOutcome β where
  results := answered.filterMap fun p => p.2.toOption
  failures := answered.filterMap fun p => match p.2 with
    | .ok _ => none
    | .error text => some ⟨p.1, stage, text⟩
  skipped := skipped

/-- A call that was answered, with its answer. -/
abbrev Answered (β : Type) := Call × Except Text β

/-- The result of a call with its position, if it has one. -/
def Answered.result? (p : Answered β) : Option (Nat × β) := p.2.toOption.map (p.1.index, ·)

/-- The failure of a call with its position, if it failed. -/
def Answered.failure? (stage : Stage) (p : Answered β) : Option (Nat × FileFailure) :=
  match p.2 with
  | .ok _ => none
  | .error text => some (p.1.index, ⟨p.1.path, stage, text⟩)

theorem Answered.fst_of_result? {p : Answered β} {a : Nat × β} (h : p.result? = some a) :
    a.1 = p.1.index := by
  obtain ⟨_, -, rfl⟩ := Option.map_eq_some_iff.mp h
  rfl

theorem Answered.fst_of_failure? {stage : Stage} {p : Answered β} {a : Nat × FileFailure}
    (h : p.failure? stage = some a) : a.1 = p.1.index := by
  unfold failure? at h
  split at h
  · cases h
  · rw [← Option.some.inj h]

/-- The pool when a call in flight is done with an answer. -/
def Pool.answer (stage : Stage) (pool : Pool β) (p : Answered β) : Pool β where
  inFlight := pool.inFlight.erase p.1
  results := pool.results ++ p.result?.toList
  failures := pool.failures ++ (p.failure? stage).toList

namespace Batch

/-! ### Steps -/

/-- Where a batch stands: the calls that were not made, whether they are left out, and the pool. -/
structure Standing (β : Type) where
  due : List Call
  stopped : Bool := false
  pool : Pool β := {}

/-- The start of a batch over some files. -/
def start (paths : List Text) : Standing β := { due := callsFor paths }

/-- How a batch may go on.  `up` tells whether the time is up at the turn of a call, and `answers`
which answers a call for a file can have. -/
inductive Step (stage : Stage) (limit : WorkerLimit) (up : Nat → Bool)
    (answers : Text → Except Text β → Prop) : Standing β → Standing β → Prop
  | make {call : Call} {due : List Call} {pool : Pool β} :
      pool.inFlight.length < limit.size → up call.index = false →
      Step stage limit up answers ⟨call :: due, false, pool⟩
        ⟨due, false, { pool with inFlight := pool.inFlight ++ [call] }⟩
  | stop {call : Call} {due : List Call} {pool : Pool β} : up call.index = true →
      Step stage limit up answers ⟨call :: due, false, pool⟩ ⟨call :: due, true, pool⟩
  | finish {due : List Call} {stopped : Bool} {pool : Pool β} {p : Answered β} :
      p.1 ∈ pool.inFlight → answers p.1.path p.2 →
      Step stage limit up answers ⟨due, stopped, pool⟩ ⟨due, stopped, pool.answer stage p⟩

/-- A batch goes on in any number of steps. -/
abbrev Steps (stage : Stage) (limit : WorkerLimit) (up : Nat → Bool)
    (answers : Text → Except Text β → Prop) : Standing β → Standing β → Prop :=
  Relation.ReflTransGen (Step stage limit up answers)

/-- The files that have their turn before the time is up. -/
def timely (up : Nat → Bool) (paths : List Text) : List Text :=
  ((callsFor paths).takeWhile fun c => !up c.index).map (·.path)

theorem map_path_callsFor (paths : List Text) : (callsFor paths).map (·.path) = paths := by
  rw [callsFor, List.map_map]
  exact List.zipIdx_map_fst 0 paths

theorem pairwise_callsFor (paths : List Text) :
    (callsFor paths).Pairwise fun c d => c.index < d.index := by
  have h : (callsFor paths).map (·.index) = List.range' 0 paths.length := by
    rw [callsFor, List.map_map]
    exact List.zipIdx_map_snd 0 paths
  exact List.pairwise_map.mp (h ▸ List.pairwise_lt_range')

variable {stage : Stage} {limit : WorkerLimit} {up : Nat → Bool}
  {answers : Text → Except Text β → Prop} {paths : List Text} {s t : Standing β}

namespace Standing

/-- Nothing is in flight and no call is made any more. -/
def IsDone (s : Standing β) : Prop := s.pool.inFlight = [] ∧ (s.due = [] ∨ s.stopped = true)

def outcome (s : Standing β) : BatchOutcome β := s.pool.outcome (s.due.map (·.path))

/-- What is left to do: two steps for a call that may be made, one for a call in flight, and the
stop. -/
def remaining (s : Standing β) : Nat :=
  (if s.stopped then 0 else 2 * s.due.length + 1) + s.pool.inFlight.length

/-- What holds of a batch at all times: the calls that were made, in their order up to the first one
for which the time is up, are in flight or answered, each once. -/
structure Accounts (stage : Stage) (limit : WorkerLimit) (up : Nat → Bool)
    (answers : Text → Except Text β → Prop) (paths : List Text) (s : Standing β)
    (made : List Call) (log : List (Answered β)) : Prop where
  window : s.pool.inFlight.length ≤ limit.size
  calls_eq : callsFor paths = made ++ s.due
  in_time : ∀ c ∈ made, up c.index = false
  stopped : s.stopped = true → ∃ c, s.due.head? = some c ∧ up c.index = true
  made_perm : (log.map Prod.fst ++ s.pool.inFlight).Perm made
  answered : ∀ p ∈ log, answers p.1.path p.2
  results_eq : s.pool.results = log.filterMap Answered.result?
  failures_eq : s.pool.failures = log.filterMap (Answered.failure? stage)

theorem accounts_start : (start paths : Standing β).Accounts stage limit up answers paths [] [] where
  window := Nat.zero_le _
  calls_eq := rfl
  in_time := fun c hc => by cases hc
  stopped := fun h => by cases h
  made_perm := .nil
  answered := fun p hp => by cases hp
  results_eq := rfl
  failures_eq := rfl

end Standing

/-- More answers allow the same steps. -/
theorem Step.mono {answers' : Text → Except Text β → Prop}
    (hanswers : ∀ path a, answers path a → answers' path a)
    (h : Step stage limit up answers s t) : Step stage limit up answers' s t := by
  cases h with
  | make hroom htime => exact .make hroom htime
  | stop htime => exact .stop htime
  | finish hp ha => exact .finish hp (hanswers _ _ ha)

namespace Standing

variable {made : List Call} {log : List (Answered β)}

/-- What holds at all times is kept by a step. -/
theorem Accounts.step (h : s.Accounts stage limit up answers paths made log)
    (hstep : Step stage limit up answers s t) :
    ∃ made log, t.Accounts stage limit up answers paths made log := by
  cases hstep with
  | @make call due pool hroom htime =>
      refine ⟨made ++ [call], log, {
        window := ?_
        calls_eq := ?_
        in_time := fun c hc => ?_
        stopped := fun hs => by cases hs
        made_perm := ?_
        answered := h.answered
        results_eq := h.results_eq
        failures_eq := h.failures_eq }⟩
      · rw [List.length_append]
        exact hroom
      · rw [h.calls_eq, List.append_assoc]
        rfl
      · rcases List.mem_append.mp hc with hc | hc
        · exact h.in_time c hc
        · rw [List.mem_singleton.mp hc]
          exact htime
      · rw [← List.append_assoc]
        exact h.made_perm.append_right [call]
  | @stop call due pool htime =>
      exact ⟨made, log, { h with stopped := fun _ => ⟨call, rfl, htime⟩ }⟩
  | @finish due stopped pool p hp hanswer =>
      refine ⟨made, log ++ [p], {
        window := ?_
        calls_eq := h.calls_eq
        in_time := h.in_time
        stopped := h.stopped
        made_perm := ?_
        answered := fun q hq => ?_
        results_eq := ?_
        failures_eq := ?_ }⟩
      · exact Nat.le_trans (List.length_erase_le ..) h.window
      · have hperm := List.perm_cons_erase hp
        rw [List.map_append, List.append_assoc]
        exact (hperm.symm.append_left (log.map Prod.fst)).trans h.made_perm
      · rcases List.mem_append.mp hq with hq | hq
        · exact h.answered q hq
        · rw [List.mem_singleton.mp hq]
          exact hanswer
      · have hlog : pool.results = log.filterMap Answered.result? := h.results_eq
        simp only [Pool.answer, hlog, List.filterMap_append]
        cases hr : p.result? <;> simp [hr]
      · have hlog : pool.failures = log.filterMap (Answered.failure? stage) := h.failures_eq
        simp only [Pool.answer, hlog, List.filterMap_append]
        cases hr : p.failure? stage <;> simp [hr]

/-- It holds along every schedule. -/
theorem exists_accounts (h : Steps stage limit up answers (start paths) s) :
    ∃ made log, s.Accounts stage limit up answers paths made log := by
  induction h with
  | refl => exact ⟨[], [], accounts_start⟩
  | tail _ hstep ih =>
      obtain ⟨made, log, h⟩ := ih
      exact h.step hstep

/-- When nothing is in flight, the answers can be put in the order of the calls. -/
theorem Accounts.exists_sorted (h : s.Accounts stage limit up answers paths made log)
    (hs : s.pool.inFlight = []) : ∃ sorted : List (Answered β), sorted.Perm log ∧
      sorted.map Prod.fst = made ∧ sorted.Pairwise fun p q => p.1.index < q.1.index := by
  have hperm := h.made_perm
  rw [hs, List.append_nil] at hperm
  have hmade : made.Pairwise fun c d => c.index < d.index :=
    (h.calls_eq ▸ pairwise_callsFor paths).sublist (List.sublist_append_left made s.due)
  have hsorted := List.mergeSort_perm log fun p q => p.1.index ≤ q.1.index
  have hle := pairwise_mergeSort_key (fun p : Answered β => p.1.index) log
  have hcalls : (log.mergeSort fun p q => p.1.index ≤ q.1.index).map Prod.fst = made := by
    rw [← mergeSort_eq_of_perm (·.index) ((hsorted.map Prod.fst).trans hperm) hmade]
    exact (List.mergeSort_of_pairwise
      (List.pairwise_map.mpr (hle.imp fun h => decide_eq_true h))).symm
  rw [← hcalls, List.pairwise_map] at hmade
  exact ⟨_, hsorted, hcalls, hmade⟩

/-- When no call is made any more, calls were made for the files that had their turn in time. -/
theorem Accounts.timely_eq (h : s.Accounts stage limit up answers paths made log)
    (hs : s.due = [] ∨ s.stopped = true) : timely up paths = made.map (·.path) := by
  have htake : (callsFor paths).takeWhile (fun c => !up c.index) = made := by
    rw [h.calls_eq, List.takeWhile_append_of_pos fun c hc => by simp [h.in_time c hc]]
    rcases hs with hnil | hstop
    · rw [hnil, List.takeWhile_nil, List.append_nil]
    · obtain ⟨c, hc, hup⟩ := h.stopped hstop
      obtain ⟨rest, hrest⟩ := List.head?_eq_some_iff.mp hc
      rw [hrest, List.takeWhile_cons_of_neg (by simp [hup]), List.append_nil]
  rw [timely, htake]

/-- When a batch is done, each file that had its turn in time has an answer. -/
theorem Accounts.outcome_eq (h : s.Accounts stage limit up answers paths made log)
    (hs : s.IsDone) : ∃ answered : List (Text × Except Text β),
      answered.map Prod.fst = timely up paths ∧ (∀ p ∈ answered, answers p.1 p.2) ∧
      paths = timely up paths ++ s.outcome.skipped ∧
      s.outcome = .ofAnswers stage answered s.outcome.skipped := by
  obtain ⟨hflight, hdue⟩ := hs
  obtain ⟨sorted, hsorted, hcalls, hindices⟩ := h.exists_sorted hflight
  have htimely := h.timely_eq hdue
  refine ⟨sorted.map fun p => (p.1.path, p.2), ?_, fun q hq => ?_, ?_, ?_⟩
  · rw [htimely, ← hcalls, List.map_map, List.map_map]
    rfl
  · obtain ⟨p, hp, rfl⟩ := List.mem_map.mp hq
    exact h.answered p (hsorted.mem_iff.mp hp)
  · have hpaths := map_path_callsFor paths
    rw [h.calls_eq, List.map_append] at hpaths
    rw [htimely]
    exact hpaths.symm
  · have hresults : s.pool.results.mergeSort (fun a b => a.1 ≤ b.1) =
        sorted.filterMap Answered.result? := by
      refine mergeSort_eq_of_perm Prod.fst ?_ ?_
      · rw [h.results_eq]
        exact (hsorted.filterMap _).symm
      · refine List.Pairwise.filterMap _ (fun p q hpq a ha b hb => ?_) hindices
        rwa [Answered.fst_of_result? ha, Answered.fst_of_result? hb]
    have hfailures : s.pool.failures.mergeSort (fun a b => a.1 ≤ b.1) =
        sorted.filterMap (Answered.failure? stage) := by
      refine mergeSort_eq_of_perm Prod.fst ?_ ?_
      · rw [h.failures_eq]
        exact (hsorted.filterMap _).symm
      · refine List.Pairwise.filterMap _ (fun p q hpq a ha b hb => ?_) hindices
        rwa [Answered.fst_of_failure? ha, Answered.fst_of_failure? hb]
    simp only [outcome, Pool.outcome, BatchOutcome.ofAnswers, hresults, hfailures,
      List.filterMap_map, List.map_filterMap]
    congr 1
    · refine List.filterMap_congr fun p _ => ?_
      simp [Answered.result?]
    · refine List.filterMap_congr fun p _ => ?_
      unfold Answered.failure?
      simp only [Function.comp_apply]
      split <;> rfl

end Standing
end Batch
end SuiteAudit
