import Mathlib.Data.List.TakeWhile
import SuiteAudit.Proofs.Disk.Work
import SuiteAudit.Proofs.Run.Schedule
import SuiteAudit.Proofs.Table

/-! # Batches run along a schedule

A batch that runs on a machine is one of the schedules of its files (`exists_schedule`): a wait does
some calls in flight, room is made before a call, and the time is up when the clock says so.  So
what holds of all schedules holds of all batches, whatever the order in which their calls are
done. -/

namespace SuiteAudit

variable {β : Type}

/-! ### The calls that are done at a wait -/

namespace Completion

variable {order : Completion} {due : Nat} {inFlight : List Call}

theorem done_subset : order.done due inFlight ⊆ inFlight := by
  intro c hc
  unfold done at hc
  split at hc
  · exact List.mem_of_mem_take hc
  · have hmem := (List.mem_filter.mp (List.mem_eraseDups.mp hc)).2
    exact List.elem_iff.mp hmem

theorem nodup_done : (order.done due inFlight).Nodup := by
  unfold done
  split
  · cases inFlight with
    | nil => exact .nil
    | cons c inFlight => exact List.nodup_singleton c
  · exact nodup_eraseDups _

theorem done_ne_nil (h : inFlight ≠ []) : order.done due inFlight ≠ [] := by
  unfold done
  split
  · simpa using h
  · next hne =>
      obtain ⟨c, hc⟩ := List.exists_mem_of_ne_nil _ hne
      exact List.ne_nil_of_mem (List.mem_eraseDups.mpr hc)

end Completion

namespace Batch

variable {stage : Stage} {worker : Worker β} {deadline? : Option Rat} {order : Completion}
  {limit : WorkerLimit} {holds : Nat → Machine → Prop} {n due : Nat} {pool : Pool β} {m : Machine}

/-! ### Calls in flight -/

/-- What holds of the machine when the call with a number is due: calls that are done keep it, and
reading the clock makes it hold for the next call. -/
structure Keeps (worker : Worker β) (deadline? : Option Rat) (holds : Nat → Machine → Prop) :
    Prop where
  call : ∀ path n m, holds n m → holds n ((worker path).run m).2
  turn : ∀ n m, holds n m → holds (n + 1) ((timeIsUp deadline?).run m).2

/-- An answer that a worker gives for a file on a machine of which something holds. -/
def Gives (worker : Worker β) (holds : Nat → Machine → Prop) (path : Text)
    (a : Except Text β) : Prop :=
  ∃ n m, holds n m ∧ ((worker path).run m).1 = a

/-- From a pool, by some calls in flight that are done, to a pool and a machine. -/
structure Settled (stage : Stage) (worker : Worker β) (holds : Nat → Machine → Prop) (n : Nat)
    (pool : Pool β) (r : Pool β × Machine) : Prop where
  machine : holds n r.2
  steps : ∀ limit up due stopped, Steps stage limit up (Gives worker holds)
    ⟨due, stopped, pool⟩ ⟨due, stopped, r.1⟩
  length_le : r.1.inFlight.length ≤ pool.inFlight.length

theorem Settled.refl (hm : holds n m) : Settled stage worker holds n pool (pool, m) :=
  ⟨hm, fun _ _ _ _ => .refl, Nat.le_refl _⟩

theorem Settled.trans {r : Pool β × Machine} {t : Pool β × Machine}
    (h : Settled stage worker holds n pool r) (h' : Settled stage worker holds n r.1 t) :
    Settled stage worker holds n pool t where
  machine := h'.machine
  steps := fun limit up due stopped =>
    (h.steps limit up due stopped).trans (h'.steps limit up due stopped)
  length_le := Nat.le_trans h'.length_le h.length_le

theorem run_finish (pool : Pool β) (call : Call) (m : Machine) :
    (pool.finish stage worker call).run m =
      (pool.answer stage (call, ((worker call.path).run m).1), ((worker call.path).run m).2) := by
  unfold Pool.finish
  rw [run_bind]
  rcases (worker call.path).run m with ⟨_ | _, _⟩
  · simp only [Pool.answer, Answered.result?, Answered.failure?, Except.toOption, Option.map_none,
      Option.toList_none, Option.toList_some, List.append_nil]
    rfl
  · simp only [Pool.answer, Answered.result?, Answered.failure?, Except.toOption, Option.map_some,
      Option.toList_none, Option.toList_some, List.append_nil]
    rfl

variable (stage order due)

theorem settled_finish (hk : Keeps worker deadline? holds) (hm : holds n m) {call : Call}
    (hc : call ∈ pool.inFlight) :
    Settled stage worker holds n pool ((pool.finish stage worker call).run m) := by
  rw [run_finish]
  exact {
    machine := hk.call _ _ _ hm
    steps := fun limit up due stopped => .single (.finish hc ⟨n, m, hm, rfl⟩)
    length_le := List.length_erase_le .. }

/-- Calls in flight that are done one after the other are no longer in flight. -/
theorem settled_foldlM (hk : Keeps worker deadline? holds) {calls : List Call}
    (hcalls : calls ⊆ pool.inFlight) (hnodup : calls.Nodup) (hm : holds n m) :
    let r := (calls.foldlM (Pool.finish stage worker) pool).run m
    Settled stage worker holds n pool r ∧
      r.1.inFlight.length + calls.length = pool.inFlight.length := by
  induction calls generalizing pool m with
  | nil => exact ⟨.refl hm, rfl⟩
  | cons call calls ih =>
      obtain ⟨hcall, hcalls⟩ := List.cons_subset.mp hcalls
      obtain ⟨hnew, hnodup⟩ := List.nodup_cons.mp hnodup
      have hfirst := settled_finish stage hk hm hcall
      have hflight : ((pool.finish stage worker call).run m).1.inFlight =
          pool.inFlight.erase call := by
        rw [run_finish]
        rfl
      have hsub : calls ⊆ ((pool.finish stage worker call).run m).1.inFlight := by
        intro c hc
        have hne : c ≠ call := fun h => hnew (h ▸ hc)
        rw [hflight]
        exact (List.mem_erase_of_ne hne).mpr (hcalls hc)
      obtain ⟨hrest, hlength⟩ := ih hsub hnodup hfirst.machine
      rw [hflight, List.length_erase_of_mem hcall] at hlength
      have hpos := List.length_pos_of_mem hcall
      refine ⟨hfirst.trans hrest, ?_⟩
      simp only [List.foldlM_cons, run_bind, List.length_cons]
      omega

/-- A wait does at least one of the calls in flight. -/
theorem settled_wait (hk : Keeps worker deadline? holds) (hm : holds n m) :
    let r := (pool.wait stage worker order due).run m
    Settled stage worker holds n pool r ∧
      (pool.inFlight ≠ [] → r.1.inFlight.length < pool.inFlight.length) := by
  obtain ⟨hsettled, hlength⟩ := settled_foldlM stage hk
    (Completion.done_subset : order.done due pool.inFlight ⊆ _) Completion.nodup_done hm
  refine ⟨hsettled, fun h => ?_⟩
  have hdone : order.done due pool.inFlight ≠ [] := Completion.done_ne_nil h
  have hpos := List.length_pos_iff.mpr hdone
  unfold Pool.wait
  omega

/-- Room is made for a call. -/
theorem settled_makeRoom (hk : Keeps worker deadline? holds) (hm : holds n m) :
    let r := (pool.makeRoom stage worker limit order due).run m
    Settled stage worker holds n pool r ∧
      (pool.inFlight.length ≤ limit.size → r.1.inFlight.length < limit.size) := by
  have hpos := limit.size_pos
  unfold Pool.makeRoom
  split
  · next hfull =>
      obtain ⟨hwait, hlt⟩ := settled_wait stage order due hk hm
      refine ⟨hwait, fun h => ?_⟩
      have hne : pool.inFlight ≠ [] := List.length_pos_iff.mp (by omega)
      have hshorter := hlt hne
      omega
  · next hroom => exact ⟨.refl hm, fun _ => Nat.lt_of_not_le hroom⟩

/-- In the end nothing is in flight. -/
theorem settled_drain (hk : Keeps worker deadline? holds) {waits : Nat} (hm : holds n m)
    (h : pool.inFlight.length ≤ waits) :
    let r := (pool.drain stage worker order due waits).run m
    Settled stage worker holds n pool r ∧ r.1.inFlight = [] := by
  induction waits generalizing pool m with
  | zero => exact ⟨.refl hm, List.length_eq_zero_iff.mp (Nat.le_zero.mp h)⟩
  | succ waits ih =>
      unfold Pool.drain
      split
      · next hnil => exact ⟨.refl hm, List.isEmpty_iff.mp hnil⟩
      · next hne =>
          obtain ⟨hwait, hlt⟩ := settled_wait stage order due hk hm
          have hshorter := hlt fun h => hne (List.isEmpty_iff.mpr h)
          obtain ⟨hrest, hnil⟩ := ih hwait.machine
            (Nat.le_of_lt_succ (Nat.lt_of_lt_of_le hshorter h))
          exact ⟨hwait.trans hrest, hnil⟩

/-! ### The calls that are made -/

/-- What the clock can say when the call with a number is due. -/
def Reads (deadline? : Option Rat) (holds : Nat → Machine → Prop) (n : Nat) (up : Bool) : Prop :=
  ∃ m, holds n m ∧ ((timeIsUp deadline?).run m).1 = up

/-- From a pool, when the calls are due from the one with a number on, to the pool in which some of
them were made, and the others are left out because the time is up. -/
structure Scheduled (stage : Stage) (worker : Worker β) (limit : WorkerLimit)
    (deadline? : Option Rat) (holds : Nat → Machine → Prop) (n : Nat) (calls : List Call)
    (pool : Pool β) (r : (Pool β × List Text) × Machine) (made rest : List Call) : Prop where
  calls_eq : calls = made ++ rest
  skipped_eq : r.1.2 = rest.map (·.path)
  in_time : ∀ c ∈ made, Reads deadline? holds c.index false
  late : ∀ c, rest.head? = some c → Reads deadline? holds c.index true
  machine : holds (n + made.length + if rest.isEmpty then 0 else 1) r.2
  steps : ∀ up : Nat → Bool, (∀ c ∈ made, up c.index = false) →
    (∀ c, rest.head? = some c → up c.index = true) →
    Steps stage limit up (Gives worker holds) ⟨calls, false, pool⟩ ⟨rest, !rest.isEmpty, r.1.1⟩

variable {roomy : Pool β} {m' : Machine} {path : Text} {calls made rest : List Call}

/-- The time is up after room was made for a call. -/
theorem scheduled_stop (hroom : Settled stage worker holds n pool (roomy, m'))
    (hk : Keeps worker deadline? holds) (hup : ((timeIsUp deadline?).run m').1 = true) :
    Scheduled stage worker limit deadline? holds n (⟨n, path⟩ :: calls) pool
      ((roomy, path :: calls.map (·.path)), ((timeIsUp deadline?).run m').2) []
      (⟨n, path⟩ :: calls) where
  calls_eq := rfl
  skipped_eq := rfl
  in_time := fun c hc => by cases hc
  late := fun c hc => by
    obtain rfl := Option.some.inj hc
    exact ⟨m', hroom.machine, hup⟩
  machine := hk.turn n m' hroom.machine
  steps := fun up _ hlate => (hroom.steps limit up _ false).tail (.stop (hlate _ rfl))

/-- A call is made, and then those behind it. -/
theorem Scheduled.cons {r : (Pool β × List Text) × Machine}
    (hroom : Settled stage worker holds n pool (roomy, m'))
    (hlt : roomy.inFlight.length < limit.size)
    (hup : ((timeIsUp deadline?).run m').1 = false)
    (h : Scheduled stage worker limit deadline? holds (n + 1) calls
      { roomy with inFlight := roomy.inFlight ++ [⟨n, path⟩] } r made rest) :
    Scheduled stage worker limit deadline? holds n (⟨n, path⟩ :: calls) pool r
      (⟨n, path⟩ :: made) rest where
  calls_eq := congrArg _ h.calls_eq
  skipped_eq := h.skipped_eq
  in_time := fun c hc => by
    rcases List.mem_cons.mp hc with rfl | hc
    · exact ⟨m', hroom.machine, hup⟩
    · exact h.in_time c hc
  late := h.late
  machine := by
    rw [List.length_cons, show n + (made.length + 1) = n + 1 + made.length by omega]
    exact h.machine
  steps := fun up htime hlate => by
    have hcall : Step stage limit up (Gives worker holds) ⟨⟨n, path⟩ :: calls, false, roomy⟩ _ :=
      .make hlt (htime _ List.mem_cons_self)
    have hothers := h.steps up (fun c hc => htime c (List.mem_cons_of_mem _ hc)) hlate
    exact ((hroom.steps limit up _ false).tail hcall).trans hothers

theorem exists_scheduled (hk : Keeps worker deadline? holds) (paths : List Text) (hm : holds n m)
    (hroom : pool.inFlight.length ≤ limit.size) :
    let calls := (paths.zipIdx n).map fun p => (⟨p.2, p.1⟩ : Call)
    ∃ made rest, Scheduled stage worker limit deadline? holds n calls pool
      ((schedule stage worker limit deadline? order calls pool).run m) made rest := by
  induction paths generalizing n pool m with
  | nil =>
      exact ⟨[], [], {
        calls_eq := rfl
        skipped_eq := rfl
        in_time := fun c hc => by cases hc
        late := fun c hc => by cases hc
        machine := hm
        steps := fun _ _ _ => .refl }⟩
  | cons path paths ih =>
      obtain ⟨hmade, hlt⟩ := settled_makeRoom stage order n hk hm
      simp only [List.zipIdx_cons, List.map_cons, schedule, run_bind]
      generalize (pool.makeRoom stage worker limit order n).run m = t at hmade hlt
      obtain ⟨roomy, m'⟩ := t
      cases hup : ((timeIsUp deadline?).run m').1 with
      | true => exact ⟨_, _, scheduled_stop stage hmade hk hup⟩
      | false =>
          have hlength : (roomy.inFlight ++ [(⟨n, path⟩ : Call)]).length ≤ limit.size := by
            rw [List.length_append]
            exact hlt hroom
          obtain ⟨made, rest, h⟩ := @ih (n + 1)
            { roomy with inFlight := roomy.inFlight ++ [⟨n, path⟩] } _
            (hk.turn n m' hmade.machine) hlength
          exact ⟨_, _, h.cons stage hmade (hlt hroom) hup⟩

/-! ### Whole batches -/

/-- A batch on a machine: the calls that it made and those that it left out, and how it came to its
outcome. -/
structure Ran (stage : Stage) (worker : Worker β) (limit : WorkerLimit) (deadline? : Option Rat)
    (holds : Nat → Machine → Prop) (paths : List Text) (r : BatchOutcome β × Machine)
    (made rest : List Call) : Prop where
  calls_eq : callsFor paths = made ++ rest
  skipped_eq : r.1.skipped = rest.map (·.path)
  in_time : ∀ c ∈ made, Reads deadline? holds c.index false
  late : ∀ c, rest.head? = some c → Reads deadline? holds c.index true
  machine : holds (made.length + if rest.isEmpty then 0 else 1) r.2
  reached : ∀ up : Nat → Bool, (∀ c ∈ made, up c.index = false) →
    (∀ c, rest.head? = some c → up c.index = true) →
    ∃ s, Steps stage limit up (Gives worker holds) (start paths) s ∧ s.IsDone ∧ s.outcome = r.1

theorem exists_ran (limit : WorkerLimit) (hk : Keeps worker deadline? holds) (paths : List Text)
    (hm : holds 0 m) : ∃ made rest, Ran stage worker limit deadline? holds paths
      ((run stage worker limit deadline? order paths).run m) made rest := by
  have hroom : ({} : Pool β).inFlight.length ≤ limit.size := Nat.zero_le _
  obtain ⟨made, rest, h⟩ := exists_scheduled stage order hk paths hm hroom
  change Scheduled stage worker limit deadline? holds 0 (callsFor paths) {}
    ((schedule stage worker limit deadline? order (callsFor paths) {}).run m) made rest at h
  simp only [run, run_bind]
  generalize (schedule stage worker limit deadline? order (callsFor paths) {}).run m = t at h
  obtain ⟨⟨pool, skipped⟩, m'⟩ := t
  obtain ⟨hdrain, hnil⟩ := settled_drain stage order paths.length hk h.machine (Nat.le_refl _)
  refine ⟨made, rest, {
    calls_eq := h.calls_eq
    skipped_eq := h.skipped_eq
    in_time := h.in_time
    late := h.late
    machine := ?_
    reached := fun up htime hlate =>
      ⟨_, (h.steps up htime hlate).trans (hdrain.steps ..), ⟨hnil, ?_⟩, ?_⟩ }⟩
  · have hmachine := hdrain.machine
    rwa [Nat.zero_add] at hmachine
  · cases rest with
    | nil => exact Or.inl rfl
    | cons c rest => exact Or.inr rfl
  · exact congrArg _ h.skipped_eq.symm

/-! ### The clock -/

/-- Whether the time is up when the call with a number is due, if the clock of a machine is read
once for each call. -/
def upAt (deadline? : Option Rat) (m : Machine) (n : Nat) : Bool :=
  deadline?.any fun deadline => decide (deadline ≤ m.clock (m.readings + n))

/-- The clock of a machine was read for as many calls as a number says. -/
def ReadFor (deadline? : Option Rat) (m : Machine) (n : Nat) (m' : Machine) : Prop :=
  m'.clock = m.clock ∧ m'.readings = m.readings + if deadline?.isSome then n else 0

omit stage order due in
theorem readFor_zero : ReadFor deadline? m 0 m := ⟨rfl, by simp⟩

theorem keeps_readFor (deadline? : Option Rat) (m : Machine)
    (hw : ∀ path, LeavesClock (worker path)) : Keeps worker deadline? (ReadFor deadline? m) where
  call := by
    rintro path n m' ⟨hclock, hreadings⟩
    obtain ⟨hclock', hreadings'⟩ := hw path m'
    exact ⟨hclock'.trans hclock, hreadings'.trans hreadings⟩
  turn := by
    rintro n m' ⟨hclock, hreadings⟩
    cases deadline? with
    | none => exact ⟨hclock, hreadings⟩
    | some deadline => exact ⟨hclock, congrArg (· + 1) hreadings⟩

theorem Reads.eq_upAt {up : Bool} (h : Reads deadline? (ReadFor deadline? m) n up) :
    upAt deadline? m n = up := by
  obtain ⟨m', ⟨hclock, hreadings⟩, hup⟩ := h
  cases deadline? with
  | none => exact hup
  | some deadline =>
      have hread : ((timeIsUp (some deadline)).run m').1 =
          decide (deadline ≤ m'.clock m'.readings) := rfl
      rw [← hup, hread, hclock, hreadings]
      rfl

section
variable {stage} {paths : List Text} {r : BatchOutcome β × Machine}
  (h : Ran stage worker limit deadline? (ReadFor deadline? m) paths r made rest)
include h

/-- The time was not up at the turn of a call that was made. -/
theorem Ran.upAt_of_mem : ∀ c ∈ made, upAt deadline? m c.index = false :=
  fun c hc => (h.in_time c hc).eq_upAt

/-- The time was up at the turn of the first call that was not made. -/
theorem Ran.upAt_of_head? : ∀ c, rest.head? = some c → upAt deadline? m c.index = true :=
  fun c hc => (h.late c hc).eq_upAt

end

end Batch
end SuiteAudit
