import SuiteAudit.Disk.Machine
import SuiteAudit.Failure
import SuiteAudit.Run.Options

/-! # Batches

A batch makes a call for each of some files, at most a fixed number of them at once.  When that many
are in flight it waits until some are done; which ones is up to a `Completion`.  A call that fails
is a failure of its file alone.  Once the time is up no further calls are made, and the files that
are left are skipped.  Results and failures stand in the order of the files.
-/

namespace SuiteAudit

structure BatchOutcome (β : Type) where
  results : List β
  failures : List FileFailure
  skipped : List Text

/-- A call for a file, with the position of the file. -/
structure Call where
  index : Nat
  path : Text
  deriving DecidableEq

/-- The calls that are done first, of those in flight when the call with a number is due. -/
abbrev Completion := Nat → List Call → List Call

namespace Completion

/-- The calls are done in the order in which they were made. -/
def inOrder : Completion := fun _ calls => calls.take 1

/-- The calls that are done at a wait, at least one. -/
def done (order : Completion) (due : Nat) (inFlight : List Call) : List Call :=
  match (order due inFlight).filter inFlight.elem with
  | [] => inFlight.take 1
  | calls => calls.eraseDups

end Completion

/-- A worker's say about a file: a result, or the text of its error. -/
abbrev Worker (β : Type) := Text → StateM Machine (Except Text β)

/-- The calls in flight and what became of the others, by the positions of their files. -/
structure Pool (β : Type) where
  inFlight : List Call := []
  results : List (Nat × β) := []
  failures : List (Nat × FileFailure) := []

namespace Pool

variable {β : Type}

/-- Takes in a call that is done. -/
def finish (stage : Stage) (worker : Worker β) (pool : Pool β) (call : Call) :
    StateM Machine (Pool β) := do
  let pool := { pool with inFlight := pool.inFlight.erase call }
  match ← worker call.path with
  | .ok result => return { pool with results := pool.results ++ [(call.index, result)] }
  | .error text =>
    return { pool with failures := pool.failures ++ [(call.index, ⟨call.path, stage, text⟩)] }

/-- Takes in the calls that are done at a wait. -/
def wait (stage : Stage) (worker : Worker β) (order : Completion) (due : Nat) (pool : Pool β) :
    StateM Machine (Pool β) :=
  (order.done due pool.inFlight).foldlM (finish stage worker) pool

/-- Waits when as many calls are in flight as may be. -/
def makeRoom (stage : Stage) (worker : Worker β) (limit : WorkerLimit) (order : Completion)
    (due : Nat) (pool : Pool β) : StateM Machine (Pool β) :=
  if limit.size ≤ pool.inFlight.length then wait stage worker order due pool else return pool

/-- Takes in all calls in flight, in at most `waits` waits. -/
def drain (stage : Stage) (worker : Worker β) (order : Completion) (due : Nat) :
    Nat → Pool β → StateM Machine (Pool β)
  | 0, pool => return pool
  | waits + 1, pool =>
    if pool.inFlight.isEmpty then return pool
    else do drain stage worker order due waits (← wait stage worker order due pool)

/-- The outcome of a pool with nothing in flight, and the files that were skipped. -/
def outcome (pool : Pool β) (skipped : List Text) : BatchOutcome β where
  results := (pool.results.mergeSort fun a b => a.1 ≤ b.1).map (·.2)
  failures := (pool.failures.mergeSort fun a b => a.1 ≤ b.1).map (·.2)
  skipped := skipped

end Pool

namespace Batch

variable {β : Type}

/-- Whether the time is up. -/
def timeIsUp (deadline? : Option Rat) : StateM Machine Bool :=
  match deadline? with
  | none => return false
  | some deadline => return decide (deadline ≤ (← Machine.now))

/-- Makes the calls one by one; gives the pool and the files that were skipped. -/
def schedule (stage : Stage) (worker : Worker β) (limit : WorkerLimit) (deadline? : Option Rat)
    (order : Completion) : List Call → Pool β → StateM Machine (Pool β × List Text)
  | [], pool => return (pool, [])
  | call :: rest, pool => do
    let pool ← Pool.makeRoom stage worker limit order call.index pool
    if ← timeIsUp deadline? then return (pool, call.path :: rest.map (·.path))
    schedule stage worker limit deadline? order rest
      { pool with inFlight := pool.inFlight ++ [call] }

/-- The calls for some files. -/
def callsFor (paths : List Text) : List Call := paths.zipIdx.map fun p => ⟨p.2, p.1⟩

/-- Runs a worker over some files. -/
def run (stage : Stage) (worker : Worker β) (limit : WorkerLimit) (deadline? : Option Rat)
    (order : Completion) (paths : List Text) : StateM Machine (BatchOutcome β) := do
  let (pool, skipped) ← schedule stage worker limit deadline? order (callsFor paths) {}
  let pool ← Pool.drain stage worker order paths.length pool.inFlight.length pool
  return pool.outcome skipped

end Batch
end SuiteAudit
