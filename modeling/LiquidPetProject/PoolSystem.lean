import LiquidPetProject.Transitions
import LiquidPetProject.WorkerPool

namespace LiquidPetProject.Messaging

open Transitions

inductive TaskPc
  | executing | returned | threw
  deriving DecidableEq, Repr

def TaskPc.ended : TaskPc → Bool
  | executing => false
  | returned => true
  | threw => true

def TaskPc.outcome (threw : Bool) : TaskPc := if threw then .threw else .returned

/-- A task goes by the number of the call of `trySubmit` that brought it. -/
inductive PoolEvent
  | submitted (call : ℕ) (accepted : Bool)
  | started (call : ℕ) (worker : ℕ)
  | removed (call : ℕ)
  | closed
  | stopped
  deriving DecidableEq, Repr

/-- A pool with its submitters, its workers and the thread that stops it. A waiting worker that is not in
`awake` sleeps in `_condition`; `notifications` counts the submitters that have not yet called `notify_one`;
`stopCall` is the next thread that the call of `stop` under way will ask to stop. -/
structure PoolSystem where
  pool : WorkerPool ℕ TaskPc
  calls : ℕ := 0
  awake : List ℕ
  notifications : ℕ := 0
  stopCall : Option ℕ := none
  history : List PoolEvent := []

inductive PoolAction
  | trySubmit
  | notify (woken : Option ℕ)
  | spuriousWakeup (i : ℕ)
  | take (i : ℕ)
  | sleep (i : ℕ)
  | exit (i : ℕ)
  | endTask (i : ℕ) (threw : Bool)
  | finish (i : ℕ)
  | stop
  | stopStep
  deriving DecidableEq, Repr

def WorkerState.isWaiting {Task Pc : Type} : WorkerState Task Pc → Bool
  | .waiting => true
  | _ => false

def WorkerState.isExecuting : WorkerState ℕ TaskPc → Bool
  | .running _ .executing => true
  | _ => false

namespace PoolSystem

def create (threadCount queueCapacity : ℕ) : PoolSystem where
  pool := WorkerPool.create threadCount queueCapacity
  awake := List.range (max 1 threadCount)

def isWaiting (s : PoolSystem) (i : ℕ) : Bool := s.pool.workers[i]?.any (fun worker => worker.state.isWaiting)

def isAsleep (s : PoolSystem) (i : ℕ) : Bool := s.isWaiting i && i ∉ s.awake

def sleepers (s : PoolSystem) : List ℕ := (List.range s.pool.workers.length).filter (fun i => s.isAsleep i)

def wake (s : PoolSystem) (i : ℕ) : PoolSystem := { s with awake := i :: s.awake }

def trySubmit (s : PoolSystem) : PoolSystem :=
  let (accepted, pool) := s.pool.trySubmit s.calls
  { s with
    pool := pool
    calls := s.calls + 1
    notifications := if accepted then s.notifications + 1 else s.notifications
    history := s.history ++ [.submitted s.calls accepted] }

def notify (s : PoolSystem) (woken : Option ℕ) : Option PoolSystem :=
  match s.notifications, woken with
  | 0, _ => none
  | n + 1, none => if s.sleepers = [] then some { s with notifications := n } else none
  | n + 1, some i => if s.isAsleep i then some { s.wake i with notifications := n } else none

def take (s : PoolSystem) (i : ℕ) : Option PoolSystem :=
  match s.pool.queue with
  | [] => none
  | call :: _ =>
    if i ∈ s.awake then
      (s.pool.take i .executing).map fun pool =>
        { s with pool := pool, awake := s.awake.erase i, history := s.history ++ [.started call i] }
    else none

def sleep (s : PoolSystem) (i : ℕ) : Option PoolSystem :=
  if i ∈ s.awake ∧ s.pool.queue = [] ∧ s.pool.workers[i]?.all (fun worker => !worker.stopRequested) = true then
    some { s with awake := s.awake.erase i }
  else none

def exit (s : PoolSystem) (i : ℕ) : Option PoolSystem :=
  if i ∈ s.awake then (s.pool.exit i).map fun pool => { s with pool := pool, awake := s.awake.erase i } else none

def endTask (s : PoolSystem) (i : ℕ) (threw : Bool) : Option PoolSystem :=
  if s.pool.workers[i]?.any (fun worker => worker.state.isExecuting) then
    some { s with pool := s.pool.advance i (.outcome threw) }
  else none

def finish (s : PoolSystem) (i : ℕ) : Option PoolSystem :=
  (s.pool.finish i TaskPc.ended).map fun pool => { s with pool := pool, awake := i :: s.awake }

def stop (s : PoolSystem) : Option PoolSystem :=
  if s.stopCall = none then
    some { s with
      pool := s.pool.close
      stopCall := some 0
      history := s.history ++ s.pool.queue.map .removed ++ [.closed] }
  else none

def stopStep (s : PoolSystem) : Option PoolSystem :=
  match s.stopCall with
  | none => none
  | some next =>
    if next < s.pool.workers.length then
      some { s with
        pool := s.pool.requestStop next
        awake := if s.isAsleep next then next :: s.awake else s.awake
        stopCall := some (next + 1) }
    else if s.pool.joined then
      some { s with
        pool := { s.pool with workers := [] }
        stopCall := none
        history := s.history ++ [.stopped] }
    else none

def step (s : PoolSystem) : PoolAction → Option PoolSystem
  | .trySubmit => some s.trySubmit
  | .notify woken => s.notify woken
  | .spuriousWakeup i => if s.isAsleep i then some (s.wake i) else none
  | .take i => s.take i
  | .sleep i => s.sleep i
  | .exit i => s.exit i
  | .endTask i threw => s.endTask i threw
  | .finish i => s.finish i
  | .stop => s.stop
  | .stopStep => s.stopStep

end PoolSystem

end LiquidPetProject.Messaging
