import Mathlib.Tactic

namespace LiquidPetProject.Messaging

inductive WorkerState (Task Pc : Type)
  | waiting
  | running (task : Task) (pc : Pc)
  | exited
  deriving DecidableEq, Repr

structure Worker (Task Pc : Type) where
  state : WorkerState Task Pc := .waiting
  stopRequested : Bool := false
  deriving DecidableEq, Repr

structure WorkerPool (Task Pc : Type) where
  capacity : ℕ
  queue : List Task := []
  stopped : Bool := false
  workers : List (Worker Task Pc)
  deriving DecidableEq, Repr

namespace WorkerPool

variable {Task Pc : Type}

def create (threadCount queueCapacity : ℕ) : WorkerPool Task Pc where
  capacity := max 1 queueCapacity
  workers := List.replicate (max 1 threadCount) {}

def trySubmit (pool : WorkerPool Task Pc) (task : Task) : Bool × WorkerPool Task Pc :=
  if pool.stopped || pool.queue.length ≥ pool.capacity then (false, pool)
  else (true, { pool with queue := pool.queue ++ [task] })

def take (pool : WorkerPool Task Pc) (i : ℕ) (start : Pc) : Option (WorkerPool Task Pc) :=
  match pool.workers[i]?, pool.queue with
  | some ⟨.waiting, false⟩, task :: rest =>
    some { pool with queue := rest, workers := pool.workers.set i ⟨.running task start, false⟩ }
  | _, _ => none

def exit (pool : WorkerPool Task Pc) (i : ℕ) : Option (WorkerPool Task Pc) :=
  match pool.workers[i]? with
  | some ⟨.waiting, true⟩ => some { pool with workers := pool.workers.set i ⟨.exited, true⟩ }
  | _ => none

def advance (pool : WorkerPool Task Pc) (i : ℕ) (pc : Pc) : WorkerPool Task Pc :=
  match pool.workers[i]? with
  | some ⟨.running task _, stop⟩ => { pool with workers := pool.workers.set i ⟨.running task pc, stop⟩ }
  | _ => pool

def finish (pool : WorkerPool Task Pc) (i : ℕ) (ended : Pc → Bool) : Option (WorkerPool Task Pc) :=
  match pool.workers[i]? with
  | some ⟨.running _ pc, stop⟩ =>
    if ended pc then some { pool with workers := pool.workers.set i ⟨.waiting, stop⟩ } else none
  | _ => none

def close (pool : WorkerPool Task Pc) : WorkerPool Task Pc := { pool with stopped := true, queue := [] }

def requestStop (pool : WorkerPool Task Pc) (i : ℕ) : WorkerPool Task Pc :=
  match pool.workers[i]? with
  | some worker => { pool with workers := pool.workers.set i { worker with stopRequested := true } }
  | none => pool

def joined (pool : WorkerPool Task Pc) : Bool :=
  pool.workers.all (fun worker => match worker.state with
    | .exited => true
    | _ => false)

variable {pool pool' : WorkerPool Task Pc} {i : ℕ}

theorem take_eq_some {start : Pc} (h : pool.take i start = some pool') :
    ∃ task rest, pool.workers[i]? = some ⟨.waiting, false⟩ ∧ pool.queue = task :: rest ∧
      pool' = { pool with queue := rest, workers := pool.workers.set i ⟨.running task start, false⟩ } := by
  unfold take at h
  split at h
  · rename_i task rest hw hq
    exact ⟨task, rest, hw, hq, (Option.some.inj h).symm⟩
  · cases h

theorem exit_eq_some (h : pool.exit i = some pool') : pool.workers[i]? = some ⟨.waiting, true⟩ ∧
    pool' = { pool with workers := pool.workers.set i ⟨.exited, true⟩ } := by
  unfold exit at h
  split at h
  · rename_i hw
    exact ⟨hw, (Option.some.inj h).symm⟩
  · cases h

theorem finish_eq_some {ended : Pc → Bool} (h : pool.finish i ended = some pool') :
    ∃ task pc stop, pool.workers[i]? = some ⟨.running task pc, stop⟩ ∧ ended pc = true ∧
      pool' = { pool with workers := pool.workers.set i ⟨.waiting, stop⟩ } := by
  unfold finish at h
  split at h
  · rename_i task pc stop hw
    split_ifs at h with he
    exact ⟨task, pc, stop, hw, he, (Option.some.inj h).symm⟩
  · cases h

theorem advance_of_running {task : Task} {pc : Pc} {stop : Bool}
    (hw : pool.workers[i]? = some ⟨.running task pc, stop⟩) (pc' : Pc) :
    pool.advance i pc' = { pool with workers := pool.workers.set i ⟨.running task pc', stop⟩ } := by
  simp [advance, hw]

theorem requestStop_of_some {w : Worker Task Pc} (hw : pool.workers[i]? = some w) :
    pool.requestStop i = { pool with workers := pool.workers.set i { w with stopRequested := true } } := by
  simp [requestStop, hw]

theorem requestStop_of_none (hw : pool.workers[i]? = none) : pool.requestStop i = pool := by
  simp [requestStop, hw]

end WorkerPool

end LiquidPetProject.Messaging
