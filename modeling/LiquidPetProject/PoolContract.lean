import LiquidPetProject.PoolProgress

namespace LiquidPetProject.Messaging

open Transitions

def TaskPc.calm : TaskPc → TaskPc
  | executing => executing
  | _ => returned

def WorkerState.calm : WorkerState ℕ TaskPc → WorkerState ℕ TaskPc
  | .running call pc => .running call pc.calm
  | state => state

def Worker.calm (worker : Worker ℕ TaskPc) : Worker ℕ TaskPc := { worker with state := worker.state.calm }

def WorkerPool.calm (pool : WorkerPool ℕ TaskPc) : WorkerPool ℕ TaskPc :=
  { pool with workers := pool.workers.map Worker.calm }

def PoolAction.calm : PoolAction → PoolAction
  | .endTask i _ => .endTask i false
  | a => a

namespace WorkerPool

variable (pool : WorkerPool ℕ TaskPc) (i : ℕ)

theorem calm_getElem? : pool.calm.workers[i]? = pool.workers[i]?.map Worker.calm := List.getElem?_map

theorem take_calm : pool.calm.take i .executing = (pool.take i .executing).map calm := by
  unfold take
  rw [calm_getElem?]
  cases hw : pool.workers[i]? with
  | none => rfl
  | some worker =>
    obtain ⟨state, flag⟩ := worker
    cases state with
    | waiting =>
      cases flag with
      | false =>
        cases hq : pool.queue with
        | nil => simp [calm, hq, Worker.calm, WorkerState.calm]
        | cons call rest => simp [calm, hq, Worker.calm, WorkerState.calm, TaskPc.calm]
      | true => simp [Worker.calm, WorkerState.calm]
    | running call pc => simp [Worker.calm, WorkerState.calm]
    | exited => simp [Worker.calm, WorkerState.calm]

theorem exit_calm : pool.calm.exit i = (pool.exit i).map calm := by
  unfold exit
  rw [calm_getElem?]
  cases hw : pool.workers[i]? with
  | none => rfl
  | some worker =>
    obtain ⟨state, flag⟩ := worker
    cases state with
    | waiting => cases flag <;> simp [calm, Worker.calm, WorkerState.calm]
    | running call pc => simp [Worker.calm, WorkerState.calm]
    | exited => simp [Worker.calm, WorkerState.calm]

theorem finish_calm : pool.calm.finish i TaskPc.ended = (pool.finish i TaskPc.ended).map calm := by
  unfold finish
  rw [calm_getElem?]
  cases hw : pool.workers[i]? with
  | none => rfl
  | some worker =>
    obtain ⟨state, flag⟩ := worker
    cases state with
    | waiting => rfl
    | running call pc => cases pc <;> simp [calm, Worker.calm, WorkerState.calm, TaskPc.calm, TaskPc.ended]
    | exited => rfl

theorem advance_calm (threw : Bool) : pool.calm.advance i (.outcome false) = (pool.advance i (.outcome threw)).calm := by
  unfold advance
  rw [calm_getElem?]
  cases hw : pool.workers[i]? with
  | none => rfl
  | some worker =>
    obtain ⟨state, flag⟩ := worker
    cases state with
    | waiting => rfl
    | running call pc => cases threw <;> simp [calm, Worker.calm, WorkerState.calm, TaskPc.calm, TaskPc.outcome]
    | exited => rfl

theorem requestStop_calm : pool.calm.requestStop i = (pool.requestStop i).calm := by
  unfold requestStop
  rw [calm_getElem?]
  cases hw : pool.workers[i]? with
  | none => rfl
  | some worker => simp [calm, Worker.calm]

theorem joined_calm : pool.calm.joined = pool.joined := by
  unfold joined calm
  rw [List.all_map]
  congr 1
  funext worker
  obtain ⟨state, flag⟩ := worker
  cases state <;> rfl

end WorkerPool

namespace PoolSystem

def calm (s : PoolSystem) : PoolSystem := { s with pool := s.pool.calm }

section Calm

variable (s : PoolSystem) (i : ℕ)

theorem isWaiting_calm : s.calm.isWaiting i = s.isWaiting i := by
  unfold isWaiting calm
  rw [WorkerPool.calm_getElem?]
  cases hw : s.pool.workers[i]? with
  | none => rfl
  | some worker =>
    obtain ⟨state, flag⟩ := worker
    cases state <;> rfl

theorem isAsleep_calm : s.calm.isAsleep i = s.isAsleep i := by
  unfold isAsleep
  rw [isWaiting_calm]
  rfl

theorem sleepers_calm : s.calm.sleepers = s.sleepers := by
  unfold sleepers
  rw [show s.calm.pool.workers.length = s.pool.workers.length from List.length_map _]
  exact List.filter_congr (fun j _ => isAsleep_calm s j)

theorem trySubmit_calm : s.calm.trySubmit = s.trySubmit.calm := by
  unfold trySubmit WorkerPool.trySubmit calm WorkerPool.calm
  simp only
  split_ifs <;> rfl

theorem notify_calm (woken : Option ℕ) : s.calm.notify woken = (s.notify woken).map calm := by
  unfold notify
  rw [show s.calm.notifications = s.notifications from rfl, sleepers_calm]
  cases s.notifications with
  | zero => rfl
  | succ n =>
    cases woken with
    | none =>
      simp only
      split_ifs <;> rfl
    | some j =>
      simp only [isAsleep_calm]
      split_ifs <;> rfl

theorem take_calm : s.calm.take i = (s.take i).map calm := by
  unfold take
  rw [show s.calm.pool.queue = s.pool.queue from rfl]
  cases s.pool.queue with
  | nil => rfl
  | cons call rest =>
    simp only [calm, WorkerPool.take_calm, Option.map_map]
    split_ifs
    · rw [Option.map_map]
      rfl
    · rfl

theorem sleep_calm : s.calm.sleep i = (s.sleep i).map calm := by
  have hall : (s.calm.pool.workers[i]?.all (fun worker => !worker.stopRequested)) =
      s.pool.workers[i]?.all (fun worker => !worker.stopRequested) := by
    rw [show s.calm.pool = s.pool.calm from rfl, WorkerPool.calm_getElem?]
    cases s.pool.workers[i]? <;> rfl
  unfold sleep
  rw [hall, show s.calm.awake = s.awake from rfl, show s.calm.pool.queue = s.pool.queue from rfl]
  split_ifs <;> rfl

theorem exit_calm : s.calm.exit i = (s.exit i).map calm := by
  unfold exit
  simp only [calm, WorkerPool.exit_calm, Option.map_map]
  split_ifs
  · rw [Option.map_map]
    rfl
  · rfl

theorem endTask_calm (threw : Bool) : s.calm.endTask i false = (s.endTask i threw).map calm := by
  have hany : (s.calm.pool.workers[i]?.any (fun worker => worker.state.isExecuting)) =
      s.pool.workers[i]?.any (fun worker => worker.state.isExecuting) := by
    rw [show s.calm.pool = s.pool.calm from rfl, WorkerPool.calm_getElem?]
    cases s.pool.workers[i]? with
    | none => rfl
    | some worker =>
      obtain ⟨state, flag⟩ := worker
      cases state with
      | waiting => rfl
      | running call pc => cases pc <;> rfl
      | exited => rfl
  unfold endTask
  rw [hany]
  split_ifs
  · simp only [calm, WorkerPool.advance_calm s.pool i threw, Option.map_some]
  · rfl

theorem finish_calm : s.calm.finish i = (s.finish i).map calm := by
  unfold finish
  simp only [calm, WorkerPool.finish_calm, Option.map_map]
  rfl

theorem stop_calm : s.calm.stop = s.stop.map calm := by
  unfold stop
  rw [show s.calm.stopCall = s.stopCall from rfl]
  split_ifs <;> rfl

theorem stopStep_calm : s.calm.stopStep = s.stopStep.map calm := by
  unfold stopStep
  rw [show s.calm.stopCall = s.stopCall from rfl]
  cases s.stopCall with
  | none => rfl
  | some next =>
    rw [show s.calm.pool = s.pool.calm from rfl]
    simp only [isAsleep_calm, WorkerPool.joined_calm, WorkerPool.requestStop_calm]
    rw [show s.pool.calm.workers.length = s.pool.workers.length from List.length_map _]
    split_ifs <;> rfl

theorem step_calm (a : PoolAction) : s.calm.step a.calm = (s.step a).map calm := by
  cases a with
  | trySubmit => exact congrArg some (trySubmit_calm s)
  | notify woken => exact notify_calm s woken
  | spuriousWakeup j =>
    simp only [PoolAction.calm, step, isAsleep_calm]
    split_ifs <;> rfl
  | take j => exact take_calm s j
  | sleep j => exact sleep_calm s j
  | exit j => exact exit_calm s j
  | endTask j threw => exact endTask_calm s j threw
  | finish j => exact finish_calm s j
  | stop => exact stop_calm s
  | stopStep => exact stopStep_calm s

theorem run_calm (actions : List PoolAction) :
    run step s.calm (actions.map PoolAction.calm) = (run step s actions).map calm := by
  induction actions generalizing s with
  | nil => rfl
  | cons a actions ih =>
    rw [List.map_cons, run_cons, run_cons, step_calm]
    cases s.step a with
    | none => rfl
    | some t => exact ih t

theorem calm_create (threadCount queueCapacity : ℕ) :
    (create threadCount queueCapacity).calm = create threadCount queueCapacity := by
  simp [calm, WorkerPool.calm, create, WorkerPool.create, Worker.calm, WorkerState.calm]

end Calm

section Calls

variable {s : PoolSystem}

theorem accepted_sublist_submitted (history : List PoolEvent) :
    List.Sublist (history.filterMap PoolEvent.acceptedCall) (history.filterMap PoolEvent.submittedCall) := by
  induction history with
  | nil => exact List.Sublist.refl _
  | cons event history ih =>
    cases event with
    | submitted call accepted =>
      cases accepted with
      | true => exact ih.cons_cons call
      | false => exact ih.cons call
    | started call worker => exact ih
    | removed call => exact ih
    | closed => exact ih
    | stopped => exact ih

theorem answer_unique {history : List PoolEvent} (h : (history.filterMap PoolEvent.submittedCall).Nodup) {call : ℕ}
    (hrejected : .submitted call false ∈ history) : call ∉ history.filterMap PoolEvent.acceptedCall := by
  obtain ⟨before, after, rfl⟩ := List.append_of_mem hrejected
  rw [List.filterMap_append, List.filterMap_cons_some (by rfl)] at h
  obtain ⟨hnotin, -⟩ := List.nodup_cons.mp (List.nodup_middle.mp h)
  rw [List.filterMap_append, List.filterMap_cons_none (by rfl)]
  intro hcall
  apply hnotin
  rcases List.mem_append.mp hcall with hcall | hcall
  · exact List.mem_append_left _ ((accepted_sublist_submitted before).mem hcall)
  · exact List.mem_append_right _ ((accepted_sublist_submitted after).mem hcall)

theorem Recorded.started_prefix (h : Recorded s) : s.startedCalls <+: s.acceptedCalls := by
  rw [h.accounted, List.append_assoc]
  exact List.prefix_append _ _

theorem Recorded.accepted_nodup (h : Recorded s) : s.acceptedCalls.Nodup :=
  (accepted_sublist_submitted s.history).nodup h.answered

theorem Recorded.rejected_not_started (h : Recorded s) {call : ℕ} (hrejected : .submitted call false ∈ s.history) :
    call ∉ s.startedCalls := by
  intro hstarted
  exact answer_unique h.answered hrejected (h.started_prefix.subset hstarted)

end Calls

theorem capacity_run {threadCount queueCapacity : ℕ} {actions : List PoolAction} {s : PoolSystem}
    (h : run step (create threadCount queueCapacity) actions = some s) : s.pool.capacity = max 1 queueCapacity := by
  apply run_invariant (I := fun s => s.pool.capacity = max 1 queueCapacity) _ rfl h
  intro u a t hu hstep
  exact (step_effect hstep).2.trans hu

structure Contract (queueCapacity : ℕ) (s : PoolSystem) : Prop where
  bounded : s.pool.queue.length ≤ max 1 queueCapacity
  refused : ∀ call, .submitted call false ∈ s.history → call ∉ s.startedCalls
  once : s.startedCalls.Nodup
  inOrder : s.startedCalls <+: s.acceptedCalls
  accounted : s.acceptedCalls = s.startedCalls ++ s.removedCalls ++ s.pool.queue
  removedByStop : s.removedCalls ≠ [] → .closed ∈ s.history
  drained : s.AtRest → s.pool.queue = []
  settles : ∀ actions t, (∀ a : PoolAction, a ∈ actions → a.isInternal = true) → run step s actions = some t →
    actions.length ≤ s.remaining
  survives : ∀ i call flag, s.pool.workers[i]? = some ⟨.running call .threw, flag⟩ →
    s.step (.finish i) = some { s with
      pool := { s.pool with workers := s.pool.workers.set i ⟨.waiting, flag⟩ }
      awake := i :: s.awake }
  ends : ∀ worker ∈ s.pool.workers, worker.state = .exited → .closed ∈ s.history
  nothingLater : Throughout (fun before event => .closed ∈ before → event.begins = false) s.history
  joins : ∀ t, s.step .stopStep = some t → t.stopCall = none → ∀ worker ∈ s.pool.workers, worker.state = .exited
  quiet : .stopped ∈ s.history → ∀ worker ∈ s.pool.workers, ∀ call pc, worker.state ≠ .running call pc
  idempotent : .stopped ∈ s.history → ∀ t, s.step .stop = some t ∨ s.step .stopStep = some t →
    t = { s with stopCall := t.stopCall, history := t.history }

section Stopping

variable {s t : PoolSystem}

theorem finish_threw {i call : ℕ} {flag : Bool} (hw : s.pool.workers[i]? = some ⟨.running call .threw, flag⟩) :
    s.step (.finish i) = some { s with
      pool := { s.pool with workers := s.pool.workers.set i ⟨.waiting, flag⟩ }
      awake := i :: s.awake } := by
  simp only [step, finish, WorkerPool.finish, hw]
  rfl

theorem stop_returns (hstep : s.step .stopStep = some t) (hreturned : t.stopCall = none) :
    ∀ worker ∈ s.pool.workers, worker.state = .exited := by
  rcases stopStep_some hstep with ⟨next, -, -, rfl⟩ | ⟨-, hjoined, -⟩
  · cases hreturned
  · intro worker hworker
    have hleft := List.all_eq_true.mp hjoined worker hworker
    obtain ⟨state, flag⟩ := worker
    cases state with
    | waiting => cases hleft
    | running call pc => cases hleft
    | exited => rfl

theorem stop_again (ho : Ordered s) (hstopped : .stopped ∈ s.history)
    (hstep : s.step .stop = some t ∨ s.step .stopStep = some t) :
    t = { s with stopCall := t.stopCall, history := t.history } := by
  have hworkers := ho.staffed.joined hstopped
  have hs := ho.staffed.manned hworkers
  have hqueue := ho.recorded.emptied hs
  rcases hstep with hstep | hstep
  · obtain ⟨-, rfl⟩ := stop_some hstep
    have hclose : s.pool.close = s.pool := by
      unfold WorkerPool.close
      rw [← hs, ← hqueue]
    rw [hclose]
  · rcases stopStep_some hstep with ⟨next, -, hlt, -⟩ | ⟨-, -, rfl⟩
    · rw [hworkers] at hlt
      cases hlt
    · simp only
      rw [← hworkers]

end Stopping

/-- Whatever the submitters, the workers, the tasks and the caller of `stop` do, in whatever order. -/
theorem worker_pool_contract {threadCount queueCapacity : ℕ} {actions : List PoolAction} {s : PoolSystem}
    (h : run step (create threadCount queueCapacity) actions = some s) :
    Contract queueCapacity s ∧
      run step (create threadCount queueCapacity) (actions.map PoolAction.calm) = some s.calm := by
  have ho := ordered_run h
  constructor
  · constructor
    · rw [← capacity_run h]
      exact ho.recorded.bounded
    · intro call hrejected
      exact ho.recorded.rejected_not_started hrejected
    · exact ho.recorded.accepted_nodup.sublist ho.recorded.started_prefix.sublist
    · exact ho.recorded.started_prefix
    · exact ho.recorded.accounted
    · intro hremoved
      by_contra hopen
      rw [ho.recorded.closed, Bool.not_eq_true] at hopen
      exact hremoved (ho.recorded.kept hopen)
    · intro hrest
      exact rest_queue hrest ho
    · intro internal t hinternal hrun
      have hle := internal_run_bounded hrun hinternal
      omega
    · intro i call flag hw
      exact finish_threw hw
    · intro worker hworker hexited
      exact ho.recorded.closed.mpr (ho.staffed.requested worker hworker (.inr hexited))
    · exact ho.recorded.late
    · intro t hstep hreturned
      exact stop_returns hstep hreturned
    · intro hstopped worker hworker
      rw [ho.staffed.joined hstopped] at hworker
      cases hworker
    · intro hstopped t hstep
      exact stop_again ho hstopped hstep
  · have hcalm := run_calm (create threadCount queueCapacity) actions
    rw [calm_create, h] at hcalm
    exact hcalm

def sampleActions : List PoolAction :=
  [.trySubmit, .trySubmit, .take 0, .notify none, .trySubmit, .endTask 0 true, .stop, .finish 0, .stopStep, .exit 0,
    .trySubmit, .stopStep]

def sampleEnd : PoolSystem where
  pool := { capacity := 1, stopped := true, workers := [] }
  calls := 4
  awake := []
  notifications := 1
  history := [.submitted 0 true, .submitted 1 false, .started 0 0, .submitted 2 true, .removed 2, .closed,
    .submitted 3 false, .stopped]

theorem worker_pool_contract_sample : Contract 0 sampleEnd ∧
    run step (create 1 0) (sampleActions.map PoolAction.calm) = some sampleEnd.calm :=
  @worker_pool_contract 1 0 sampleActions sampleEnd rfl

end PoolSystem

end LiquidPetProject.Messaging
