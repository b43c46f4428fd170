import LiquidPetProject.PoolWorkers

namespace LiquidPetProject.Messaging

open Transitions

def PoolAction.isInternal : PoolAction → Bool
  | .trySubmit => false
  | .spuriousWakeup _ => false
  | .stop => false
  | _ => true

def WorkerState.remaining : WorkerState ℕ TaskPc → ℕ
  | .running _ .executing => 3
  | .running _ _ => 2
  | _ => 0

namespace PoolSystem

def AtRest (s : PoolSystem) : Prop := ∀ a : PoolAction, a.isInternal = true → s.step a = none

section Rest

variable {s : PoolSystem} {i : ℕ}

theorem rest_notifications (h : s.AtRest) : s.notifications = 0 := by
  by_contra hpending
  obtain ⟨n, hn⟩ := Nat.exists_eq_succ_of_ne_zero hpending
  by_cases hsleepers : s.sleepers = []
  · have hstep := h (.notify none) rfl
    simp [step, notify, hn, hsleepers] at hstep
  · obtain ⟨i, hi⟩ := List.exists_mem_of_ne_nil _ hsleepers
    have hasleep : s.isAsleep i = true := (List.mem_filter.mp hi).2
    have hstep := h (.notify (some i)) rfl
    simp [step, notify, hn, hasleep] at hstep

theorem rest_running (h : s.AtRest) {call : ℕ} {pc : TaskPc} {flag : Bool} :
    s.pool.workers[i]? ≠ some ⟨.running call pc, flag⟩ := by
  intro hw
  cases pc with
  | executing =>
    have hstep := h (.endTask i false) rfl
    simp [step, endTask, hw, WorkerState.isExecuting] at hstep
  | returned =>
    have hstep := h (.finish i) rfl
    simp [step, finish, WorkerPool.finish, hw, TaskPc.ended] at hstep
  | threw =>
    have hstep := h (.finish i) rfl
    simp [step, finish, WorkerPool.finish, hw, TaskPc.ended] at hstep

theorem rest_waiting (h : s.AtRest) (hs : Staffed s) (hopen : s.pool.stopped = false) {worker : Worker ℕ TaskPc}
    (hw : s.pool.workers[i]? = some worker) : worker = ⟨.waiting, false⟩ := by
  have hkept : ¬ (worker.stopRequested = true ∨ worker.state = .exited) := by
    intro hrequested
    rw [hs.requested worker (List.mem_of_getElem? hw) hrequested] at hopen
    cases hopen
  rw [not_or, Bool.not_eq_true] at hkept
  obtain ⟨state, flag⟩ := worker
  cases state with
  | waiting =>
    rw [show flag = false from hkept.1]
  | running call pc => exact absurd hw (rest_running h)
  | exited => exact absurd rfl hkept.2

theorem rest_queue (h : s.AtRest) (ho : Ordered s) : s.pool.queue = [] := by
  cases hq : s.pool.queue with
  | nil => rfl
  | cons call rest =>
    have hopen : s.pool.stopped = false := by
      rw [← Bool.not_eq_true]
      intro hstopped
      rw [ho.recorded.emptied hstopped] at hq
      cases hq
    have htake (i : ℕ) (hi : i ∈ s.awake) : False := by
      obtain ⟨flag, hw⟩ := isWaiting_iff.mp (ho.woken.waiting i hi)
      rw [rest_waiting h ho.staffed hopen hw] at hw
      have hstep := h (.take i) rfl
      simp [step, take, hq, hi, WorkerPool.take, hw] at hstep
    have hnobody : s.awake = [] := List.eq_nil_iff_forall_not_mem.mpr htake
    -- the first worker sleeps, so a wake-up must be under way
    cases hworkers : s.pool.workers with
    | nil =>
      rw [ho.staffed.manned hworkers] at hopen
      cases hopen
    | cons worker workers =>
      have hw : s.pool.workers[0]? = some worker := by
        rw [hworkers]
        rfl
      rw [rest_waiting h ho.staffed hopen hw] at hw
      have hasleep : s.isAsleep 0 = true := by
        apply isAsleep_iff.mpr
        exact ⟨isWaiting_iff.mpr ⟨_, hw⟩, by rw [hnobody]; exact List.not_mem_nil⟩
      have hle := ho.woken.notified 0 hasleep
      rw [hq, hnobody, rest_notifications h] at hle
      cases hle

end Rest

def staffRemaining (workers : List (Worker ℕ TaskPc)) : ℕ := (workers.map (fun worker => worker.state.remaining)).sum

def remaining (s : PoolSystem) : ℕ :=
  4 * s.pool.queue.length + 2 * s.notifications + s.awake.length + staffRemaining s.pool.workers +
    s.stopCall.elim 0 (fun next => 2 * (s.pool.workers.length - next) + 1)

theorem staffRemaining_set {workers : List (Worker ℕ TaskPc)} {i : ℕ} {old : Worker ℕ TaskPc}
    (h : workers[i]? = some old) (new : Worker ℕ TaskPc) :
    staffRemaining (workers.set i new) + old.state.remaining = staffRemaining workers + new.state.remaining := by
  induction workers generalizing i with
  | nil => cases h
  | cons worker workers ih =>
    cases i with
    | zero =>
      obtain rfl := Option.some.inj h
      simp only [staffRemaining, List.set_cons_zero, List.map_cons, List.sum_cons]
      omega
    | succ i =>
      have hset := ih h
      simp only [staffRemaining, List.set_cons_succ, List.map_cons, List.sum_cons] at hset ⊢
      omega

theorem staffRemaining_requestStop (pool : WorkerPool ℕ TaskPc) (i : ℕ) :
    staffRemaining (pool.requestStop i).workers = staffRemaining pool.workers ∧
      (pool.requestStop i).workers.length = pool.workers.length := by
  cases hw : pool.workers[i]? with
  | none =>
    rw [WorkerPool.requestStop_of_none hw]
    exact ⟨rfl, rfl⟩
  | some worker =>
    rw [WorkerPool.requestStop_of_some hw]
    refine ⟨?_, List.length_set⟩
    have hset := staffRemaining_set hw { worker with stopRequested := true }
    simp only at hset
    exact Nat.add_right_cancel hset

theorem remaining_lt {s t : PoolSystem} {a : PoolAction} (ha : a.isInternal = true) (hstep : s.step a = some t) :
    t.remaining < s.remaining := by
  cases a with
  | trySubmit => cases ha
  | spuriousWakeup i => cases ha
  | stop => cases ha
  | notify woken =>
    rcases notify_some hstep with ⟨-, n, hn, rfl⟩ | ⟨i, n, -, hn, rfl⟩
    · simp only [remaining]
      omega
    · simp only [remaining, wake, List.length_cons]
      omega
  | take i =>
    obtain ⟨call, rest, hmem, hq, hw, rfl⟩ := take_some hstep
    have hset := staffRemaining_set hw ⟨.running call .executing, false⟩
    have herase := length_erase_awake hmem
    simp only [remaining, hq, List.length_cons, List.length_set, WorkerState.remaining] at hset ⊢
    omega
  | sleep i =>
    obtain ⟨hmem, -, rfl⟩ := sleep_some hstep
    have herase := length_erase_awake hmem
    simp only [remaining]
    omega
  | exit i =>
    obtain ⟨hmem, hw, rfl⟩ := exit_some hstep
    have hset := staffRemaining_set hw ⟨.exited, true⟩
    have herase := length_erase_awake hmem
    simp only [remaining, List.length_set, WorkerState.remaining] at hset ⊢
    omega
  | endTask i threw =>
    obtain ⟨call, flag, hw, rfl⟩ := endTask_some hstep
    have hset := staffRemaining_set hw ⟨.running call (.outcome threw), flag⟩
    have hended : WorkerState.remaining (.running call (.outcome threw)) = 2 := by cases threw <;> rfl
    simp only [remaining, List.length_set, hended] at hset ⊢
    simp only [WorkerState.remaining] at hset
    omega
  | finish i =>
    obtain ⟨call, pc, flag, hw, hended, rfl⟩ := finish_some hstep
    have hset := staffRemaining_set hw ⟨.waiting, flag⟩
    have htwo : WorkerState.remaining (.running call pc) = 2 := by
      cases pc with
      | executing => cases hended
      | returned => rfl
      | threw => rfl
    simp only [remaining, List.length_set, List.length_cons, htwo] at hset ⊢
    simp only [WorkerState.remaining] at hset
    omega
  | stopStep =>
    rcases stopStep_some hstep with ⟨next, hcall, hlt, rfl⟩ | ⟨hcall, -, rfl⟩
    · obtain ⟨hstaff, hlength⟩ := staffRemaining_requestStop s.pool next
      have hqueue := (requestStop_frame s.pool next).1
      have hawake : (if s.isAsleep next then next :: s.awake else s.awake).length ≤ s.awake.length + 1 := by
        split_ifs <;> simp
      simp only [remaining, hstaff, hlength, hqueue, hcall, Option.elim_some]
      omega
    · obtain ⟨next, hnext⟩ := Option.ne_none_iff_exists'.mp hcall
      simp only [remaining, hnext, staffRemaining, Option.elim_some, Option.elim_none, List.map_nil, List.sum_nil]
      omega

theorem internal_run_bounded {s t : PoolSystem} {actions : List PoolAction} (h : run step s actions = some t)
    (hinternal : ∀ a ∈ actions, a.isInternal = true) : actions.length + t.remaining ≤ s.remaining := by
  induction actions generalizing s with
  | nil =>
    obtain rfl := Option.some.inj h
    simp
  | cons a actions ih =>
    obtain ⟨u, hu, hrest⟩ := Option.bind_eq_some_iff.mp h
    have hlt := remaining_lt (hinternal a (by simp)) hu
    have hle := ih hrest (fun b hb => hinternal b (by simp [hb]))
    rw [List.length_cons]
    omega

end PoolSystem

end LiquidPetProject.Messaging
