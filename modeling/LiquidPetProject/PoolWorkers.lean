import LiquidPetProject.PoolRecord

namespace LiquidPetProject.Messaging

open Transitions

namespace PoolSystem

section Workers

variable {s t : PoolSystem} {i j : ℕ}

theorem isWaiting_iff : s.isWaiting i = true ↔ ∃ stop, s.pool.workers[i]? = some ⟨.waiting, stop⟩ := by
  unfold isWaiting
  cases hw : s.pool.workers[i]? with
  | none => simp
  | some worker =>
    obtain ⟨state, stop⟩ := worker
    cases state <;> simp [WorkerState.isWaiting]

theorem isAsleep_iff : s.isAsleep i = true ↔ s.isWaiting i = true ∧ i ∉ s.awake := by
  unfold isAsleep
  rw [Bool.and_eq_true, decide_eq_true_eq]

theorem isWaiting_set {worker : Worker ℕ TaskPc} (hworkers : t.pool.workers = s.pool.workers.set i worker)
    (hij : i ≠ j) : t.isWaiting j = s.isWaiting j := by
  unfold isWaiting
  rw [hworkers, List.getElem?_set_ne hij]

theorem isWaiting_self {worker : Worker ℕ TaskPc} (hworkers : t.pool.workers = s.pool.workers.set i worker)
    (hbusy : worker.state.isWaiting = false) : t.isWaiting i = false := by
  unfold isWaiting
  rw [hworkers]
  by_cases hi : i < s.pool.workers.length
  · rw [List.getElem?_set_self hi, Option.any_some, hbusy]
  · rw [List.getElem?_eq_none (by rw [List.length_set]; omega)]
    rfl

theorem sleepers_eq_nil : s.sleepers = [] ↔ ∀ j, s.isAsleep j = false := by
  unfold sleepers
  rw [List.filter_eq_nil_iff]
  constructor
  · intro h j
    by_cases hj : j < s.pool.workers.length
    · exact Bool.eq_false_iff.mpr (h j (List.mem_range.mpr hj))
    · unfold isAsleep isWaiting
      rw [List.getElem?_eq_none (not_lt.mp hj)]
      rfl
  · intro h j _
    rw [h j]
    exact Bool.false_ne_true

structure Staffed (s : PoolSystem) : Prop where
  requested : ∀ worker ∈ s.pool.workers,
    (worker.stopRequested = true ∨ worker.state = .exited) → s.pool.stopped = true
  manned : s.pool.workers = [] → s.pool.stopped = true
  calling : s.stopCall ≠ none → s.pool.stopped = true
  joined : .stopped ∈ s.history → s.pool.workers = []

structure Woken (s : PoolSystem) : Prop where
  waiting : ∀ i ∈ s.awake, s.isWaiting i = true
  nodup : s.awake.Nodup
  notified : ∀ j, s.isAsleep j = true → s.pool.queue.length ≤ s.notifications + s.awake.length

theorem Staffed.same (h : Staffed s) (hworkers : t.pool.workers = s.pool.workers)
    (hstopped : t.pool.stopped = s.pool.stopped) (hcall : t.stopCall = s.stopCall)
    (hhistory : .stopped ∈ t.history → .stopped ∈ s.history) : Staffed t := by
  constructor
  · rw [hworkers, hstopped]
    exact h.requested
  · rw [hworkers, hstopped]
    exact h.manned
  · rw [hcall, hstopped]
    exact h.calling
  · rw [hworkers]
    intro hj
    exact h.joined (hhistory hj)

theorem Staffed.setWorker {worker : Worker ℕ TaskPc} (h : Staffed s)
    (hworkers : t.pool.workers = s.pool.workers.set i worker) (hstopped : t.pool.stopped = s.pool.stopped)
    (hcall : t.stopCall ≠ none → t.pool.stopped = true) (hhistory : .stopped ∈ t.history → .stopped ∈ s.history)
    (hworker : (worker.stopRequested = true ∨ worker.state = .exited) → s.pool.stopped = true) : Staffed t := by
  constructor
  · rw [hworkers, hstopped]
    intro other hother
    rcases List.mem_or_eq_of_mem_set hother with hmem | rfl
    · exact h.requested other hmem
    · exact hworker
  · rw [hworkers, hstopped, List.set_eq_nil_iff]
    exact h.manned
  · exact hcall
  · rw [hworkers, List.set_eq_nil_iff]
    intro hj
    exact h.joined (hhistory hj)

theorem Woken.same (h : Woken s) (hworkers : t.pool.workers = s.pool.workers) (hawake : t.awake = s.awake)
    (hnotified : ∀ j, s.isAsleep j = true → t.pool.queue.length ≤ t.notifications + t.awake.length) : Woken t := by
  have hwaiting (j : ℕ) : t.isWaiting j = s.isWaiting j := by
    unfold isWaiting
    rw [hworkers]
  refine ⟨?_, ?_, ?_⟩
  · intro j hj
    rw [hawake] at hj
    rw [hwaiting]
    exact h.waiting j hj
  · rw [hawake]
    exact h.nodup
  · intro j hj
    apply hnotified j
    rwa [isAsleep_iff, hwaiting, hawake, ← isAsleep_iff] at hj

theorem Woken.wake (h : Woken s) (hi : s.isAsleep i = true) (hworkers : t.pool.workers = s.pool.workers)
    (hawake : t.awake = i :: s.awake)
    (hnotified : s.pool.queue.length ≤ s.notifications + s.awake.length →
      t.pool.queue.length ≤ t.notifications + t.awake.length) : Woken t := by
  have hwaiting (j : ℕ) : t.isWaiting j = s.isWaiting j := by
    unfold isWaiting
    rw [hworkers]
  obtain ⟨hself, hnot⟩ := isAsleep_iff.mp hi
  refine ⟨?_, ?_, ?_⟩
  · intro j hj
    rw [hawake] at hj
    rw [hwaiting]
    rcases List.mem_cons.mp hj with rfl | hj
    · exact hself
    · exact h.waiting j hj
  · rw [hawake]
    exact List.nodup_cons.mpr ⟨hnot, h.nodup⟩
  · intro _ _
    exact hnotified (h.notified i hi)

theorem Woken.leave {worker : Worker ℕ TaskPc} (h : Woken s) (hworkers : t.pool.workers = s.pool.workers.set i worker)
    (hbusy : worker.state.isWaiting = false) (hawake : t.awake = s.awake.erase i)
    (hnotified : ∀ j, s.isAsleep j = true → t.pool.queue.length ≤ t.notifications + t.awake.length) : Woken t := by
  have hmem {j : ℕ} (hj : j ∈ t.awake) : j ≠ i ∧ j ∈ s.awake := by
    rw [hawake] at hj
    exact (h.nodup.mem_erase_iff).mp hj
  refine ⟨?_, ?_, ?_⟩
  · intro j hj
    obtain ⟨hji, hj⟩ := hmem hj
    rw [isWaiting_set hworkers hji.symm]
    exact h.waiting j hj
  · rw [hawake]
    exact h.nodup.erase i
  · intro j hj
    obtain ⟨hw, hnot⟩ := isAsleep_iff.mp hj
    have hji : j ≠ i := by
      rintro rfl
      rw [isWaiting_self hworkers hbusy] at hw
      cases hw
    rw [isWaiting_set hworkers hji.symm] at hw
    apply hnotified j
    refine isAsleep_iff.mpr ⟨hw, ?_⟩
    intro hin
    apply hnot
    rw [hawake]
    exact (h.nodup.mem_erase_iff).mpr ⟨hji, hin⟩

theorem Woken.return {worker : Worker ℕ TaskPc} (h : Woken s) (hi : s.isWaiting i = false) (hlt : i < s.pool.workers.length)
    (hworkers : t.pool.workers = s.pool.workers.set i worker) (hwaits : worker.state.isWaiting = true)
    (hawake : t.awake = i :: s.awake)
    (hnotified : s.pool.queue.length ≤ s.notifications + s.awake.length →
      t.pool.queue.length ≤ t.notifications + t.awake.length) : Woken t := by
  have hnot : i ∉ s.awake := by
    intro hmem
    rw [h.waiting i hmem] at hi
    cases hi
  have hself : t.isWaiting i = true := by
    unfold isWaiting
    rw [hworkers, List.getElem?_set_self hlt, Option.any_some, hwaits]
  refine ⟨?_, ?_, ?_⟩
  · intro j hj
    rw [hawake] at hj
    rcases List.mem_cons.mp hj with rfl | hj
    · exact hself
    · have hij : i ≠ j := by
        rintro rfl
        exact hnot hj
      rw [isWaiting_set hworkers hij]
      exact h.waiting j hj
  · rw [hawake]
    exact List.nodup_cons.mpr ⟨hnot, h.nodup⟩
  · intro j hj
    obtain ⟨hw, hout⟩ := isAsleep_iff.mp hj
    rw [hawake, List.mem_cons, not_or] at hout
    rw [isWaiting_set hworkers (Ne.symm hout.1)] at hw
    exact hnotified (h.notified j (isAsleep_iff.mpr ⟨hw, hout.2⟩))

theorem Woken.idle (hwaiting : ∀ j ∈ t.awake, t.isWaiting j = true) (hnodup : t.awake.Nodup)
    (hqueue : t.pool.queue = []) : Woken t := by
  refine ⟨hwaiting, hnodup, ?_⟩
  intro j _
  rw [hqueue]
  exact Nat.zero_le _

theorem isWaiting_requestStop (pool : WorkerPool ℕ TaskPc) (i : ℕ) :
    (pool.requestStop i).workers[j]?.any (fun worker => worker.state.isWaiting) =
      pool.workers[j]?.any (fun worker => worker.state.isWaiting) := by
  cases hw : pool.workers[i]? with
  | none => rw [WorkerPool.requestStop_of_none hw]
  | some worker =>
    rw [WorkerPool.requestStop_of_some hw]
    by_cases hij : i = j
    · subst hij
      have hi : i < pool.workers.length := (List.getElem?_eq_some_iff.mp hw).1
      rw [List.getElem?_set_self hi, hw]
      rfl
    · rw [List.getElem?_set_ne hij]

theorem mem_awake_stopStep {next : ℕ} (h : j ∈ if s.isAsleep next then next :: s.awake else s.awake) :
    j ∈ s.awake ∨ s.isAsleep j = true := by
  split_ifs at h with hasleep
  · rcases List.mem_cons.mp h with rfl | h
    · exact .inr hasleep
    · exact .inl h
  · exact .inl h

theorem length_erase_awake (h : i ∈ s.awake) : (s.awake.erase i).length + 1 = s.awake.length := by
  have hpos := List.length_pos_of_mem h
  rw [List.length_erase_of_mem h]
  omega

end Workers

section Steps

variable {s t : PoolSystem} {a : PoolAction}

theorem staffed_step (h : Staffed s) (hstep : s.step a = some t) : Staffed t := by
  cases a with
  | trySubmit =>
    obtain rfl := Option.some.inj hstep
    rcases trySubmit_cases s with hrejected | ⟨-, -, haccepted⟩
    · rw [hrejected]
      exact h.same rfl rfl rfl (by simp)
    · rw [haccepted]
      exact h.same rfl rfl rfl (by simp)
  | notify woken =>
    rcases notify_some hstep with ⟨-, n, -, rfl⟩ | ⟨i, n, -, -, rfl⟩
    · exact h.same rfl rfl rfl id
    · exact h.same rfl rfl rfl id
  | spuriousWakeup i =>
    simp only [step] at hstep
    split_ifs at hstep
    obtain rfl := Option.some.inj hstep
    exact h.same rfl rfl rfl id
  | take i =>
    obtain ⟨call, rest, -, -, hw, rfl⟩ := take_some hstep
    refine h.setWorker rfl rfl h.calling (by simp) ?_
    simp
  | sleep i =>
    obtain ⟨-, -, rfl⟩ := sleep_some hstep
    exact h.same rfl rfl rfl id
  | exit i =>
    obtain ⟨-, hw, rfl⟩ := exit_some hstep
    refine h.setWorker rfl rfl h.calling id ?_
    intro _
    exact h.requested _ (List.mem_of_getElem? hw) (.inl rfl)
  | endTask i threw =>
    obtain ⟨call, stop, hw, rfl⟩ := endTask_some hstep
    refine h.setWorker rfl rfl h.calling id ?_
    intro hrequested
    exact h.requested _ (List.mem_of_getElem? hw) (by simpa using hrequested)
  | finish i =>
    obtain ⟨call, pc, stop, hw, -, rfl⟩ := finish_some hstep
    refine h.setWorker rfl rfl h.calling id ?_
    intro hrequested
    exact h.requested _ (List.mem_of_getElem? hw) (by simpa using hrequested)
  | stop =>
    obtain ⟨-, rfl⟩ := stop_some hstep
    refine ⟨fun _ _ _ => rfl, fun _ => rfl, fun _ => rfl, ?_⟩
    intro hj
    exact h.joined (by simpa using hj)
  | stopStep =>
    rcases stopStep_some hstep with ⟨next, hcall, hlt, rfl⟩ | ⟨hcall, -, rfl⟩
    · have hs : s.pool.stopped = true := h.calling (by rw [hcall]; exact Option.some_ne_none _)
      have hframe := (requestStop_frame s.pool next).2.1
      refine ⟨fun _ _ _ => hframe.trans hs, fun _ => hframe.trans hs, fun _ => hframe.trans hs, ?_⟩
      intro hj
      rw [h.joined hj] at hlt
      cases hlt
    · have hs : s.pool.stopped = true := h.calling hcall
      exact ⟨fun _ _ _ => hs, fun _ => hs, fun _ => hs, fun _ => rfl⟩

theorem woken_step (hr : Recorded s) (hs : Staffed s) (h : Woken s) (hstep : s.step a = some t) : Woken t := by
  cases a with
  | trySubmit =>
    obtain rfl := Option.some.inj hstep
    rcases trySubmit_cases s with hrejected | ⟨-, -, haccepted⟩
    · rw [hrejected]
      exact h.same rfl rfl h.notified
    · rw [haccepted]
      refine h.same rfl rfl ?_
      intro j hj
      have hle := h.notified j hj
      simp only [List.length_append, List.length_singleton]
      omega
  | notify woken =>
    rcases notify_some hstep with ⟨hsleepers, n, -, rfl⟩ | ⟨i, n, hasleep, hn, rfl⟩
    · refine h.same rfl rfl ?_
      intro j hj
      rw [sleepers_eq_nil.mp hsleepers j] at hj
      cases hj
    · refine h.wake hasleep rfl rfl ?_
      intro hle
      simp only [wake, List.length_cons]
      omega
  | spuriousWakeup i =>
    simp only [step] at hstep
    split_ifs at hstep with hasleep
    obtain rfl := Option.some.inj hstep
    refine h.wake hasleep rfl rfl ?_
    intro hle
    simp only [wake, List.length_cons]
    omega
  | take i =>
    obtain ⟨call, rest, hmem, hq, hw, rfl⟩ := take_some hstep
    refine h.leave rfl rfl rfl ?_
    intro j hj
    have hle := h.notified j hj
    have herase := length_erase_awake hmem
    rw [hq, List.length_cons] at hle
    simp only
    omega
  | sleep i =>
    obtain ⟨hmem, hq, rfl⟩ := sleep_some hstep
    refine Woken.idle ?_ (h.nodup.erase i) hq
    intro j hj
    exact h.waiting j (List.mem_of_mem_erase hj)
  | exit i =>
    obtain ⟨hmem, hw, rfl⟩ := exit_some hstep
    refine h.leave rfl rfl rfl ?_
    intro j _
    have hstopped := hs.requested _ (List.mem_of_getElem? hw) (.inl rfl)
    simp only [hr.emptied hstopped, List.length_nil]
    exact Nat.zero_le _
  | endTask i threw =>
    obtain ⟨call, stop, hw, rfl⟩ := endTask_some hstep
    have hnot : i ∉ s.awake := by
      intro hmem
      obtain ⟨_, hwaits⟩ := isWaiting_iff.mp (h.waiting i hmem)
      rw [hw] at hwaits
      cases hwaits
    exact h.leave rfl rfl (List.erase_of_not_mem hnot).symm h.notified
  | finish i =>
    obtain ⟨call, pc, stop, hw, -, rfl⟩ := finish_some hstep
    have hbusy : s.isWaiting i = false := by
      unfold isWaiting
      rw [hw]
      rfl
    refine h.return hbusy (List.getElem?_eq_some_iff.mp hw).1 rfl rfl rfl ?_
    intro hle
    simp only [List.length_cons]
    omega
  | stop =>
    obtain ⟨-, rfl⟩ := stop_some hstep
    exact Woken.idle h.waiting h.nodup rfl
  | stopStep =>
    rcases stopStep_some hstep with ⟨next, hcall, -, rfl⟩ | ⟨hcall, hjoined, rfl⟩
    · have hstopped : s.pool.stopped = true := hs.calling (by rw [hcall]; exact Option.some_ne_none _)
      apply Woken.idle
      · intro j hj
        unfold isWaiting
        rw [isWaiting_requestStop]
        rcases mem_awake_stopStep hj with hj | hj
        · exact h.waiting j hj
        · exact (isAsleep_iff.mp hj).1
      · simp only
        split_ifs with hasleep
        · exact List.nodup_cons.mpr ⟨(isAsleep_iff.mp hasleep).2, h.nodup⟩
        · exact h.nodup
      · exact (requestStop_frame s.pool next).1.trans (hr.emptied hstopped)
    · have hnone (j : ℕ) : j ∉ s.awake := by
        intro hj
        obtain ⟨flag, hw⟩ := isWaiting_iff.mp (h.waiting j hj)
        have hleft := List.all_eq_true.mp hjoined _ (List.mem_of_getElem? hw)
        cases hleft
      refine Woken.idle ?_ h.nodup (hr.emptied (hs.calling hcall))
      intro j hj
      exact absurd hj (hnone j)

end Steps

theorem recorded_create (threadCount queueCapacity : ℕ) : Recorded (create threadCount queueCapacity) where
  bounded := Nat.zero_le _
  accounted := rfl
  kept := fun _ => rfl
  fresh := fun _ hcall => absurd hcall List.not_mem_nil
  answered := List.nodup_nil
  closed := by simp [create, WorkerPool.create]
  emptied := fun _ => rfl
  late := Throughout.nil _

theorem staffed_create (threadCount queueCapacity : ℕ) : Staffed (create threadCount queueCapacity) := by
  constructor
  · intro worker hworker
    rw [List.eq_of_mem_replicate hworker]
    simp
  · intro hnil
    have hlength := congrArg List.length hnil
    simp only [create, WorkerPool.create, List.length_replicate, List.length_nil] at hlength
    omega
  · intro hcall
    exact absurd rfl hcall
  · intro hmem
    exact absurd hmem List.not_mem_nil

theorem woken_create (threadCount queueCapacity : ℕ) : Woken (create threadCount queueCapacity) := by
  refine Woken.idle ?_ List.nodup_range rfl
  intro j hj
  have hlt : j < max 1 threadCount := List.mem_range.mp hj
  apply isWaiting_iff.mpr
  exact ⟨false, by simp [create, WorkerPool.create, hlt]⟩

structure Ordered (s : PoolSystem) : Prop where
  recorded : Recorded s
  staffed : Staffed s
  woken : Woken s

theorem ordered_step {s t : PoolSystem} {a : PoolAction} (h : Ordered s) (hstep : s.step a = some t) : Ordered t := by
  obtain ⟨heffect, hcapacity⟩ := step_effect hstep
  exact ⟨h.recorded.effect hcapacity heffect, staffed_step h.staffed hstep,
    woken_step h.recorded h.staffed h.woken hstep⟩

theorem ordered_run {threadCount queueCapacity : ℕ} {actions : List PoolAction} {s : PoolSystem}
    (h : run step (create threadCount queueCapacity) actions = some s) : Ordered s :=
  run_invariant (fun _ _ _ => ordered_step)
    ⟨recorded_create _ _, staffed_create _ _, woken_create _ _⟩ h

end PoolSystem

end LiquidPetProject.Messaging
