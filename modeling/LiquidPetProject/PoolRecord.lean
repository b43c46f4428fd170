import LiquidPetProject.PoolSystem

namespace LiquidPetProject.Messaging

open Transitions

namespace PoolEvent

def submittedCall : PoolEvent → Option ℕ
  | submitted call _ => some call
  | _ => none

def acceptedCall : PoolEvent → Option ℕ
  | submitted call true => some call
  | _ => none

def startedCall : PoolEvent → Option ℕ
  | started call _ => some call
  | _ => none

def removedCall : PoolEvent → Option ℕ
  | removed call => some call
  | _ => none

def begins : PoolEvent → Bool
  | submitted _ accepted => accepted
  | started _ _ => true
  | _ => false

end PoolEvent

namespace PoolSystem

open PoolEvent

def submittedCalls (s : PoolSystem) : List ℕ := s.history.filterMap submittedCall

def acceptedCalls (s : PoolSystem) : List ℕ := s.history.filterMap acceptedCall

def startedCalls (s : PoolSystem) : List ℕ := s.history.filterMap startedCall

def removedCalls (s : PoolSystem) : List ℕ := s.history.filterMap removedCall

inductive Effect (s t : PoolSystem) : Prop
  | silent (hqueue : t.pool.queue = s.pool.queue) (hstopped : t.pool.stopped = s.pool.stopped)
      (hcalls : t.calls = s.calls) (hhistory : t.history = s.history)
  | accepted (hopen : s.pool.stopped = false) (hroom : s.pool.queue.length < s.pool.capacity)
      (hqueue : t.pool.queue = s.pool.queue ++ [s.calls]) (hstopped : t.pool.stopped = s.pool.stopped)
      (hcalls : t.calls = s.calls + 1) (hhistory : t.history = s.history ++ [.submitted s.calls true])
  | rejected (hqueue : t.pool.queue = s.pool.queue) (hstopped : t.pool.stopped = s.pool.stopped)
      (hcalls : t.calls = s.calls + 1) (hhistory : t.history = s.history ++ [.submitted s.calls false])
  | started (call worker : ℕ) (hfront : s.pool.queue = call :: t.pool.queue)
      (hstopped : t.pool.stopped = s.pool.stopped) (hcalls : t.calls = s.calls)
      (hhistory : t.history = s.history ++ [.started call worker])
  | closed (hqueue : t.pool.queue = []) (hstopped : t.pool.stopped = true) (hcalls : t.calls = s.calls)
      (hhistory : t.history = s.history ++ s.pool.queue.map .removed ++ [.closed])
  | returned (hqueue : t.pool.queue = s.pool.queue) (hstopped : t.pool.stopped = s.pool.stopped)
      (hcalls : t.calls = s.calls) (hhistory : t.history = s.history ++ [.stopped])

section Steps

variable {s t : PoolSystem} {i : ℕ}

theorem requestStop_frame (pool : WorkerPool ℕ TaskPc) (i : ℕ) :
    (pool.requestStop i).queue = pool.queue ∧ (pool.requestStop i).stopped = pool.stopped ∧
      (pool.requestStop i).capacity = pool.capacity := by
  unfold WorkerPool.requestStop
  split <;> exact ⟨rfl, rfl, rfl⟩

theorem take_some (h : s.take i = some t) :
    ∃ call rest, i ∈ s.awake ∧ s.pool.queue = call :: rest ∧ s.pool.workers[i]? = some ⟨.waiting, false⟩ ∧
      t = { s with
        pool := { s.pool with queue := rest, workers := s.pool.workers.set i ⟨.running call .executing, false⟩ }
        awake := s.awake.erase i
        history := s.history ++ [.started call i] } := by
  unfold take at h
  cases hq : s.pool.queue with
  | nil =>
    rw [hq] at h
    cases h
  | cons call rest =>
    simp only [hq] at h
    split_ifs at h with hawake
    obtain ⟨pool, hpool, rfl⟩ := Option.map_eq_some_iff.mp h
    obtain ⟨call', rest', hw, hfront, rfl⟩ := WorkerPool.take_eq_some hpool
    obtain ⟨rfl, rfl⟩ := List.cons.inj (hq.symm.trans hfront)
    exact ⟨call, rest, hawake, rfl, hw, rfl⟩

theorem exit_some (h : s.exit i = some t) :
    i ∈ s.awake ∧ s.pool.workers[i]? = some ⟨.waiting, true⟩ ∧
      t = { s with
        pool := { s.pool with workers := s.pool.workers.set i ⟨.exited, true⟩ }
        awake := s.awake.erase i } := by
  unfold exit at h
  split_ifs at h with hawake
  obtain ⟨pool, hpool, rfl⟩ := Option.map_eq_some_iff.mp h
  obtain ⟨hw, rfl⟩ := WorkerPool.exit_eq_some hpool
  exact ⟨hawake, hw, rfl⟩

theorem endTask_some {threw : Bool} (h : s.endTask i threw = some t) :
    ∃ call stop, s.pool.workers[i]? = some ⟨.running call .executing, stop⟩ ∧
      t = { s with pool := { s.pool with
        workers := s.pool.workers.set i ⟨.running call (.outcome threw), stop⟩ } } := by
  unfold endTask at h
  split_ifs at h with hexecuting
  cases hw : s.pool.workers[i]? with
  | none =>
    rw [hw] at hexecuting
    cases hexecuting
  | some worker =>
    rw [hw] at hexecuting
    obtain ⟨state, stop⟩ := worker
    cases state with
    | running call pc =>
      cases pc with
      | executing =>
        refine ⟨call, stop, rfl, ?_⟩
        rw [← Option.some.inj h, WorkerPool.advance_of_running hw]
      | _ => cases hexecuting
    | _ => cases hexecuting

theorem finish_some (h : s.finish i = some t) :
    ∃ call pc stop, s.pool.workers[i]? = some ⟨.running call pc, stop⟩ ∧ TaskPc.ended pc = true ∧
      t = { s with
        pool := { s.pool with workers := s.pool.workers.set i ⟨.waiting, stop⟩ }
        awake := i :: s.awake } := by
  unfold finish at h
  obtain ⟨pool, hpool, rfl⟩ := Option.map_eq_some_iff.mp h
  obtain ⟨call, pc, stop, hw, hended, rfl⟩ := WorkerPool.finish_eq_some hpool
  exact ⟨call, pc, stop, hw, hended, rfl⟩

theorem trySubmit_cases (s : PoolSystem) :
    s.trySubmit = { s with calls := s.calls + 1, history := s.history ++ [.submitted s.calls false] } ∨
      s.pool.stopped = false ∧ s.pool.queue.length < s.pool.capacity ∧ s.trySubmit = { s with
        pool := { s.pool with queue := s.pool.queue ++ [s.calls] }
        calls := s.calls + 1
        notifications := s.notifications + 1
        history := s.history ++ [.submitted s.calls true] } := by
  cases hc : s.pool.stopped || decide (s.pool.queue.length ≥ s.pool.capacity) with
  | true =>
    left
    have htry : s.pool.trySubmit s.calls = (false, s.pool) := if_pos hc
    unfold trySubmit
    rw [htry]
    rfl
  | false =>
    right
    have htry : s.pool.trySubmit s.calls = (true, { s.pool with queue := s.pool.queue ++ [s.calls] }) :=
      if_neg (by simp [hc])
    rw [Bool.or_eq_false_iff, decide_eq_false_iff_not] at hc
    refine ⟨hc.1, not_le.mp hc.2, ?_⟩
    unfold trySubmit
    rw [htry]
    rfl

theorem notify_some {woken : Option ℕ} (h : s.notify woken = some t) :
    (s.sleepers = [] ∧ ∃ n, s.notifications = n + 1 ∧ t = { s with notifications := n }) ∨
      ∃ i n, s.isAsleep i = true ∧ s.notifications = n + 1 ∧ t = { s.wake i with notifications := n } := by
  unfold notify at h
  split at h
  · cases h
  · next n hn =>
    split_ifs at h with hsleepers
    exact .inl ⟨hsleepers, n, hn, (Option.some.inj h).symm⟩
  · next n i hn =>
    split_ifs at h with hasleep
    exact .inr ⟨i, n, hasleep, hn, (Option.some.inj h).symm⟩

theorem sleep_some (h : s.sleep i = some t) :
    i ∈ s.awake ∧ s.pool.queue = [] ∧ t = { s with awake := s.awake.erase i } := by
  unfold sleep at h
  split_ifs at h with hidle
  exact ⟨hidle.1, hidle.2.1, (Option.some.inj h).symm⟩

theorem stop_some (h : s.stop = some t) :
    s.stopCall = none ∧ t = { s with
      pool := s.pool.close
      stopCall := some 0
      history := s.history ++ s.pool.queue.map .removed ++ [.closed] } := by
  unfold stop at h
  split_ifs at h with hnone
  exact ⟨hnone, (Option.some.inj h).symm⟩

theorem stopStep_some (h : s.stopStep = some t) :
    (∃ next, s.stopCall = some next ∧ next < s.pool.workers.length ∧ t = { s with
        pool := s.pool.requestStop next
        awake := if s.isAsleep next then next :: s.awake else s.awake
        stopCall := some (next + 1) }) ∨
      s.stopCall ≠ none ∧ s.pool.joined = true ∧ t = { s with
        pool := { s.pool with workers := [] }
        stopCall := none
        history := s.history ++ [.stopped] } := by
  unfold stopStep at h
  cases hcall : s.stopCall with
  | none =>
    rw [hcall] at h
    cases h
  | some next =>
    simp only [hcall] at h
    by_cases hlt : next < s.pool.workers.length
    · rw [if_pos hlt] at h
      exact .inl ⟨next, rfl, hlt, (Option.some.inj h).symm⟩
    · rw [if_neg hlt] at h
      split_ifs at h with hjoined
      exact .inr ⟨nofun, hjoined, (Option.some.inj h).symm⟩

theorem step_effect {a : PoolAction} (h : s.step a = some t) : Effect s t ∧ t.pool.capacity = s.pool.capacity := by
  cases a with
  | trySubmit =>
    obtain rfl := Option.some.inj h
    rcases trySubmit_cases s with hrejected | ⟨hopen, hroom, haccepted⟩
    · rw [hrejected]
      exact ⟨.rejected rfl rfl rfl rfl, rfl⟩
    · rw [haccepted]
      exact ⟨.accepted hopen hroom rfl rfl rfl rfl, rfl⟩
  | notify woken =>
    rcases notify_some h with ⟨-, n, -, rfl⟩ | ⟨i, n, -, -, rfl⟩
    · exact ⟨.silent rfl rfl rfl rfl, rfl⟩
    · exact ⟨.silent rfl rfl rfl rfl, rfl⟩
  | spuriousWakeup i =>
    simp only [step] at h
    split_ifs at h
    obtain rfl := Option.some.inj h
    exact ⟨.silent rfl rfl rfl rfl, rfl⟩
  | take i =>
    obtain ⟨call, rest, -, hq, -, rfl⟩ := take_some h
    exact ⟨.started call i hq rfl rfl rfl, rfl⟩
  | sleep i =>
    obtain ⟨-, -, rfl⟩ := sleep_some h
    exact ⟨.silent rfl rfl rfl rfl, rfl⟩
  | exit i =>
    obtain ⟨-, -, rfl⟩ := exit_some h
    exact ⟨.silent rfl rfl rfl rfl, rfl⟩
  | endTask i threw =>
    obtain ⟨call, stop, -, rfl⟩ := endTask_some h
    exact ⟨.silent rfl rfl rfl rfl, rfl⟩
  | finish i =>
    obtain ⟨call, pc, stop, -, -, rfl⟩ := finish_some h
    exact ⟨.silent rfl rfl rfl rfl, rfl⟩
  | stop =>
    obtain ⟨-, rfl⟩ := stop_some h
    exact ⟨.closed rfl rfl rfl rfl, rfl⟩
  | stopStep =>
    rcases stopStep_some h with ⟨next, -, -, rfl⟩ | ⟨-, -, rfl⟩
    · obtain ⟨hqueue, hstopped, hcapacity⟩ := requestStop_frame s.pool next
      exact ⟨.silent hqueue hstopped rfl rfl, hcapacity⟩
    · exact ⟨.returned rfl rfl rfl rfl, rfl⟩

end Steps

structure Recorded (s : PoolSystem) : Prop where
  bounded : s.pool.queue.length ≤ s.pool.capacity
  accounted : s.acceptedCalls = s.startedCalls ++ s.removedCalls ++ s.pool.queue
  kept : s.pool.stopped = false → s.removedCalls = []
  fresh : ∀ call ∈ s.submittedCalls, call < s.calls
  answered : s.submittedCalls.Nodup
  closed : .closed ∈ s.history ↔ s.pool.stopped = true
  emptied : s.pool.stopped = true → s.pool.queue = []
  late : Throughout (fun before event => .closed ∈ before → event.begins = false) s.history

theorem late_append {history events : List PoolEvent}
    (h : Throughout (fun before event => .closed ∈ before → event.begins = false) history)
    (hevents : ∀ event ∈ events, event.begins = false) :
    Throughout (fun before event => .closed ∈ before → event.begins = false) (history ++ events) := by
  induction events using List.reverseRecOn with
  | nil => rwa [List.append_nil]
  | append_singleton events event ih =>
    rw [← List.append_assoc]
    apply (ih (fun e he => hevents e (List.mem_append_left _ he))).concat
    intro _
    exact hevents event (by simp)

section Effects

variable {s t : PoolSystem}

theorem Recorded.silent (h : Recorded s) (hc : t.pool.capacity = s.pool.capacity)
    (hqueue : t.pool.queue = s.pool.queue) (hstopped : t.pool.stopped = s.pool.stopped)
    (hcalls : t.calls = s.calls) (hhistory : t.history = s.history) : Recorded t := by
  obtain ⟨hbounded, haccounted, hkept, hfresh, hanswered, hclosed, hemptied, hlate⟩ := h
  constructor
  · rwa [hqueue, hc]
  · simpa only [acceptedCalls, startedCalls, removedCalls, hhistory, hqueue] using haccounted
  · simpa only [removedCalls, hhistory, hstopped] using hkept
  · simpa only [submittedCalls, hhistory, hcalls] using hfresh
  · simpa only [submittedCalls, hhistory] using hanswered
  · rwa [hhistory, hstopped]
  · rwa [hstopped, hqueue]
  · rwa [hhistory]

theorem calls_concat {event : PoolEvent} (hhistory : t.history = s.history ++ [event]) :
    t.acceptedCalls = s.acceptedCalls ++ (acceptedCall event).toList ∧
      t.startedCalls = s.startedCalls ++ (startedCall event).toList ∧
      t.removedCalls = s.removedCalls ++ (removedCall event).toList ∧
      t.submittedCalls = s.submittedCalls ++ (submittedCall event).toList := by
  have hone (f : PoolEvent → Option ℕ) : t.history.filterMap f = s.history.filterMap f ++ (f event).toList := by
    rw [hhistory, List.filterMap_append]
    cases hf : f event <;> simp [hf]
  exact ⟨hone _, hone _, hone _, hone _⟩

theorem Recorded.submitted (h : Recorded s) {accepted : Bool} (hhistory : t.history = s.history ++ [.submitted s.calls accepted])
    (hcalls : t.calls = s.calls + 1) : (∀ call ∈ t.submittedCalls, call < t.calls) ∧ t.submittedCalls.Nodup := by
  obtain ⟨-, -, -, hsubmitted⟩ := calls_concat hhistory
  rw [hsubmitted, hcalls]
  constructor
  · intro call hcall
    rcases List.mem_append.mp hcall with hcall | hcall
    · have hlt := h.fresh call hcall
      omega
    · rw [List.mem_singleton.mp hcall]
      omega
  · apply List.nodup_append.mpr
    refine ⟨h.answered, List.nodup_singleton _, ?_⟩
    intro call hcall other hother
    have hlt := h.fresh call hcall
    rw [List.mem_singleton.mp hother]
    omega

theorem Recorded.accepted (h : Recorded s) (hc : t.pool.capacity = s.pool.capacity) (hopen : s.pool.stopped = false)
    (hroom : s.pool.queue.length < s.pool.capacity) (hqueue : t.pool.queue = s.pool.queue ++ [s.calls])
    (hstopped : t.pool.stopped = s.pool.stopped) (hcalls : t.calls = s.calls + 1)
    (hhistory : t.history = s.history ++ [.submitted s.calls true]) : Recorded t := by
  obtain ⟨hfresh, hanswered⟩ := h.submitted hhistory hcalls
  obtain ⟨haccepted, hstarted, hremoved, -⟩ := calls_concat hhistory
  refine ⟨?_, ?_, ?_, hfresh, hanswered, ?_, ?_, ?_⟩
  · rw [hqueue, hc, List.length_append]
    exact hroom
  · rw [haccepted, hstarted, hremoved, hqueue, h.accounted]
    simp [acceptedCall, startedCall, removedCall]
  · intro _
    rw [hremoved, h.kept hopen]
    rfl
  · rw [hhistory, hstopped, ← h.closed]
    simp
  · rw [hstopped, hopen]
    intro hs
    cases hs
  · rw [hhistory]
    apply h.late.concat
    intro hclosed
    rw [h.closed.mp hclosed] at hopen
    cases hopen

theorem Recorded.rejected (h : Recorded s) (hc : t.pool.capacity = s.pool.capacity)
    (hqueue : t.pool.queue = s.pool.queue) (hstopped : t.pool.stopped = s.pool.stopped)
    (hcalls : t.calls = s.calls + 1) (hhistory : t.history = s.history ++ [.submitted s.calls false]) :
    Recorded t := by
  obtain ⟨hfresh, hanswered⟩ := h.submitted hhistory hcalls
  obtain ⟨haccepted, hstarted, hremoved, -⟩ := calls_concat hhistory
  refine ⟨?_, ?_, ?_, hfresh, hanswered, ?_, ?_, ?_⟩
  · rw [hqueue, hc]
    exact h.bounded
  · rw [haccepted, hstarted, hremoved, hqueue, h.accounted]
    simp [acceptedCall, startedCall, removedCall]
  · intro hs
    rw [hremoved, h.kept (hstopped ▸ hs)]
    rfl
  · rw [hhistory, hstopped, ← h.closed]
    simp
  · rw [hstopped, hqueue]
    exact h.emptied
  · rw [hhistory]
    exact h.late.concat (fun _ => rfl)

theorem Recorded.started (h : Recorded s) (hc : t.pool.capacity = s.pool.capacity) {call worker : ℕ}
    (hfront : s.pool.queue = call :: t.pool.queue) (hstopped : t.pool.stopped = s.pool.stopped)
    (hcalls : t.calls = s.calls) (hhistory : t.history = s.history ++ [.started call worker]) : Recorded t := by
  have hopen : s.pool.stopped = false := by
    rw [← Bool.not_eq_true]
    intro hs
    rw [h.emptied hs] at hfront
    cases hfront
  obtain ⟨haccepted, hstarted, hremoved, hsubmitted⟩ := calls_concat hhistory
  rw [h.kept hopen] at hremoved
  refine ⟨?_, ?_, ?_, ?_, ?_, ?_, ?_, ?_⟩
  · have hbounded := h.bounded
    rw [hfront, List.length_cons] at hbounded
    omega
  · rw [haccepted, hstarted, hremoved, h.accounted, h.kept hopen, hfront]
    simp [acceptedCall, startedCall, removedCall]
  · intro _
    exact hremoved
  · rw [hsubmitted, hcalls]
    simpa [submittedCall] using h.fresh
  · rw [hsubmitted]
    simpa [submittedCall] using h.answered
  · rw [hhistory, hstopped, ← h.closed]
    simp
  · rw [hstopped, hopen]
    intro hs
    cases hs
  · rw [hhistory]
    apply h.late.concat
    intro hclosed
    rw [h.closed.mp hclosed] at hopen
    cases hopen

theorem Recorded.closing (h : Recorded s) (hqueue : t.pool.queue = []) (hstopped : t.pool.stopped = true)
    (hcalls : t.calls = s.calls) (hhistory : t.history = s.history ++ s.pool.queue.map .removed ++ [.closed]) :
    Recorded t := by
  have hnone (f : PoolEvent → Option ℕ) (hf : ∀ call, f (.removed call) = none) (hclosed : f .closed = none) :
      t.history.filterMap f = s.history.filterMap f := by
    rw [hhistory, List.filterMap_append, List.filterMap_append, List.filterMap_map]
    simp [hf, hclosed]
  have hremoved : t.removedCalls = s.removedCalls ++ s.pool.queue := by
    unfold removedCalls
    rw [hhistory, List.filterMap_append, List.filterMap_append, List.filterMap_map]
    simp [Function.comp_def, removedCall]
  have hsubmitted : t.submittedCalls = s.submittedCalls := hnone _ (fun _ => rfl) rfl
  refine ⟨?_, ?_, ?_, ?_, ?_, ?_, ?_, ?_⟩
  · rw [hqueue]
    exact Nat.zero_le _
  · have haccepted : t.acceptedCalls = s.acceptedCalls := hnone _ (fun _ => rfl) rfl
    have hstarted : t.startedCalls = s.startedCalls := hnone _ (fun _ => rfl) rfl
    rw [haccepted, hstarted, hremoved, hqueue, h.accounted]
    simp
  · rw [hstopped]
    intro hs
    cases hs
  · rw [hsubmitted, hcalls]
    exact h.fresh
  · rw [hsubmitted]
    exact h.answered
  · rw [hhistory, hstopped]
    simp
  · intro _
    exact hqueue
  · rw [hhistory, List.append_assoc]
    apply late_append h.late
    intro event hevent
    rcases List.mem_append.mp hevent with hevent | hevent
    · obtain ⟨call, -, rfl⟩ := List.mem_map.mp hevent
      rfl
    · rw [List.mem_singleton.mp hevent]
      rfl

theorem Recorded.returned (h : Recorded s) (hc : t.pool.capacity = s.pool.capacity)
    (hqueue : t.pool.queue = s.pool.queue) (hstopped : t.pool.stopped = s.pool.stopped)
    (hcalls : t.calls = s.calls) (hhistory : t.history = s.history ++ [.stopped]) : Recorded t := by
  obtain ⟨haccepted, hstarted, hremoved, hsubmitted⟩ := calls_concat hhistory
  simp only [acceptedCall, startedCall, removedCall, submittedCall, Option.toList_none, List.append_nil] at haccepted hstarted hremoved hsubmitted
  refine ⟨?_, ?_, ?_, ?_, ?_, ?_, ?_, ?_⟩
  · rw [hqueue, hc]
    exact h.bounded
  · rw [haccepted, hstarted, hremoved, hqueue]
    exact h.accounted
  · rw [hstopped, hremoved]
    exact h.kept
  · rw [hsubmitted, hcalls]
    exact h.fresh
  · rw [hsubmitted]
    exact h.answered
  · rw [hhistory, hstopped, ← h.closed]
    simp
  · rw [hstopped, hqueue]
    exact h.emptied
  · rw [hhistory]
    exact h.late.concat (fun _ => rfl)

theorem Recorded.effect (h : Recorded s) (hc : t.pool.capacity = s.pool.capacity) (he : Effect s t) : Recorded t := by
  cases he with
  | silent hqueue hstopped hcalls hhistory => exact h.silent hc hqueue hstopped hcalls hhistory
  | accepted hopen hroom hqueue hstopped hcalls hhistory =>
    exact h.accepted hc hopen hroom hqueue hstopped hcalls hhistory
  | rejected hqueue hstopped hcalls hhistory => exact h.rejected hc hqueue hstopped hcalls hhistory
  | started call worker hfront hstopped hcalls hhistory => exact h.started hc hfront hstopped hcalls hhistory
  | closed hqueue hstopped hcalls hhistory => exact h.closing hqueue hstopped hcalls hhistory
  | returned hqueue hstopped hcalls hhistory => exact h.returned hc hqueue hstopped hcalls hhistory

end Effects

end PoolSystem

end LiquidPetProject.Messaging
