import LiquidPetProject.ConsumerPipeline
import LiquidPetProject.PendingRecords

namespace LiquidPetProject.Messaging

open Transitions

theorem filterMap_set {α β : Type} (f : α → Option β) {l : List α} {i : ℕ} {x : α} (h : l[i]? = some x)
    (y : α) : ∃ a b, l.filterMap f = a ++ ((f x).toList ++ b) ∧
      (l.set i y).filterMap f = a ++ ((f y).toList ++ b) := by
  induction l generalizing i with
  | nil => simp at h
  | cons z l ih =>
    cases i with
    | zero =>
      obtain rfl : z = x := by simpa using h
      exact ⟨[], l.filterMap f, by cases hz : f z <;> simp [hz], by cases hy : f y <;> simp [hy]⟩
    | succ i =>
      obtain ⟨a, b, hl, hset⟩ := ih (i := i) (by simpa using h)
      cases hz : f z with
      | none => exact ⟨a, b, by simp [hz, hl], by simp [hz, hset]⟩
      | some c => exact ⟨c :: a, b, by simp [hz, hl], by simp [hz, hset]⟩

namespace ConsumerPipeline

def executing (worker : Worker WorkItem ExecutorPc) : Option WorkItem :=
  match worker.state with
  | .running item pc => if pc.ended then none else some item
  | _ => none

def liveItems (s : ConsumerPipeline) : List WorkItem :=
  s.backlog ++ s.pool.queue ++ s.pool.workers.filterMap executing

def inHand : ReaderPc → List RecordTicket
  | .ingesting ticket _ => [ticket]
  | _ => []

def unsubmitted (s : ConsumerPipeline) : List WorkItem :=
  if s.reader = .popping then s.backlog.tail else s.backlog

def waiting (s : ConsumerPipeline) : List RecordTicket :=
  inHand s.reader ++ (s.unsubmitted ++ s.pool.queue).map WorkItem.ticket

def held (s : ConsumerPipeline) : List RecordTicket :=
  s.waiting ++ (s.pool.workers.filterMap executing).map WorkItem.ticket

def stopping : ReaderPc → Bool
  | .stopping _ => true
  | .clearing => true
  | _ => false

structure WorkerDone (stopped : Bool) (reg : PartitionRegistry) (w : Worker WorkItem ExecutorPc) : Prop where
  flag : w.stopRequested = true → stopped = true
  ended : ∀ item pc, w.state = .running item pc → pc.ended = true →
    stopped = true ∨ reg.Outdated item.ticket ∨ reg.Settled item.ticket

structure Accounted (s : ConsumerPipeline) : Prop where
  valid : s.registry.Valid
  issued : ∀ t ∈ s.held, s.registry.Issued t
  nodup : s.held.Nodup
  pending : s.pool.stopped = false → ∀ t, s.registry.isPending t = true → t ∈ s.held
  workers : ∀ w ∈ s.pool.workers, WorkerDone s.pool.stopped s.registry w
  stops : stopping s.reader = true → s.pool.stopped = true
  revoked : ∀ ps, s.reader = .revoking ps → ∀ p ∈ ps, s.registry.find p = none

inductive Flow (s s' : ConsumerPipeline) : Prop
  | issue (p : PartitionKey) (o : ℤ) (t : RecordTicket) (hok : (s.registry.registerRecord p o).1 = .ok t)
      (hreg : s'.registry = (s.registry.registerRecord p o).2)
      (hwait : ∀ u, s'.waiting.count u ≤ [t].count u + s.waiting.count u)
      (hheld : ∀ u, s'.held.count u = [t].count u + s.held.count u)
  | keep (c : RegistryCall) (hc : ∀ t, (s.registry.call c).1 ≠ .ticket (.ok t))
      (hreg : s'.registry = (s.registry.call c).2)
      (hwait : ∀ u, s'.waiting.count u ≤ s.waiting.count u) (lost : List RecordTicket)
      (hheld : ∀ u, s.held.count u = s'.held.count u + lost.count u)
      (hlost : ∀ t ∈ lost, s'.pool.stopped = true ∨ s'.registry.isPending t = false)

/-- A thrown send ends the task. The condition is that nobody waits for its record any more. -/
def throwGuarded (s : ConsumerPipeline) : PipelineAction → Bool
  | .execute i (.sink .threw) =>
    match s.pool.workers[i]? with
    | some ⟨.running item .sending, _⟩ => s.pool.stopped || !s.registry.isCurrent item.ticket
    | _ => true
  | _ => true

theorem Flow.same {s s' : ConsumerPipeline} {c : RegistryCall}
    (hc : ∀ t, (s.registry.call c).1 ≠ .ticket (.ok t)) (hreg : s'.registry = (s.registry.call c).2)
    (hwait : s'.waiting = s.waiting) (hheld : s'.held = s.held) : Flow s s' :=
  .keep c hc hreg (by simp [hwait]) [] (by simp [hheld]) (by simp)

theorem Flow.register {s : ConsumerPipeline} (hidle : s.reader = .idle) (record : IncomingRecord) :
    Flow s (s.register record) := by
  unfold ConsumerPipeline.register
  rcases hr : s.registry.registerRecord record.partition record.offset with ⟨r, reg⟩
  cases r with
  | ok t =>
    refine .issue record.partition record.offset t (by rw [hr]) (by rw [hr]) ?_ ?_
    · intro u
      simp [waiting, inHand, unsubmitted, hidle, List.count_cons]
      omega
    · intro u
      simp [held, waiting, inHand, unsubmitted, hidle, List.count_cons]
      omega
  | error e =>
    refine .same (c := .registerRecord record.partition record.offset) ?_ ?_ rfl rfl
    · intro t
      simp [PartitionRegistry.call, hr]
    · simp [PartitionRegistry.call, hr]

theorem Flow.admitRecord {s : ConsumerPipeline} (hs : Accounted s) {t : RecordTicket} {record : IncomingRecord}
    (hr : s.reader = .ingesting t record) : Flow s (s.admitRecord t record) := by
  unfold ConsumerPipeline.admitRecord
  cases hid : (Models.StrongID.create (record.eventId.getD "") : Except ErrorCode Models.OutboxEventId) with
  | ok eventId =>
    refine .keep .commitCandidates (by simp [PartitionRegistry.call]) rfl ?_ [] ?_ (by simp)
    · intro u
      simp [waiting, inHand, unsubmitted, hr, List.count_cons]
      omega
    · intro u
      simp [held, waiting, inHand, unsubmitted, hr, List.count_cons]
      omega
  | error e =>
    have hi : s.registry.Issued t := hs.issued t (by simp [held, waiting, inHand, hr])
    refine .keep (.complete t) (by simp [PartitionRegistry.call]) rfl ?_ [t] ?_ ?_
    · intro u
      simp [waiting, inHand, unsubmitted, hr, List.count_cons]
    · intro u
      simp [held, waiting, inHand, unsubmitted, hr, List.count_cons, Nat.add_comm]
    · simp only [List.mem_singleton, forall_eq]
      right
      exact (PartitionRegistry.complete_issued hs.valid hi).2.not_pending (hs.valid.call (.complete t))

theorem Flow.eraseBacklog {s : ConsumerPipeline} (hs : Accounted s) {ps : List PartitionKey}
    (hr : s.reader = .revoking ps) :
    Flow s { s with backlog := s.backlog.filter (fun item => item.ticket.partition ∉ ps), reader := .idle } := by
  have hsplit (u : RecordTicket) : (s.backlog.map WorkItem.ticket).count u =
      ((s.backlog.filter (fun item => item.ticket.partition ∉ ps)).map WorkItem.ticket).count u +
        ((s.backlog.filter (fun item => item.ticket.partition ∈ ps)).map WorkItem.ticket).count u := by
    induction s.backlog with
    | nil => rfl
    | cons item items ih =>
      by_cases hp : item.ticket.partition ∈ ps
      · simp [hp, List.count_cons, ih]
        omega
      · simp [hp, List.count_cons, ih]
        omega
  refine .keep .commitCandidates (by simp [PartitionRegistry.call]) rfl ?_
    ((s.backlog.filter (fun item => item.ticket.partition ∈ ps)).map WorkItem.ticket) ?_ ?_
  · intro u
    simp [waiting, inHand, unsubmitted, hr, hsplit]
  · intro u
    simp [held, waiting, inHand, unsubmitted, hr, hsplit]
    omega
  · intro u hu
    right
    obtain ⟨item, hitem, rfl⟩ := List.mem_map.mp hu
    have hp : item.ticket.partition ∈ ps := by simpa using List.of_mem_filter hitem
    rw [Bool.eq_false_iff]
    intro hpend
    obtain ⟨st, hf, -⟩ := PartitionRegistry.isPending_iff.mp hpend
    rw [hs.revoked ps hr _ hp] at hf
    cases hf

theorem Flow.submitFront {s : ConsumerPipeline} (hr : s.reader = .pumping) : Flow s s.submitFront := by
  rcases s.submitFront_cases with he | ⟨item, rest, hb, he⟩
  · rw [he]
    refine .same (c := .commitCandidates) (by simp [PartitionRegistry.call]) rfl ?_ ?_
    all_goals simp [held, waiting, inHand, unsubmitted, hr]
  · rw [he]
    refine .keep .commitCandidates (by simp [PartitionRegistry.call]) rfl ?_ [] ?_ (by simp)
    all_goals
      intro u
      simp [held, waiting, inHand, unsubmitted, hr, hb, List.count_cons]
      omega

@[simp] theorem requestStop_executing (pool : WorkerPool WorkItem ExecutorPc) (i : ℕ) :
    (pool.requestStop i).workers.filterMap executing = pool.workers.filterMap executing := by
  cases hw : pool.workers[i]? with
  | none => rw [WorkerPool.requestStop_of_none hw]
  | some w =>
    obtain ⟨a, b, hl, hset⟩ := filterMap_set executing hw { w with stopRequested := true }
    rw [WorkerPool.requestStop_of_some hw]
    exact hset.trans hl.symm

@[simp] theorem requestStop_queue (pool : WorkerPool WorkItem ExecutorPc) (i : ℕ) :
    (pool.requestStop i).queue = pool.queue := by
  cases hw : pool.workers[i]? with
  | none => rw [WorkerPool.requestStop_of_none hw]
  | some w => rw [WorkerPool.requestStop_of_some hw]

theorem Flow.readerStep {s s' : ConsumerPipeline} (hs : Accounted s) (h : s.readerStep = some s') :
    Flow s s' := by
  unfold ConsumerPipeline.readerStep at h
  cases hr : s.reader with
  | idle => simp [hr] at h
  | ingesting ticket record =>
    obtain rfl : s.admitRecord ticket record = s' := by simpa [hr] using h
    exact Flow.admitRecord hs hr
  | revoking ps =>
    simp only [hr] at h
    obtain rfl := Option.some.inj h
    exact Flow.eraseBacklog hs hr
  | pumping =>
    obtain rfl : s.submitFront = s' := by simpa [hr] using h
    exact Flow.submitFront hr
  | popping =>
    simp only [hr] at h
    obtain rfl := Option.some.inj h
    refine .same (c := .commitCandidates) (by simp [PartitionRegistry.call]) rfl ?_ ?_
    all_goals simp [held, waiting, inHand, unsubmitted, hr]
  | stopping next =>
    simp only [hr] at h
    split_ifs at h with hlt
    · obtain rfl := Option.some.inj h
      refine .same (c := .commitCandidates) (by simp [PartitionRegistry.call]) rfl ?_ ?_
      all_goals simp [held, waiting, inHand, unsubmitted, hr, requestStop_executing]
    · obtain rfl := Option.some.inj h
      refine .same (c := .commitCandidates) (by simp [PartitionRegistry.call]) rfl ?_ ?_
      all_goals simp [held, waiting, inHand, unsubmitted, hr]
  | clearing =>
    simp only [hr] at h
    obtain rfl := Option.some.inj h
    have hstop := hs.stops (by simp [hr, stopping])
    refine .keep .commitCandidates (by simp [PartitionRegistry.call]) rfl ?_
      (s.backlog.map WorkItem.ticket) ?_ (fun _ _ => .inl hstop)
    · intro u
      simp [waiting, inHand, unsubmitted, hr]
    · intro u
      simp [held, waiting, inHand, unsubmitted, hr]
      omega

theorem Flow.take {config : PipelineConfiguration} {s : ConsumerPipeline} {i : ℕ}
    {pool : WorkerPool WorkItem ExecutorPc}
    (h : s.pool.take i (RecordExecutor.start config.retry) = some pool) : Flow s { s with pool := pool } := by
  obtain ⟨task, rest, hw, hq, rfl⟩ := WorkerPool.take_eq_some h
  obtain ⟨a, b, hl, hset⟩ := filterMap_set executing hw ⟨.running task (RecordExecutor.start config.retry), false⟩
  have hnew : executing ⟨.running task (RecordExecutor.start config.retry), false⟩ = some task := by
    simp [executing, RecordExecutor.start]
  refine .keep .commitCandidates (by simp [PartitionRegistry.call]) rfl ?_ [] ?_ (by simp)
  · intro u
    simp [waiting, unsubmitted, hq, List.count_cons]
  · intro u
    simp only [held, waiting, unsubmitted, hq, hl, hset, hnew]
    simp [executing, List.count_cons]
    omega

theorem Flow.finish {s : ConsumerPipeline} {i : ℕ} {pool : WorkerPool WorkItem ExecutorPc}
    (h : s.pool.finish i ExecutorPc.ended = some pool) : Flow s { s with pool := pool } := by
  obtain ⟨task, pc, stop, hw, he, rfl⟩ := WorkerPool.finish_eq_some h
  obtain ⟨a, b, hl, hset⟩ := filterMap_set executing hw ⟨.waiting, stop⟩
  refine .same (c := .commitCandidates) (by simp [PartitionRegistry.call]) rfl rfl ?_
  simp only [held, waiting, unsubmitted, hl, hset]
  simp [executing, he]

theorem Flow.exit {s : ConsumerPipeline} {i : ℕ} {pool : WorkerPool WorkItem ExecutorPc}
    (h : s.pool.exit i = some pool) : Flow s { s with pool := pool } := by
  obtain ⟨hw, rfl⟩ := WorkerPool.exit_eq_some h
  obtain ⟨a, b, hl, hset⟩ := filterMap_set executing hw ⟨.exited, true⟩
  refine .same (c := .commitCandidates) (by simp [PartitionRegistry.call]) rfl rfl ?_
  simp only [held, waiting, unsubmitted, hl, hset]
  simp [executing]

theorem ended_task {config : PipelineConfiguration} {s : ConsumerPipeline} (hs : Accounted s) {i : ℕ}
    {reply : Reply} {item : WorkItem} {pc pc' : ExecutorPc} {stop : Bool} {reg : PartitionRegistry}
    {events : List ExecutorEvent} (hg : s.throwGuarded (.execute i reply) = true)
    (hw : s.pool.workers[i]? = some ⟨.running item pc, stop⟩)
    (h : RecordExecutor.step config.retry item stop s.registry pc reply = some (events, reg, pc'))
    (he : pc'.ended = true) :
    s.pool.stopped = true ∨ reg.Outdated item.ticket ∨ reg.Settled item.ticket := by
  have hrun := RecordExecutor.step_running h
  have hi : s.registry.Issued item.ticket := by
    apply hs.issued
    obtain ⟨a, b, hl, -⟩ := filterMap_set executing hw ⟨.waiting, stop⟩
    simp [held, hl, executing, hrun]
  have hstale : s.registry.isCurrent item.ticket = false → reg.Outdated item.ticket := by
    intro hc
    have hout : s.registry.Outdated item.ticket := ⟨hi.generation, hc⟩
    rcases RecordExecutor.step_registry h with ⟨rfl, -⟩ | ⟨rfl, -⟩
    · exact hout
    · exact hout.call (.complete item.ticket)
  rcases RecordExecutor.step_ended h he with hst | hc | rfl | ⟨rfl, rfl⟩
  · exact .inl ((hs.workers _ (List.mem_of_getElem? hw)).flag hst)
  · exact .inr (.inl (hstale hc))
  · exact .inr (.inr (PartitionRegistry.complete_issued hs.valid hi).2)
  · simp only [throwGuarded, hw, Bool.or_eq_true, Bool.not_eq_true'] at hg
    exact hg.imp_right (fun hc => .inl (hstale hc))

theorem Flow.execute {config : PipelineConfiguration} {s s' : ConsumerPipeline} (hs : Accounted s) {i : ℕ}
    {reply : Reply} (hg : s.throwGuarded (.execute i reply) = true) (h : executeStep config s i reply = some s') :
    Flow s s' := by
  unfold executeStep at h
  split at h
  · rename_i item pc stop hw
    obtain ⟨⟨events, reg, pc'⟩, hstep, rfl⟩ := Option.map_eq_some_iff.mp h
    have hrun := RecordExecutor.step_running hstep
    have hreg : ∃ c, (∀ t, (s.registry.call c).1 ≠ .ticket (.ok t)) ∧ reg = (s.registry.call c).2 := by
      rcases RecordExecutor.step_registry hstep with ⟨rfl, -⟩ | ⟨rfl, -⟩
      · exact ⟨.commitCandidates, by simp [PartitionRegistry.call], rfl⟩
      · exact ⟨.complete item.ticket, by simp [PartitionRegistry.call], rfl⟩
    obtain ⟨c, hc, rfl⟩ := hreg
    obtain ⟨a, b, hl, hset⟩ := filterMap_set executing hw ⟨.running item pc', stop⟩
    dsimp only
    rw [WorkerPool.advance_of_running hw]
    cases he : pc'.ended with
    | false =>
      refine .same hc rfl ?_ ?_
      · simp [waiting, unsubmitted]
      · simp [held, waiting, unsubmitted, hl, hset, executing, hrun, he]
    | true =>
      refine .keep c hc rfl ?_ [item.ticket] ?_ ?_
      · intro u
        simp [waiting, unsubmitted]
      · intro u
        simp [held, waiting, unsubmitted, hl, hset, executing, hrun, he, List.count_cons]
        omega
      · simp only [List.mem_singleton, forall_eq]
        rcases ended_task hs hg hw hstep he with hst | hout | hset
        · exact .inl hst
        · right
          rw [Bool.eq_false_iff]
          intro hp
          have hcur := PartitionRegistry.isPending_isCurrent hp
          rw [hout.2] at hcur
          cases hcur
        · exact .inr (hset.not_pending (hs.valid.call c))
  · cases h

theorem Flow.step {config : PipelineConfiguration} {s s' : ConsumerPipeline} {a : PipelineAction}
    (hs : Accounted s) (hg : s.throwGuarded a = true) (h : step config s a = some s') : Flow s s' := by
  cases a with
  | onPartitionsAssigned ps =>
    simp only [ConsumerPipeline.step] at h
    split_ifs at h
    obtain rfl := Option.some.inj h
    exact .same (c := .assign ps) (by simp [PartitionRegistry.call]) rfl rfl rfl
  | onPartitionsRevoked ps =>
    simp only [ConsumerPipeline.step] at h
    split_ifs at h with hr
    obtain rfl := Option.some.inj h
    refine .same (c := .revoke ps) (by simp [PartitionRegistry.call]) rfl ?_ ?_
    all_goals simp [held, waiting, inHand, unsubmitted, hr]
  | ingest record =>
    simp only [ConsumerPipeline.step] at h
    split_ifs at h with hr
    obtain rfl := Option.some.inj h
    exact Flow.register hr record
  | pump =>
    simp only [ConsumerPipeline.step] at h
    split_ifs at h with hr
    obtain rfl := Option.some.inj h
    refine .same (c := .commitCandidates) (by simp [PartitionRegistry.call]) rfl ?_ ?_
    all_goals simp [held, waiting, inHand, unsubmitted, hr]
  | commitCandidates =>
    simp only [ConsumerPipeline.step] at h
    split_ifs at h
    obtain rfl := Option.some.inj h
    exact .same (c := .commitCandidates) (by simp [PartitionRegistry.call]) rfl rfl rfl
  | confirmCommit position =>
    simp only [ConsumerPipeline.step] at h
    split_ifs at h
    obtain rfl := Option.some.inj h
    exact .same (c := .confirmCommit position) (by simp [PartitionRegistry.call]) rfl rfl rfl
  | stop =>
    simp only [ConsumerPipeline.step] at h
    split_ifs at h with hr
    obtain rfl := Option.some.inj h
    refine .keep .commitCandidates (by simp [PartitionRegistry.call]) rfl ?_
      (s.pool.queue.map WorkItem.ticket) ?_ (fun _ _ => .inl rfl)
    · intro u
      simp [waiting, inHand, unsubmitted, WorkerPool.close, hr]
    · intro u
      simp [held, waiting, inHand, unsubmitted, WorkerPool.close, hr]
      omega
  | reader => exact Flow.readerStep hs h
  | take i =>
    obtain ⟨pool, hp, rfl⟩ := Option.map_eq_some_iff.mp h
    exact Flow.take hp
  | execute i reply => exact Flow.execute hs hg h
  | finish i =>
    obtain ⟨pool, hp, rfl⟩ := Option.map_eq_some_iff.mp h
    exact Flow.finish hp
  | exit i =>
    obtain ⟨pool, hp, rfl⟩ := Option.map_eq_some_iff.mp h
    exact Flow.exit hp

theorem held_count_le {s : ConsumerPipeline} (hs : Accounted s) (u : RecordTicket) : s.held.count u ≤ 1 :=
  List.nodup_iff_count_le_one.mp hs.nodup u

theorem Flow.registry {s s' : ConsumerPipeline} (h : Flow s s') :
    ∃ c, s'.registry = (s.registry.call c).2 := by
  cases h with
  | issue p o t _ hreg => exact ⟨.registerRecord p o, hreg⟩
  | keep c _ hreg => exact ⟨c, hreg⟩

theorem Flow.valid {s s' : ConsumerPipeline} (hs : Accounted s) (h : Flow s s') : s'.registry.Valid := by
  obtain ⟨c, hc⟩ := h.registry
  rw [hc]
  exact hs.valid.call c

theorem Flow.issued {s s' : ConsumerPipeline} (hs : Accounted s) (h : Flow s s') {t : RecordTicket}
    (ht : t ∈ s'.held) : s'.registry.Issued t := by
  rw [← List.count_pos_iff] at ht
  cases h with
  | issue p o u hok hreg _ hheld =>
    rw [hreg]
    by_cases hu : t = u
    · subst hu
      exact (PartitionRegistry.registerRecord_issued hs.valid hok).1
    · rw [hheld, List.count_singleton, if_neg (by simpa using Ne.symm hu), Nat.zero_add,
        List.count_pos_iff] at ht
      exact (hs.issued t ht).call hs.valid (.registerRecord p o)
  | keep c _ hreg _ lost hheld =>
    rw [hreg]
    have hmem : t ∈ s.held := by
      rw [← List.count_pos_iff, hheld]
      omega
    exact (hs.issued t hmem).call hs.valid c

theorem Flow.nodup {s s' : ConsumerPipeline} (hs : Accounted s) (h : Flow s s') : s'.held.Nodup := by
  rw [List.nodup_iff_count_le_one]
  intro u
  have hone := held_count_le hs u
  cases h with
  | issue p o t hok _ _ hheld =>
    rw [hheld, List.count_singleton]
    split_ifs with hu
    · have hfresh : u ∉ s.held := by
        intro hmem
        exact PartitionRegistry.registerRecord_fresh hs.valid hok (hs.issued u hmem) (by simpa using Eq.symm (beq_iff_eq.mp hu))
      rw [List.count_eq_zero_of_not_mem hfresh]
    · omega
  | keep c _ _ _ lost hheld =>
    have := hheld u
    omega

theorem Flow.pending {s s' : ConsumerPipeline} (hs : Accounted s) (h : Flow s s')
    (hmono : s.pool.stopped = true → s'.pool.stopped = true) (hrun : s'.pool.stopped = false)
    {t : RecordTicket} (ht : s'.registry.isPending t = true) : t ∈ s'.held := by
  have hrun' : s.pool.stopped = false := by
    cases hst : s.pool.stopped with
    | false => rfl
    | true => rw [hmono hst] at hrun; cases hrun
  rw [← List.count_pos_iff]
  cases h with
  | issue p o u hok hreg _ hheld =>
    rw [hheld]
    rw [hreg] at ht
    rcases PartitionRegistry.isPending_call (c := .registerRecord p o) hs.valid ht with hold | hnew
    · have := List.count_pos_iff.mpr (hs.pending hrun' t hold)
      omega
    · obtain rfl : u = t := by simpa [PartitionRegistry.call, hok] using hnew
      simp
  | keep c hc hreg _ lost hheld hlost =>
    rcases PartitionRegistry.isPending_call (c := c) hs.valid (hreg ▸ ht) with hold | hnew
    · have hmem := List.count_pos_iff.mpr (hs.pending hrun' t hold)
      have hnot : t ∉ lost := by
        intro hl
        rcases hlost t hl with hst | hno
        · rw [hrun] at hst
          cases hst
        · rw [ht] at hno
          cases hno
      have hzero := List.count_eq_zero_of_not_mem hnot
      have := hheld t
      omega
    · exact absurd hnew (hc t)

theorem WorkerDone.call {stopped stopped' : Bool} {reg : PartitionRegistry} {w : Worker WorkItem ExecutorPc}
    (hv : reg.Valid) (h : WorkerDone stopped reg w) (hmono : stopped = true → stopped' = true)
    (c : RegistryCall) : WorkerDone stopped' (reg.call c).2 w where
  flag hf := hmono (h.flag hf)
  ended item pc hw he := by
    rcases h.ended item pc hw he with hst | hout | hset
    · exact .inl (hmono hst)
    · exact .inr (.inl (hout.call c))
    · exact .inr (.inr (hset.call hv c))

theorem WorkerDone.of_executing {stopped : Bool} {reg : PartitionRegistry} {w : Worker WorkItem ExecutorPc}
    (hflag : w.stopRequested = true → stopped = true)
    (he : ∀ item pc, w.state = .running item pc → pc.ended = false) : WorkerDone stopped reg w where
  flag := hflag
  ended item pc hw hd := by
    rw [he item pc hw] at hd
    cases hd

theorem workers_set {s : ConsumerPipeline} (hs : Accounted s) (c : RegistryCall) {i : ℕ}
    {x : Worker WorkItem ExecutorPc} (hx : WorkerDone s.pool.stopped (s.registry.call c).2 x) :
    ∀ w ∈ s.pool.workers.set i x, WorkerDone s.pool.stopped (s.registry.call c).2 w := by
  intro w hw
  rcases List.mem_or_eq_of_mem_set hw with hold | rfl
  · exact (hs.workers w hold).call hs.valid id c
  · exact hx

theorem readerStep_pool {s s' : ConsumerPipeline} (h : s.readerStep = some s') :
    (s'.pool.workers = s.pool.workers ∧ s'.pool.stopped = s.pool.stopped) ∨
      (stopping s.reader = true ∧ ∃ i, s'.pool = s.pool.requestStop i) := by
  unfold ConsumerPipeline.readerStep at h
  cases hr : s.reader with
  | idle => simp [hr] at h
  | ingesting ticket record =>
    obtain rfl : s.admitRecord ticket record = s' := by simpa [hr] using h
    left
    unfold admitRecord
    split <;> exact ⟨rfl, rfl⟩
  | pumping =>
    obtain rfl : s.submitFront = s' := by simpa [hr] using h
    left
    rcases s.submitFront_cases with he | ⟨item, rest, -, he⟩ <;> rw [he] <;> exact ⟨rfl, rfl⟩
  | stopping next =>
    simp only [hr] at h
    split_ifs at h
    · obtain rfl := Option.some.inj h
      exact .inr ⟨rfl, next, rfl⟩
    · obtain rfl := Option.some.inj h
      exact .inl ⟨rfl, rfl⟩
  | _ =>
    simp only [hr] at h
    obtain rfl := Option.some.inj h
    exact .inl ⟨rfl, rfl⟩

theorem register_pool (s : ConsumerPipeline) (record : IncomingRecord) : (s.register record).pool = s.pool := by
  unfold ConsumerPipeline.register
  split <;> rfl

theorem requestStop_stopped (pool : WorkerPool WorkItem ExecutorPc) (i : ℕ) :
    (pool.requestStop i).stopped = pool.stopped := by
  cases hw : pool.workers[i]? with
  | none => rw [WorkerPool.requestStop_of_none hw]
  | some w => rw [WorkerPool.requestStop_of_some hw]

theorem workers_kept {s s' : ConsumerPipeline} (hs : Accounted s) (h : Flow s s')
    (hw : s'.pool.workers = s.pool.workers) (hst : s.pool.stopped = true → s'.pool.stopped = true) :
    ∀ w ∈ s'.pool.workers, WorkerDone s'.pool.stopped s'.registry w := by
  obtain ⟨c, hc⟩ := h.registry
  rw [hw, hc]
  exact fun w hmem => (hs.workers w hmem).call hs.valid hst c

theorem workers_step {config : PipelineConfiguration} {s s' : ConsumerPipeline} {a : PipelineAction}
    (hs : Accounted s) (hg : s.throwGuarded a = true) (h : step config s a = some s') :
    (s.pool.stopped = true → s'.pool.stopped = true) ∧
      ∀ w ∈ s'.pool.workers, WorkerDone s'.pool.stopped s'.registry w := by
  have hflow := Flow.step hs hg h
  cases a with
  | reader =>
    rcases readerStep_pool h with ⟨hw, hst⟩ | ⟨hr, i, hp⟩
    · exact ⟨hst.trans, workers_kept hs hflow hw hst.trans⟩
    · obtain ⟨c, hc⟩ := hflow.registry
      rw [hp, hc, requestStop_stopped]
      refine ⟨id, ?_⟩
      cases hw : s.pool.workers[i]? with
      | none =>
        rw [WorkerPool.requestStop_of_none hw]
        exact fun w hmem => (hs.workers w hmem).call hs.valid id c
      | some x =>
        rw [WorkerPool.requestStop_of_some hw]
        apply workers_set hs
        exact ⟨fun _ => hs.stops hr, ((hs.workers x (List.mem_of_getElem? hw)).call hs.valid id c).ended⟩
  | take i =>
    obtain ⟨pool, hp, rfl⟩ := Option.map_eq_some_iff.mp h
    obtain ⟨task, rest, hw, hq, rfl⟩ := WorkerPool.take_eq_some hp
    refine ⟨id, workers_set hs .commitCandidates ?_⟩
    apply WorkerDone.of_executing (by simp)
    rintro item pc ⟨rfl, rfl⟩
    exact RecordExecutor.loopTest_ended _ _
  | execute i reply =>
    simp only [step, executeStep] at h
    split at h
    · rename_i item pc stop hw
      obtain ⟨⟨events, reg, pc'⟩, hstep, rfl⟩ := Option.map_eq_some_iff.mp h
      obtain ⟨c, hc⟩ := hflow.registry
      dsimp only at hc ⊢
      rw [WorkerPool.advance_of_running hw, hc]
      refine ⟨id, workers_set hs c ⟨(hs.workers _ (List.mem_of_getElem? hw)).flag, ?_⟩⟩
      rintro item' pc'' ⟨rfl, rfl⟩ he
      rw [← hc]
      exact ended_task hs hg hw hstep he
    · cases h
  | finish i =>
    obtain ⟨pool, hp, rfl⟩ := Option.map_eq_some_iff.mp h
    obtain ⟨task, pc, stop, hw, he, rfl⟩ := WorkerPool.finish_eq_some hp
    have hflag := (hs.workers _ (List.mem_of_getElem? hw)).flag
    exact ⟨id, workers_set hs .commitCandidates
      (WorkerDone.of_executing (w := ⟨.waiting, stop⟩) hflag (by rintro item pc ⟨⟩))⟩
  | exit i =>
    obtain ⟨pool, hp, rfl⟩ := Option.map_eq_some_iff.mp h
    obtain ⟨hw, rfl⟩ := WorkerPool.exit_eq_some hp
    have hflag := (hs.workers _ (List.mem_of_getElem? hw)).flag
    exact ⟨id, workers_set hs .commitCandidates
      (WorkerDone.of_executing (w := ⟨.exited, true⟩) hflag (by rintro item pc ⟨⟩))⟩
  | ingest record =>
    simp only [step] at h
    split_ifs at h
    obtain rfl := Option.some.inj h
    rw [register_pool]
    refine ⟨id, ?_⟩
    have hkept := workers_kept hs hflow (by rw [register_pool]) (by rw [register_pool]; exact id)
    rwa [register_pool] at hkept
  | _ =>
    simp only [step] at h
    split_ifs at h
    obtain rfl := Option.some.inj h
    first
      | exact ⟨id, workers_kept hs hflow rfl id⟩
      | exact ⟨fun _ => rfl, workers_kept hs hflow rfl (fun _ => rfl)⟩

theorem register_reader {s : ConsumerPipeline} (hr : s.reader = .idle) (record : IncomingRecord) :
    (s.register record).reader = .idle ∨ ∃ ticket, (s.register record).reader = .ingesting ticket record := by
  unfold ConsumerPipeline.register
  split
  · exact .inr ⟨_, rfl⟩
  · exact .inl hr

theorem readerStep_reader {s s' : ConsumerPipeline} (h : s.readerStep = some s') :
    (∀ ps, s'.reader ≠ .revoking ps) ∧ (stopping s'.reader = true → stopping s.reader = true) := by
  unfold ConsumerPipeline.readerStep at h
  cases hr : s.reader with
  | idle => simp [hr] at h
  | ingesting ticket record =>
    obtain rfl : s.admitRecord ticket record = s' := by simpa [hr] using h
    unfold admitRecord
    split <;> simp [stopping]
  | pumping =>
    obtain rfl : s.submitFront = s' := by simpa [hr] using h
    rcases s.submitFront_cases with he | ⟨item, rest, -, he⟩ <;> simp [he, stopping]
  | stopping next =>
    simp only [hr] at h
    split_ifs at h
    all_goals
      obtain rfl := Option.some.inj h
      simp [stopping]
  | _ =>
    simp only [hr] at h
    obtain rfl := Option.some.inj h
    simp [stopping]

theorem reader_step {config : PipelineConfiguration} {s s' : ConsumerPipeline} {a : PipelineAction}
    (hs : Accounted s) (h : step config s a = some s') :
    (stopping s'.reader = true → stopping s.reader = true ∨ s'.pool.stopped = true) ∧
      ∀ ps, s'.reader = .revoking ps → ∀ p ∈ ps, s'.registry.find p = none := by
  cases a with
  | onPartitionsRevoked ps =>
    simp only [step] at h
    split_ifs at h
    obtain rfl := Option.some.inj h
    refine ⟨by simp [stopping], ?_⟩
    rintro _ ⟨rfl⟩ p hp
    simp [PartitionRegistry.revoke_find, hp]
  | ingest record =>
    simp only [step] at h
    split_ifs at h with hr
    obtain rfl := Option.some.inj h
    rcases register_reader hr record with he | ⟨ticket, he⟩
    all_goals simp [he, stopping]
  | stop =>
    simp only [step] at h
    split_ifs at h
    obtain rfl := Option.some.inj h
    exact ⟨fun _ => .inr rfl, by simp⟩
  | reader =>
    obtain ⟨hrev, hst⟩ := readerStep_reader h
    exact ⟨fun hr => .inl (hst hr), fun ps he => absurd he (hrev ps)⟩
  | execute i reply =>
    simp only [step, executeStep] at h
    split at h
    · obtain ⟨⟨events, reg, pc'⟩, hstep, rfl⟩ := Option.map_eq_some_iff.mp h
      refine ⟨.inl, fun ps he p hp => ?_⟩
      have hnone := hs.revoked ps he p hp
      rcases RecordExecutor.step_registry hstep with ⟨rfl, -⟩ | ⟨rfl, -⟩
      · exact hnone
      · exact PartitionRegistry.find_none_call (c := .complete _) rfl hnone
    · cases h
  | take i =>
    obtain ⟨pool, -, rfl⟩ := Option.map_eq_some_iff.mp h
    exact ⟨.inl, hs.revoked⟩
  | finish i =>
    obtain ⟨pool, -, rfl⟩ := Option.map_eq_some_iff.mp h
    exact ⟨.inl, hs.revoked⟩
  | exit i =>
    obtain ⟨pool, -, rfl⟩ := Option.map_eq_some_iff.mp h
    exact ⟨.inl, hs.revoked⟩
  | _ =>
    simp only [step] at h
    split_ifs at h with hr
    obtain rfl := Option.some.inj h
    simp [hr, stopping]

theorem Accounted.create (config : PipelineConfiguration) : Accounted (create config) := by
  have hworker : ∀ w ∈ (WorkerPool.create config.workerThreads config.queueCapacity :
      WorkerPool WorkItem ExecutorPc).workers, w = {} := fun w hw => List.eq_of_mem_replicate hw
  have hheld : (ConsumerPipeline.create config).held = [] := by
    simp [held, waiting, inHand, unsubmitted, ConsumerPipeline.create, WorkerPool.create, executing]
  refine ⟨PartitionRegistry.Valid.empty, by simp [hheld], by simp [hheld], ?_, ?_, ?_, ?_⟩
  · intro _ t ht
    obtain ⟨st, hf, -⟩ := PartitionRegistry.isPending_iff.mp ht
    cases (PartitionRegistry.find_empty t.partition).symm.trans hf
  · intro w hw
    rw [hworker w hw]
    exact WorkerDone.of_executing (by simp) (by simp)
  · intro h
    cases h
  · intro ps h
    cases h

theorem Accounted.step {config : PipelineConfiguration} {s s' : ConsumerPipeline} {a : PipelineAction}
    (hs : Accounted s) (hg : s.throwGuarded a = true) (h : ConsumerPipeline.step config s a = some s') :
    Accounted s' := by
  have hflow := Flow.step hs hg h
  obtain ⟨hmono, hworkers⟩ := workers_step hs hg h
  obtain ⟨hstops, hrevoked⟩ := reader_step hs h
  refine ⟨hflow.valid hs, fun t ht => hflow.issued hs ht, hflow.nodup hs, ?_, hworkers, ?_, hrevoked⟩
  · intro hrun t ht
    exact hflow.pending hs hmono hrun ht
  · intro hr
    rcases hstops hr with hold | hst
    · exact hmono (hs.stops hold)
    · exact hst

theorem run_accounted {config : PipelineConfiguration} {actions : List PipelineAction}
    {s : ConsumerPipeline} (hm : meets (step config) throwGuarded (create config) actions = true)
    (h : run (step config) (create config) actions = some s) : Accounted s :=
  run_preserves_of_meets (fun _ _ _ hs hg hstep => hs.step hg hstep) (Accounted.create config) hm h

end ConsumerPipeline

end LiquidPetProject.Messaging
