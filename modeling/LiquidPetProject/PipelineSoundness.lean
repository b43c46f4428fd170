import LiquidPetProject.CommitBounds
import LiquidPetProject.ConsumerGroup

namespace LiquidPetProject.Messaging

open Models

def ConsumerRecord.Settled (history : List Settlement) (r : ConsumerRecord) : Prop :=
  match (StrongID.create (r.incoming.eventId.getD "") : Except ErrorCode OutboxEventId) with
  | .ok eventId =>
    .handled r.partition r.offset r.value ⟨eventId, r.incoming.eventType⟩ ∈ history ∨
      ∃ attempts, .deadLettered ⟨r.partition, r.offset, attempts, r.value, ⟨eventId, r.incoming.eventType⟩⟩ ∈ history
  | .error _ => .skipped r.partition r.offset ∈ history

theorem ConsumerRecord.Settled.mono {history history' : List Settlement} {r : ConsumerRecord}
    (h : r.Settled history) (hsub : history ⊆ history') : r.Settled history' := by
  unfold ConsumerRecord.Settled at h ⊢
  split at h
  · exact h.imp (fun hh => hsub hh) (fun ⟨n, hn⟩ => ⟨n, hsub hn⟩)
  · exact hsub h

abbrev PartitionLog := PartitionKey → List ConsumerRecord

def WorkItem.FromLog (log : PartitionLog) (item : WorkItem) : Prop :=
  ∃ r ∈ log item.ticket.partition, r.partition = item.ticket.partition ∧ r.offset = item.ticket.offset ∧
    r.value = item.payload ∧ StrongID.create (r.incoming.eventId.getD "") = .ok item.metadata.eventId ∧
    r.incoming.eventType = item.metadata.eventType

def WorkItem.Settled (history : List Settlement) (item : WorkItem) : Prop :=
  .handled item.ticket.partition item.ticket.offset item.payload item.metadata ∈ history ∨
    ∃ attempts, .deadLettered
      ⟨item.ticket.partition, item.ticket.offset, attempts, item.payload, item.metadata⟩ ∈ history

def SettledAt (log : PartitionLog) (history : List Settlement) (p : PartitionKey) (o : ℤ) : Prop :=
  ∃ r ∈ log p, r.offset = o ∧ r.Settled history

def LogExtends (log log' : PartitionLog) : Prop := ∀ p, log p ⊆ log' p

theorem WorkItem.FromLog.settledAt {log : PartitionLog} {history : List Settlement} {item : WorkItem}
    (h : item.FromLog log) (hs : item.Settled history) :
    SettledAt log history item.ticket.partition item.ticket.offset := by
  obtain ⟨r, hr, hp, ho, hv, hid, hty⟩ := h
  refine ⟨r, hr, ho, ?_⟩
  unfold ConsumerRecord.Settled
  simp only [hid, hp, ho, hv, hty]
  exact hs

theorem WorkItem.FromLog.mono {log log' : PartitionLog} {item : WorkItem} (h : item.FromLog log)
    (hlog : LogExtends log log') : item.FromLog log' := by
  obtain ⟨r, hr, hrest⟩ := h
  exact ⟨r, hlog _ hr, hrest⟩

theorem WorkItem.Settled.mono {history history' : List Settlement} {item : WorkItem}
    (h : item.Settled history) (hsub : history ⊆ history') : item.Settled history' :=
  h.imp (fun hh => hsub hh) (fun ⟨n, hn⟩ => ⟨n, hsub hn⟩)

theorem SettledAt.mono {log log' : PartitionLog} {history history' : List Settlement} {p : PartitionKey}
    {o : ℤ} (h : SettledAt log history p o) (hlog : LogExtends log log') (hsub : history ⊆ history') :
    SettledAt log' history' p o := by
  obtain ⟨r, hr, ho, hs⟩ := h
  exact ⟨r, hlog p hr, ho, hs.mono hsub⟩

namespace PartitionRegistry

def DoneAll (Q : PartitionKey → ℤ → Prop) (reg : PartitionRegistry) : Prop :=
  ∀ p st, reg.find p = some st → ∀ e ∈ st.tracker.entries, e.done = true → Q p e.offset

theorem DoneAll.insertOrAssign {Q : PartitionKey → ℤ → Prop} {reg : PartitionRegistry} {p : PartitionKey}
    {st : PartitionState} (h : reg.DoneAll Q)
    (hst : ∀ e ∈ st.tracker.entries, e.done = true → Q p e.offset) : (reg.insertOrAssign p st).DoneAll Q := by
  intro q st' hf
  rw [find_insertOrAssign] at hf
  split_ifs at hf with hp
  · obtain rfl := Option.some.inj hf
    subst hp
    exact hst
  · exact h q st' hf

theorem DoneAll.assign {Q : PartitionKey → ℤ → Prop} {reg : PartitionRegistry} (h : reg.DoneAll Q)
    (ps : List PartitionKey) : (reg.assign ps).DoneAll Q := by
  intro p st hf e he
  by_cases hp : p ∈ ps
  · obtain ⟨g, hf', -⟩ := assign_find reg hp
    obtain rfl := Option.some.inj (hf'.symm.trans hf)
    cases he
  · exact h p st ((assign_find_other hp).symm.trans hf) e he

theorem DoneAll.revoke {Q : PartitionKey → ℤ → Prop} {reg : PartitionRegistry} (h : reg.DoneAll Q)
    (ps : List PartitionKey) : (reg.revoke ps).2.DoneAll Q := by
  intro p st hf
  rw [revoke_find] at hf
  split_ifs at hf
  exact h p st hf

theorem DoneAll.registerRecord {Q : PartitionKey → ℤ → Prop} {reg : PartitionRegistry} (hv : reg.Valid)
    (h : reg.DoneAll Q) (p : PartitionKey) (o : ℤ) : (reg.registerRecord p o).2.DoneAll Q := by
  cases hf : reg.find p with
  | none =>
    rw [registerRecord_of_unassigned hf]
    exact h
  | some st =>
    rw [registerRecord_of_assigned hf]
    apply h.insertOrAssign
    dsimp only
    rw [OffsetTracker.registerRecord_eq (hv.tracker p st hf)]
    split_ifs
    · exact h p st hf
    · intro e he hd
      rcases List.mem_append.mp he with he | he
      · exact h p st hf e he hd
      · rw [List.mem_singleton.mp he] at hd
        cases hd

theorem DoneAll.complete {Q : PartitionKey → ℤ → Prop} {reg : PartitionRegistry} (hv : reg.Valid)
    (h : reg.DoneAll Q) {t : RecordTicket} (ht : Q t.partition t.offset) : (reg.complete t).2.DoneAll Q := by
  cases hc : reg.isCurrent t with
  | false =>
    rw [complete_of_stale hc]
    exact h
  | true =>
    obtain ⟨st, hf, hg⟩ := isCurrent_iff.mp hc
    rw [complete_of_current hf hg]
    apply h.insertOrAssign
    dsimp only
    rw [OffsetTracker.complete_eq (hv.tracker _ st hf)]
    split_ifs
    · exact h _ st hf
    · intro e he hd
      obtain ⟨f, hfm, rfl⟩ := List.mem_map.mp he
      split_ifs at hd ⊢ with ho
      · exact ho ▸ ht
      · exact h _ st hf f hfm hd
    · exact h _ st hf

theorem DoneAll.confirmCommit {Q : PartitionKey → ℤ → Prop} {reg : PartitionRegistry} (hv : reg.Valid)
    (h : reg.DoneAll Q) (c : CommitPosition) : (reg.confirmCommit c).2.DoneAll Q := by
  cases hc : reg.isCurrent c.ticket with
  | false =>
    rw [confirmCommit_of_stale hc]
    exact h
  | true =>
    obtain ⟨st, hf, hg⟩ := isCurrent_iff.mp hc
    rw [confirmCommit_of_current hf hg]
    apply h.insertOrAssign
    dsimp only
    rw [OffsetTracker.confirmCommit_eq (hv.tracker _ st hf)]
    split_ifs
    · exact h _ st hf
    · exact h _ st hf
    · exact fun e he hd => h _ st hf e ((OffsetTracker.not_covered (hv.tracker _ st hf).sorted).mp he).1 hd

end PartitionRegistry

structure WorkerSound (log : PartitionLog) (history : List Settlement) (w : Worker WorkItem ExecutorPc) :
    Prop where
  fromLog : ∀ item pc, w.state = .running item pc → item.FromLog log
  finishing : ∀ item o, w.state = .running item (.finishing o) → item.Settled history

structure PipelineSound (log : PartitionLog) (history : List Settlement) (s : ConsumerPipeline) : Prop where
  valid : s.registry.Valid
  backlog : ∀ item ∈ s.backlog, item.FromLog log
  queue : ∀ item ∈ s.pool.queue, item.FromLog log
  workers : ∀ w ∈ s.pool.workers, WorkerSound log history w
  inHand : ∀ t record, s.reader = .ingesting t record →
    ∃ r ∈ log t.partition, r.incoming = record ∧ r.partition = t.partition ∧ r.offset = t.offset
  done : s.registry.DoneAll (SettledAt log history)

theorem WorkerSound.mono {log log' : PartitionLog} {history history' : List Settlement}
    {w : Worker WorkItem ExecutorPc} (h : WorkerSound log history w) (hlog : LogExtends log log')
    (hsub : history ⊆ history') : WorkerSound log' history' w where
  fromLog item pc hw := (h.fromLog item pc hw).mono hlog
  finishing item o hw := (h.finishing item o hw).mono hsub

theorem PipelineSound.mono {log log' : PartitionLog} {history history' : List Settlement}
    {s : ConsumerPipeline} (h : PipelineSound log history s) (hlog : LogExtends log log')
    (hsub : history ⊆ history') : PipelineSound log' history' s where
  valid := h.valid
  backlog item hi := (h.backlog item hi).mono hlog
  queue item hi := (h.queue item hi).mono hlog
  workers w hw := (h.workers w hw).mono hlog hsub
  inHand t record hr := by
    obtain ⟨r, hrm, hrest⟩ := h.inHand t record hr
    exact ⟨r, hlog _ hrm, hrest⟩
  done p st hf e he hd := (h.done p st hf e he hd).mono hlog hsub

theorem WorkerSound.of_idle {log : PartitionLog} {history : List Settlement}
    {w : Worker WorkItem ExecutorPc} (h : ∀ item pc, w.state ≠ .running item pc) :
    WorkerSound log history w :=
  ⟨fun item pc hw => absurd hw (h item pc), fun item _ hw => absurd hw (h item _)⟩

namespace PipelineSound

variable {log : PartitionLog} {history : List Settlement} {s s' : ConsumerPipeline}

theorem of_moves (hs : PipelineSound log history s) (hreg : s'.registry = s.registry)
    (hback : ∀ item ∈ s'.backlog, item ∈ s.backlog)
    (hqueue : ∀ item ∈ s'.pool.queue, item ∈ s.pool.queue ∨ item ∈ s.backlog)
    (hworkers : ∀ w ∈ s'.pool.workers, WorkerSound log history w)
    (hreader : ∀ t record, s'.reader ≠ .ingesting t record) : PipelineSound log history s' where
  valid := hreg ▸ hs.valid
  backlog item hi := hs.backlog item (hback item hi)
  queue item hi := (hqueue item hi).elim (hs.queue item) (hs.backlog item)
  workers := hworkers
  inHand t record hr := absurd hr (hreader t record)
  done := hreg ▸ hs.done

theorem admitRecord (hs : PipelineSound log history s) {t : RecordTicket} {record : IncomingRecord}
    (hr : s.reader = .ingesting t record) {settled : List Settlement}
    (hset : ∀ e, (StrongID.create (record.eventId.getD "") : Except ErrorCode OutboxEventId) = .error e →
      .skipped t.partition t.offset ∈ settled) : PipelineSound log (history ++ settled) (s.admitRecord t record) := by
  have hs' := hs.mono (fun p => List.Subset.refl (log p)) (List.subset_append_left history settled)
  obtain ⟨r, hrm, rfl, hp, ho⟩ := hs.inHand t record hr
  unfold ConsumerPipeline.admitRecord
  cases hid : (StrongID.create (r.incoming.eventId.getD "") : Except ErrorCode OutboxEventId) with
  | ok eventId =>
    refine ⟨hs'.valid, ?_, hs'.queue, hs'.workers, by simp, hs'.done⟩
    intro item hi
    rcases List.mem_append.mp hi with hi | hi
    · exact hs'.backlog item hi
    · rw [List.mem_singleton.mp hi]
      exact ⟨r, hrm, hp, ho, rfl, hid, rfl⟩
  | error e =>
    refine ⟨hs.valid.call (.complete t), hs'.backlog, hs'.queue, hs'.workers, by simp, ?_⟩
    refine hs'.done.complete hs'.valid ⟨r, hrm, ho, ?_⟩
    unfold ConsumerRecord.Settled
    simp only [hid, hp, ho]
    exact List.mem_append_right _ (hset e hid)

theorem readerStep {c : KafkaEventConsumer} (hs : PipelineSound log history c.pipeline)
    (h : c.pipeline.readerStep = some s') : PipelineSound log (history ++ c.settlements .reader) s' := by
  have hs' := hs.mono (fun p => List.Subset.refl (log p))
    (List.subset_append_left history (c.settlements .reader))
  unfold ConsumerPipeline.readerStep at h
  cases hr : c.pipeline.reader with
  | idle => simp [hr] at h
  | ingesting t record =>
    obtain rfl : c.pipeline.admitRecord t record = s' := by simpa [hr] using h
    apply hs.admitRecord hr
    intro e he
    simp [KafkaEventConsumer.settlements, hr, he]
  | revoking ps =>
    simp only [hr] at h
    obtain rfl := Option.some.inj h
    exact hs'.of_moves rfl (fun item hi => List.mem_of_mem_filter hi) (fun _ => .inl) hs'.workers (by simp)
  | pumping =>
    obtain rfl : c.pipeline.submitFront = s' := by simpa [hr] using h
    rcases c.pipeline.submitFront_cases with he | ⟨item, rest, hb, he⟩
    · rw [he]
      exact hs'.of_moves rfl (fun _ => id) (fun _ => .inl) hs'.workers (by simp)
    · rw [he]
      refine hs'.of_moves rfl (fun _ => id) ?_ hs'.workers (by simp)
      intro x hx
      rcases List.mem_append.mp hx with hx | hx
      · exact .inl hx
      · right
        rw [List.mem_singleton.mp hx, hb]
        exact List.mem_cons_self
  | popping =>
    simp only [hr] at h
    obtain rfl := Option.some.inj h
    exact hs'.of_moves rfl (fun _ => List.mem_of_mem_tail) (fun _ => .inl) hs'.workers (by simp)
  | stopping next =>
    simp only [hr] at h
    split_ifs at h
    · obtain rfl := Option.some.inj h
      cases hw : c.pipeline.pool.workers[next]? with
      | none =>
        rw [WorkerPool.requestStop_of_none hw]
        exact hs'.of_moves rfl (fun _ => id) (fun _ => .inl) hs'.workers (by simp)
      | some w =>
        rw [WorkerPool.requestStop_of_some hw]
        refine hs'.of_moves rfl (fun _ => id) (fun _ => .inl) ?_ (by simp)
        intro x hx
        rcases List.mem_or_eq_of_mem_set hx with hx | rfl
        · exact hs'.workers x hx
        · exact ⟨(hs'.workers w (List.mem_of_getElem? hw)).fromLog,
            (hs'.workers w (List.mem_of_getElem? hw)).finishing⟩
    · obtain rfl := Option.some.inj h
      exact hs'.of_moves rfl (fun _ => id) (fun _ => .inl) hs'.workers (by simp)
  | clearing =>
    simp only [hr] at h
    obtain rfl := Option.some.inj h
    exact hs'.of_moves rfl (by simp) (fun _ => .inl) hs'.workers (by simp)

theorem workers_set (hs : PipelineSound log history s) {i : ℕ} {x : Worker WorkItem ExecutorPc}
    (hx : WorkerSound log history x) : ∀ w ∈ s.pool.workers.set i x, WorkerSound log history w := by
  intro w hw
  rcases List.mem_or_eq_of_mem_set hw with hold | rfl
  · exact hs.workers w hold
  · exact hx

theorem execute {c : KafkaEventConsumer} (hs : PipelineSound log history c.pipeline) {i : ℕ} {reply : Reply}
    (h : ConsumerPipeline.executeStep c.configuration c.pipeline i reply = some s') :
    PipelineSound log (history ++ c.settlements (.execute i reply)) s' := by
  have hs' := hs.mono (fun p => List.Subset.refl (log p))
    (List.subset_append_left history (c.settlements (.execute i reply)))
  unfold ConsumerPipeline.executeStep at h
  split at h
  · rename_i item pc stop hw
    obtain ⟨⟨events, reg, pc'⟩, hstep, rfl⟩ := Option.map_eq_some_iff.mp h
    have hworker := hs.workers _ (List.mem_of_getElem? hw)
    have hfrom : item.FromLog log := hworker.fromLog item pc rfl
    have hnew : WorkerSound log (history ++ c.settlements (.execute i reply)) ⟨.running item pc', stop⟩ := by
      constructor
      · rintro _ _ ⟨rfl, rfl⟩
        exact hfrom
      · rintro _ o ⟨rfl, rfl⟩
        have hset : c.settlements (.execute i reply) = events.filterMap (KafkaEventConsumer.settlement item) := by
          simp [KafkaEventConsumer.settlements, hw, hstep]
        rw [hset]
        rcases RecordExecutor.step_finishing hstep with rfl | rfl
        · exact .inl (by simp [KafkaEventConsumer.settlement])
        · right
          refine ⟨c.configuration.retry.effectiveMaxAttempts, ?_⟩
          simp [KafkaEventConsumer.settlement, RecordExecutor.deadLetterRecord]
    dsimp only
    rw [WorkerPool.advance_of_running hw]
    rcases RecordExecutor.step_registry hstep with ⟨rfl, -⟩ | ⟨rfl, -, o, rfl⟩
    · exact ⟨hs'.valid, hs'.backlog, hs'.queue, hs'.workers_set hnew, hs'.inHand, hs'.done⟩
    · refine ⟨hs'.valid.call (.complete item.ticket), hs'.backlog, hs'.queue, hs'.workers_set hnew,
        hs'.inHand, ?_⟩
      exact hs'.done.complete hs'.valid
        (hfrom.settledAt ((hworker.finishing item o rfl).mono (List.subset_append_left _ _)))
  · cases h

theorem registry_call (hs : PipelineSound log history s) {reg : PartitionRegistry} (hv : reg.Valid)
    (hd : reg.DoneAll (SettledAt log history)) : PipelineSound log history { s with registry := reg } :=
  ⟨hv, hs.backlog, hs.queue, hs.workers, hs.inHand, hd⟩

theorem register (hs : PipelineSound log history s) {r : ConsumerRecord} (hr : r ∈ log r.partition) :
    PipelineSound log history (s.register r.incoming) := by
  have hv := hs.valid.call (.registerRecord r.partition r.offset)
  have hd := hs.done.registerRecord hs.valid r.partition r.offset
  unfold ConsumerPipeline.register
  rcases hreg : s.registry.registerRecord r.incoming.partition r.incoming.offset with ⟨res, reg⟩
  have hreg' : s.registry.registerRecord r.partition r.offset = (res, reg) := hreg
  simp only [PartitionRegistry.call, hreg'] at hv hd
  cases res with
  | error e => exact hs.registry_call hv hd
  | ok ticket =>
    refine ⟨hv, hs.backlog, hs.queue, hs.workers, ?_, hd⟩
    rintro _ _ ⟨rfl, rfl⟩
    obtain ⟨-, hp, ho⟩ := PartitionRegistry.registerRecord_issued (t := ticket) hs.valid (by rw [hreg'])
    exact ⟨r, hp ▸ hr, rfl, hp.symm, ho.symm⟩

theorem step {c c' : KafkaEventConsumer} {a : PipelineAction} {settled : List Settlement}
    (hs : PipelineSound log history c.pipeline) (h : c.pipelineStep a = some (settled, c'))
    (hin : ∀ record, a = .ingest record → ∃ r ∈ log r.partition, r.incoming = record) :
    PipelineSound log (history ++ settled) c'.pipeline := by
  obtain ⟨s', hstep, he⟩ := Option.map_eq_some_iff.mp h
  obtain ⟨rfl, rfl⟩ := Prod.mk.inj he
  have hs' := hs.mono (fun p => List.Subset.refl (log p)) (List.subset_append_left history (c.settlements a))
  cases a with
  | onPartitionsAssigned ps =>
    simp only [ConsumerPipeline.step] at hstep
    split_ifs at hstep
    obtain rfl := Option.some.inj hstep
    exact hs'.registry_call (hs'.valid.call (.assign ps)) (hs'.done.assign ps)
  | onPartitionsRevoked ps =>
    simp only [ConsumerPipeline.step] at hstep
    split_ifs at hstep
    obtain rfl := Option.some.inj hstep
    exact ⟨hs'.valid.call (.revoke ps), hs'.backlog, hs'.queue, hs'.workers, by simp, hs'.done.revoke ps⟩
  | ingest record =>
    simp only [ConsumerPipeline.step] at hstep
    split_ifs at hstep
    obtain rfl := Option.some.inj hstep
    obtain ⟨r, hrm, rfl⟩ := hin record rfl
    exact hs'.register hrm
  | pump =>
    simp only [ConsumerPipeline.step] at hstep
    split_ifs at hstep
    obtain rfl := Option.some.inj hstep
    exact hs'.of_moves rfl (fun _ => id) (fun _ => .inl) hs'.workers (by simp)
  | commitCandidates =>
    simp only [ConsumerPipeline.step] at hstep
    split_ifs at hstep
    obtain rfl := Option.some.inj hstep
    exact hs'
  | confirmCommit position =>
    simp only [ConsumerPipeline.step] at hstep
    split_ifs at hstep
    obtain rfl := Option.some.inj hstep
    exact hs'.registry_call (hs'.valid.call (.confirmCommit position)) (hs'.done.confirmCommit hs'.valid position)
  | stop =>
    simp only [ConsumerPipeline.step] at hstep
    split_ifs at hstep
    obtain rfl := Option.some.inj hstep
    exact hs'.of_moves rfl (fun _ => id) (by simp [WorkerPool.close]) hs'.workers (by simp)
  | reader => exact hs.readerStep hstep
  | take i =>
    obtain ⟨pool, hp, rfl⟩ := Option.map_eq_some_iff.mp hstep
    obtain ⟨task, rest, -, hq, rfl⟩ := WorkerPool.take_eq_some hp
    refine ⟨hs'.valid, hs'.backlog, ?_, hs'.workers_set ?_, hs'.inHand, hs'.done⟩
    · intro item hi
      exact hs'.queue item (hq ▸ List.mem_cons_of_mem _ hi)
    · constructor
      · rintro _ _ ⟨rfl, rfl⟩
        exact hs'.queue task (hq ▸ List.mem_cons_self)
      · intro item o hw
        exact absurd (WorkerState.running.inj hw).2 (RecordExecutor.loopTest_ne_finishing _ _ _)
  | execute i reply => exact hs.execute hstep
  | finish i =>
    obtain ⟨pool, hp, rfl⟩ := Option.map_eq_some_iff.mp hstep
    obtain ⟨task, pc, stop, -, -, rfl⟩ := WorkerPool.finish_eq_some hp
    exact ⟨hs'.valid, hs'.backlog, hs'.queue, hs'.workers_set (WorkerSound.of_idle (by simp)), hs'.inHand, hs'.done⟩
  | exit i =>
    obtain ⟨pool, hp, rfl⟩ := Option.map_eq_some_iff.mp hstep
    obtain ⟨-, rfl⟩ := WorkerPool.exit_eq_some hp
    exact ⟨hs'.valid, hs'.backlog, hs'.queue, hs'.workers_set (WorkerSound.of_idle (by simp)), hs'.inHand, hs'.done⟩

theorem create (configuration : PipelineConfiguration) :
    PipelineSound log history (ConsumerPipeline.create configuration) := by
  refine ⟨PartitionRegistry.Valid.empty, by simp [ConsumerPipeline.create],
    by simp [ConsumerPipeline.create, WorkerPool.create], ?_, by simp [ConsumerPipeline.create], ?_⟩
  · intro w hw
    rw [List.eq_of_mem_replicate hw]
    exact WorkerSound.of_idle (by simp)
  · intro p st hf
    cases (PartitionRegistry.find_empty p).symm.trans hf

end PipelineSound

end LiquidPetProject.Messaging
