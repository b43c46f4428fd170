import LiquidPetProject.TicketAccounts

namespace LiquidPetProject.Messaging

namespace KafkaEventConsumer

def registeredTickets (c : KafkaEventConsumer) : PipelineAction → List RecordTicket
  | .ingest record => c.pipeline.registry.newTickets record.partition record.offset
  | _ => []

def settledTickets (c : KafkaEventConsumer) (a : PipelineAction) : List RecordTicket :=
  match a with
  | .execute i _ =>
    match c.pipeline.pool.workers[i]? with
    | some ⟨.running item _, _⟩ => (c.settlements a).map (fun _ => item.ticket)
    | _ => []
  | .reader =>
    match c.pipeline.reader with
    | .ingesting ticket _ => (c.settlements a).map (fun _ => ticket)
    | _ => []
  | _ => []

end KafkaEventConsumer

theorem RecordExecutor.step_settled {policy : RetryPolicy} {item : WorkItem} {stop : Bool}
    {reg reg' : PartitionRegistry} {pc pc' : ExecutorPc} {reply : Reply} {events : List ExecutorEvent}
    (h : RecordExecutor.step policy item stop reg pc reply = some (events, reg', pc'))
    (hs : events.filterMap (KafkaEventConsumer.settlement item) ≠ []) : ∃ o, pc' = .finishing o := by
  cases pc with
  | handling a =>
    cases reply with
    | handler r =>
      obtain ⟨rfl, rfl, rfl⟩ := by simpa using h
      cases r with
      | threw => simp [KafkaEventConsumer.settlement] at hs
      | returned handled =>
        cases handled with
        | false => simp [KafkaEventConsumer.settlement] at hs
        | true => exact ⟨.succeeded, rfl⟩
    | _ => cases h
  | sending =>
    cases reply with
    | sink r =>
      obtain ⟨rfl, rfl, rfl⟩ := by simpa using h
      cases r with
      | threw => simp [KafkaEventConsumer.settlement] at hs
      | returned sent =>
        cases sent with
        | error e => simp [KafkaEventConsumer.settlement] at hs
        | ok u => exact ⟨.deadLettered, rfl⟩
    | _ => cases h
  | finishing o =>
    cases reply with
    | none =>
      obtain ⟨rfl, -, -⟩ := by simpa using h
      simp [KafkaEventConsumer.settlement] at hs
    | _ => cases h
  | returned o => cases reply <;> cases h
  | escaped => cases reply <;> cases h
  | _ =>
    cases reply with
    | none =>
      simp only [step_stopCheck, step_currentCheck, step_sleeping, step_deadLetterStopCheck,
        step_deadLetterCurrentCheck, step_sendSleeping] at h
      split_ifs at h
      all_goals
        obtain ⟨rfl, -, -⟩ := by simpa using h
        simp [KafkaEventConsumer.settlement] at hs
    | _ => cases h

theorem RecordExecutor.finishing_registry {policy : RetryPolicy} {item : WorkItem} {stop : Bool}
    {reg reg' : PartitionRegistry} {o : RecordOutcome} {pc' : ExecutorPc} {reply : Reply} {events : List ExecutorEvent}
    (h : RecordExecutor.step policy item stop reg (.finishing o) reply = some (events, reg', pc')) :
    reg' = (reg.complete item.ticket).2 := by
  cases reply with
  | none =>
    obtain ⟨-, rfl, -⟩ := by simpa using h
    rfl
  | _ => cases h

namespace ConsumerPipeline

def finishingTicket (worker : Worker WorkItem ExecutorPc) : Option RecordTicket :=
  match worker.state with
  | .running item (.finishing _) => some item.ticket
  | _ => none

def finishing (s : ConsumerPipeline) : List RecordTicket := s.pool.workers.filterMap finishingTicket

/-- Tickets are kept of what was registered and of what was settled: what is settled is completed, or a
worker is about to complete it, and what is completed was settled. -/
structure Ledger (registered settled : List RecordTicket) (s : ConsumerPipeline) : Prop where
  valid : s.registry.Valid
  booked : s.registry.Booked registered settled
  held : ∀ t ∈ s.held, t ∈ registered
  finished : ∀ t ∈ settled, t ∈ s.finishing ∨ s.registry.Settled t
  ready : ∀ t ∈ s.finishing, t ∈ settled

section Steps

variable {registered settled : List RecordTicket} {s s' : ConsumerPipeline} {config : PipelineConfiguration}

theorem Ledger.create (config : PipelineConfiguration) : Ledger [] [] (create config) := by
  refine ⟨PartitionRegistry.Valid.empty, ⟨by simp, ?_⟩, ?_, by simp, ?_⟩
  · intro p st hf
    cases (PartitionRegistry.find_empty p).symm.trans hf
  · simp [ConsumerPipeline.create, mem_held, inHand, unsubmitted, WorkerPool.create, executing]
  · simp [ConsumerPipeline.create, finishing, WorkerPool.create, finishingTicket]

theorem Ledger.move (h : Ledger registered settled s) (hreg : s'.registry = s.registry)
    (hheld : ∀ t ∈ s'.held, t ∈ s.held) (hfin : s'.finishing = s.finishing) : Ledger registered settled s' := by
  obtain ⟨hvalid, hbooked, hin, hfinished, hready⟩ := h
  refine ⟨?_, ?_, ?_, ?_, ?_⟩
  · rw [hreg]
    exact hvalid
  · rw [hreg]
    exact hbooked
  · intro t ht
    exact hin t (hheld t ht)
  · rw [hreg, hfin]
    exact hfinished
  · rw [hfin]
    exact hready

theorem Ledger.call (h : Ledger registered settled s) (c : RegistryCall) (hreg : s'.registry = (s.registry.call c).2)
    (hbooked : (s.registry.call c).2.Booked registered settled) (hheld : ∀ t ∈ s'.held, t ∈ s.held)
    (hfin : s'.finishing = s.finishing) : Ledger registered settled s' := by
  refine ⟨?_, ?_, ?_, ?_, ?_⟩
  · rw [hreg]
    exact h.valid.call c
  · rw [hreg]
    exact hbooked
  · intro t ht
    exact h.held t (hheld t ht)
  · intro t ht
    rw [hreg, hfin]
    exact (h.finished t ht).imp_right (fun hs => hs.call h.valid c)
  · rw [hfin]
    exact h.ready

theorem finishing_set {workers : List (Worker WorkItem ExecutorPc)} {i : ℕ} {w w' : Worker WorkItem ExecutorPc}
    (hw : workers[i]? = some w) {t : RecordTicket} :
    (t ∈ (workers.set i w').filterMap finishingTicket →
      t ∈ workers.filterMap finishingTicket ∨ finishingTicket w' = some t) ∧
    (t ∈ workers.filterMap finishingTicket →
      t ∈ (workers.set i w').filterMap finishingTicket ∨ finishingTicket w = some t) := by
  obtain ⟨a, b, hl, hset⟩ := filterMap_set finishingTicket hw w'
  rw [hl, hset]
  simp only [List.mem_append, Option.mem_toList]
  tauto

theorem finishing_kept {workers : List (Worker WorkItem ExecutorPc)} {i : ℕ} {w w' : Worker WorkItem ExecutorPc}
    (hw : workers[i]? = some w) (hsame : finishingTicket w' = finishingTicket w) :
    (workers.set i w').filterMap finishingTicket = workers.filterMap finishingTicket := by
  obtain ⟨a, b, hl, hset⟩ := filterMap_set finishingTicket hw w'
  rw [hset, hl, hsame]

theorem finishingTicket_running {item : WorkItem} {pc : ExecutorPc} {stop : Bool} {t : RecordTicket}
    (h : finishingTicket ⟨.running item pc, stop⟩ = some t) : t = item.ticket ∧ ∃ o, pc = .finishing o := by
  cases pc with
  | finishing o => exact ⟨(Option.some.inj h).symm, o, rfl⟩
  | _ => cases h

theorem finishingTicket_of_ended {item : WorkItem} {pc : ExecutorPc} {stop : Bool} (h : pc.ended = true) :
    finishingTicket ⟨.running item pc, stop⟩ = none := by
  cases pc with
  | finishing o => cases h
  | _ => rfl

theorem finishingTicket_start {item : WorkItem} {stop : Bool} (policy : RetryPolicy) :
    finishingTicket ⟨.running item (RecordExecutor.start policy), stop⟩ = none := by
  unfold RecordExecutor.start RecordExecutor.loopTest
  split_ifs <;> rfl

theorem readerStep_finishing (h : s.readerStep = some s') : s'.finishing = s.finishing := by
  unfold finishing
  rcases readerStep_pool h with ⟨hworkers, -⟩ | ⟨-, i, hpool⟩
  · rw [hworkers]
  · rw [hpool]
    cases hw : s.pool.workers[i]? with
    | none => rw [WorkerPool.requestStop_of_none hw]
    | some w =>
      rw [WorkerPool.requestStop_of_some hw]
      exact finishing_kept hw rfl

theorem Ledger.register (h : Ledger registered settled s) (hidle : s.reader = .idle) (record : IncomingRecord) :
    Ledger (registered ++ s.registry.newTickets record.partition record.offset) settled (s.register record) := by
  have hreg : (s.register record).registry = (s.registry.registerRecord record.partition record.offset).2 :=
    register_registry s record
  have hfin : (s.register record).finishing = s.finishing := by
    unfold finishing
    rw [register_pool]
  refine ⟨?_, ?_, ?_, ?_, ?_⟩
  · rw [hreg]
    exact h.valid.call (.registerRecord record.partition record.offset)
  · rw [hreg]
    exact h.booked.registerRecord h.valid record.partition record.offset
  · intro t ht
    unfold ConsumerPipeline.register at ht
    rcases hcall : s.registry.registerRecord record.partition record.offset with ⟨r, reg⟩
    rw [hcall] at ht
    simp only [PartitionRegistry.newTickets, hcall]
    cases r with
    | error e => exact List.mem_append_left _ (h.held t ht)
    | ok u =>
      simp only [mem_held, inHand, List.mem_singleton] at ht
      rcases ht with rfl | ht
      · exact List.mem_append_right _ (by simp [Except.toOption])
      · refine List.mem_append_left _ (h.held t (mem_held.mpr (.inr ?_)))
        simpa [unsubmitted, hidle] using ht
  · intro t ht
    rw [hreg, hfin]
    refine (h.finished t ht).imp_right (fun hs => ?_)
    exact hs.call h.valid (.registerRecord record.partition record.offset)
  · rw [hfin]
    exact h.ready

theorem Ledger.admitRecord (h : Ledger registered settled s) {ticket : RecordTicket} {record : IncomingRecord}
    (hr : s.reader = .ingesting ticket record) {e : ErrorCode}
    (he : (Models.StrongID.create (record.eventId.getD "") : Except ErrorCode Models.OutboxEventId) = .error e) :
    Ledger registered (settled ++ [ticket]) (s.admitRecord ticket record) := by
  have hkeeps : KeepsTickets s (s.admitRecord ticket record) := admitRecord_keepsTickets hr
  have hticket : ticket ∈ registered := h.held ticket (mem_held.mpr (.inl (by simp [inHand, hr])))
  have hsub : settled ⊆ settled ++ [ticket] := List.subset_append_left _ _
  have hdone := (PartitionRegistry.complete_issued h.valid (h.booked.issued hticket)).2
  have hnext : s.admitRecord ticket record =
      { s with registry := (s.registry.complete ticket).2, reader := .idle } := by
    unfold ConsumerPipeline.admitRecord
    rw [he]
  refine ⟨?_, ?_, ?_, ?_, ?_⟩
  · rw [hnext]
    exact h.valid.call (.complete ticket)
  · rw [hnext]
    exact (h.booked.mono hsub).complete h.valid (by simp)
  · intro t ht
    exact h.held t (hkeeps.held ht)
  · intro t ht
    rw [hnext]
    rcases List.mem_append.mp ht with hold | hnew
    · exact (h.finished t hold).imp_right (fun hs => hs.call h.valid (.complete ticket))
    · rw [List.mem_singleton.mp hnew]
      exact .inr hdone
  · intro t ht
    rw [hnext] at ht
    exact hsub (h.ready t ht)

end Steps

section Consumers

variable {registered settled : List RecordTicket} {c : KafkaEventConsumer} {s' : ConsumerPipeline}

theorem settledTickets_reader {ticket : RecordTicket} {record : IncomingRecord}
    (hr : c.pipeline.reader = .ingesting ticket record) :
    c.settledTickets .reader =
      match (Models.StrongID.create (record.eventId.getD "") : Except ErrorCode Models.OutboxEventId) with
      | .ok _ => []
      | .error _ => [ticket] := by
  simp only [KafkaEventConsumer.settledTickets, KafkaEventConsumer.settlements, hr]
  cases (Models.StrongID.create (record.eventId.getD "") : Except ErrorCode Models.OutboxEventId) <;> rfl

theorem Ledger.reader (h : Ledger registered settled c.pipeline) (hstep : c.pipeline.readerStep = some s') :
    Ledger registered (settled ++ c.settledTickets .reader) s' := by
  have hkeeps := readerStep_keepsTickets hstep
  have hfin := readerStep_finishing hstep
  by_cases hin : ∃ ticket record, c.pipeline.reader = .ingesting ticket record
  · obtain ⟨ticket, record, hr⟩ := hin
    obtain rfl : c.pipeline.admitRecord ticket record = s' := by simpa [readerStep, hr] using hstep
    rw [settledTickets_reader hr]
    cases hid : (Models.StrongID.create (record.eventId.getD "") : Except ErrorCode Models.OutboxEventId) with
    | ok eventId =>
      rw [List.append_nil]
      refine h.move ?_ (fun t ht => hkeeps.held ht) hfin
      unfold ConsumerPipeline.admitRecord
      rw [hid]
    | error e => exact h.admitRecord hr hid
  · have hnone : c.settledTickets .reader = [] := by
      unfold KafkaEventConsumer.settledTickets
      cases hr : c.pipeline.reader with
      | ingesting ticket record => exact absurd ⟨ticket, record, hr⟩ hin
      | _ => rfl
    have hreg : s'.registry = c.pipeline.registry := by
      unfold ConsumerPipeline.readerStep at hstep
      cases hr : c.pipeline.reader with
      | idle => simp [hr] at hstep
      | ingesting ticket record => exact absurd ⟨ticket, record, hr⟩ hin
      | pumping =>
        obtain rfl : c.pipeline.submitFront = s' := by simpa [hr] using hstep
        rcases c.pipeline.submitFront_cases with he | ⟨item, rest, -, he⟩ <;> rw [he]
      | stopping next =>
        simp only [hr] at hstep
        split_ifs at hstep
        all_goals
          obtain rfl := Option.some.inj hstep
          rfl
      | _ =>
        simp only [hr] at hstep
        obtain rfl := Option.some.inj hstep
        rfl
    rw [hnone, List.append_nil]
    exact h.move hreg (fun t ht => hkeeps.held ht) hfin

theorem Ledger.execute (h : Ledger registered settled c.pipeline) {i : ℕ} {reply : Reply}
    (hstep : executeStep c.configuration c.pipeline i reply = some s') :
    Ledger registered (settled ++ c.settledTickets (.execute i reply)) s' := by
  have hkeeps := executeStep_keepsTickets hstep
  unfold executeStep at hstep
  split at hstep
  · next item pc stop hw =>
    obtain ⟨⟨events, reg, pc'⟩, hexec, rfl⟩ := Option.map_eq_some_iff.mp hstep
    have hset : c.settledTickets (.execute i reply) =
        (events.filterMap (KafkaEventConsumer.settlement item)).map (fun _ => item.ticket) := by
      simp [KafkaEventConsumer.settledTickets, KafkaEventConsumer.settlements, hw, hexec]
    have hticket : ∀ t ∈ c.settledTickets (.execute i reply), t = item.ticket ∧ ∃ o, pc' = .finishing o := by
      intro t ht
      rw [hset] at ht
      obtain ⟨x, hx, rfl⟩ := List.mem_map.mp ht
      exact ⟨rfl, RecordExecutor.step_settled hexec (List.ne_nil_of_mem hx)⟩
    have hready : ∀ o, pc' = .finishing o → item.ticket ∈ c.settledTickets (.execute i reply) := by
      rintro o rfl
      rw [hset]
      rcases RecordExecutor.step_finishing hexec with rfl | rfl
      · simp [KafkaEventConsumer.settlement]
      · simp [KafkaEventConsumer.settlement]
    have hsub : settled ⊆ settled ++ c.settledTickets (.execute i reply) := List.subset_append_left _ _
    have hnow : ∀ o, pc = .finishing o → item.ticket ∈ settled := by
      rintro o rfl
      exact h.ready _ (List.mem_filterMap.mpr ⟨_, List.mem_of_getElem? hw, rfl⟩)
    have hheld : item.ticket ∈ registered := by
      refine h.held _ (mem_held.mpr (.inr (.inr (.inr (List.mem_map_of_mem ?_)))))
      refine List.mem_filterMap.mpr ⟨_, List.mem_of_getElem? hw, ?_⟩
      simp [executing, RecordExecutor.step_running hexec]
    have hregistry : reg.Valid ∧ reg.Booked registered (settled ++ c.settledTickets (.execute i reply)) ∧
        (∀ t, c.pipeline.registry.Settled t → reg.Settled t) ∧
        ∀ o, pc = .finishing o → reg.Settled item.ticket := by
      by_cases hpc : ∃ o, pc = .finishing o
      · obtain ⟨o, rfl⟩ := hpc
        obtain rfl := RecordExecutor.finishing_registry hexec
        refine ⟨h.valid.call (.complete item.ticket), ?_, ?_, ?_⟩
        · exact (h.booked.mono hsub).complete h.valid (hsub (hnow o rfl))
        · intro t ht
          exact ht.call h.valid (.complete item.ticket)
        · intro _ _
          exact (PartitionRegistry.complete_issued h.valid (h.booked.issued hheld)).2
      · rcases RecordExecutor.step_registry hexec with ⟨rfl, -⟩ | ⟨-, -, hfinishing⟩
        · exact ⟨h.valid, h.booked.mono hsub, fun _ => id, fun o ho => absurd ⟨o, ho⟩ hpc⟩
        · exact absurd hfinishing hpc
    obtain ⟨hvalid, hbooked, hkept, hcompleted⟩ := hregistry
    have hworkers : (c.pipeline.pool.advance i pc').workers =
        c.pipeline.pool.workers.set i ⟨.running item pc', stop⟩ := by
      rw [WorkerPool.advance_of_running hw]
    refine ⟨hvalid, hbooked, fun t ht => h.held t (hkeeps.held ht), ?_, ?_⟩
    · intro t ht
      unfold finishing
      rw [hworkers]
      rcases List.mem_append.mp ht with hold | hnew
      · rcases h.finished t hold with hfin | hs
        · rcases (finishing_set hw).2 hfin with hstays | hown
          · exact .inl hstays
          · obtain ⟨rfl, o, hpc⟩ := finishingTicket_running hown
            exact .inr (hcompleted o hpc)
        · exact .inr (hkept t hs)
      · obtain ⟨rfl, o, rfl⟩ := hticket t hnew
        left
        refine List.mem_filterMap.mpr ⟨⟨.running item (.finishing o), stop⟩, ?_, rfl⟩
        exact List.mem_set (List.getElem?_eq_some_iff.mp hw).1 _
    · intro t ht
      unfold finishing at ht
      rw [hworkers] at ht
      rcases (finishing_set hw).1 ht with hold | hown
      · exact hsub (h.ready t hold)
      · obtain ⟨rfl, o, hpc⟩ := finishingTicket_running hown
        exact List.mem_append_right _ (hready o hpc)
  · cases hstep

theorem Ledger.step (h : Ledger registered settled c.pipeline) {a : PipelineAction}
    (hstep : c.pipeline.step c.configuration a = some s')
    (hoffered : ∀ x, a = .confirmCommit x → ⟨x.partition, x.offset - 1, x.generation⟩ ∈ registered) :
    Ledger (registered ++ c.registeredTickets a) (settled ++ c.settledTickets a) s' := by
  by_cases hingest : ∃ record, a = .ingest record
  · obtain ⟨record, rfl⟩ := hingest
    simp only [ConsumerPipeline.step] at hstep
    split_ifs at hstep with hidle
    obtain rfl := Option.some.inj hstep
    have hnone : c.settledTickets (.ingest record) = [] := rfl
    rw [hnone, List.append_nil]
    exact h.register hidle record
  · have hkeeps := step_keepsTickets (fun record he => hingest ⟨record, he⟩) hstep
    have hheld : ∀ t ∈ s'.held, t ∈ c.pipeline.held := fun t ht => hkeeps.held ht
    have hnone : c.registeredTickets a = [] := by
      cases a with
      | ingest record => exact absurd ⟨record, rfl⟩ hingest
      | _ => rfl
    rw [hnone, List.append_nil]
    cases a with
    | onPartitionsAssigned ps =>
      simp only [ConsumerPipeline.step] at hstep
      split_ifs at hstep
      obtain rfl := Option.some.inj hstep
      rw [show c.settledTickets (.onPartitionsAssigned ps) = [] from rfl, List.append_nil]
      exact h.call (.assign ps) rfl (h.booked.assign ps) hheld rfl
    | onPartitionsRevoked ps =>
      simp only [ConsumerPipeline.step] at hstep
      split_ifs at hstep
      obtain rfl := Option.some.inj hstep
      rw [show c.settledTickets (.onPartitionsRevoked ps) = [] from rfl, List.append_nil]
      exact h.call (.revoke ps) rfl (h.booked.revoke ps) hheld rfl
    | ingest record => exact absurd ⟨record, rfl⟩ hingest
    | pump =>
      simp only [ConsumerPipeline.step] at hstep
      split_ifs at hstep
      obtain rfl := Option.some.inj hstep
      rw [show c.settledTickets .pump = [] from rfl, List.append_nil]
      exact h.move rfl hheld rfl
    | commitCandidates =>
      simp only [ConsumerPipeline.step] at hstep
      split_ifs at hstep
      obtain rfl := Option.some.inj hstep
      rw [show c.settledTickets .commitCandidates = [] from rfl, List.append_nil]
      exact h.move rfl hheld rfl
    | confirmCommit x =>
      simp only [ConsumerPipeline.step] at hstep
      split_ifs at hstep
      obtain rfl := Option.some.inj hstep
      rw [show c.settledTickets (.confirmCommit x) = [] from rfl, List.append_nil]
      exact h.call (.confirmCommit x) rfl (h.booked.confirmCommit h.valid (hoffered x rfl)) hheld rfl
    | stop =>
      simp only [ConsumerPipeline.step] at hstep
      split_ifs at hstep
      obtain rfl := Option.some.inj hstep
      rw [show c.settledTickets .stop = [] from rfl, List.append_nil]
      exact h.move rfl hheld rfl
    | reader => exact h.reader hstep
    | take i =>
      obtain ⟨pool, hp, rfl⟩ := Option.map_eq_some_iff.mp hstep
      obtain ⟨task, rest, hw, -, rfl⟩ := WorkerPool.take_eq_some hp
      rw [show c.settledTickets (.take i) = [] from rfl, List.append_nil]
      exact h.move rfl hheld (finishing_kept hw (finishingTicket_start _))
    | execute i reply => exact h.execute hstep
    | finish i =>
      obtain ⟨pool, hp, rfl⟩ := Option.map_eq_some_iff.mp hstep
      obtain ⟨task, pc, stop, hw, hended, rfl⟩ := WorkerPool.finish_eq_some hp
      rw [show c.settledTickets (.finish i) = [] from rfl, List.append_nil]
      exact h.move rfl hheld (finishing_kept hw (finishingTicket_of_ended hended).symm)
    | exit i =>
      obtain ⟨pool, hp, rfl⟩ := Option.map_eq_some_iff.mp hstep
      obtain ⟨hw, rfl⟩ := WorkerPool.exit_eq_some hp
      rw [show c.settledTickets (.exit i) = [] from rfl, List.append_nil]
      exact h.move rfl hheld (finishing_kept hw rfl)

theorem Ledger.silent (h : Ledger registered settled c.pipeline) {a : PipelineAction}
    (hstep : c.pipeline.step c.configuration a = some s') (hregistered : c.registeredTickets a = [])
    (hsettled : c.settledTickets a = [])
    (hoffered : ∀ x, a = .confirmCommit x → ⟨x.partition, x.offset - 1, x.generation⟩ ∈ registered) :
    Ledger registered settled s' := by
  have hnext := h.step hstep hoffered
  rwa [hregistered, hsettled, List.append_nil, List.append_nil] at hnext

end Consumers

end ConsumerPipeline

end LiquidPetProject.Messaging
