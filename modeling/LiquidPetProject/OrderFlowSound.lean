import LiquidPetProject.OrderFlowSteps

namespace LiquidPetProject.Choreography

open Models Events Messaging Outbox OrderReservationHandler OrderPipeline Transitions ServiceConsumer
open OrderPipeline.PipelineState (Begun Processed BegunReserved Reserved Coherent)

variable {codec : Codec String}

theorem producerRecord_metadata (m : PublishRequest String) (partition offset : ℤ) :
    StrongID.create ((KafkaEventPublisher.producerRecord m partition offset).incoming.eventId.getD "") =
        (.ok m.metadata.eventId : Except ErrorCode OutboxEventId) ∧
      (KafkaEventPublisher.producerRecord m partition offset).incoming.eventType = m.metadata.eventType :=
  ⟨StrongID.create_of_value m.metadata.eventId, rfl⟩

structure Logged (messages : List (PublishRequest String)) (log : PartitionLog) : Prop where
  kept : ∀ m ∈ messages, ∃ p, ∃ r ∈ log p, ∃ partition offset, r = KafkaEventPublisher.producerRecord m partition offset
  genuine : ∀ p, ∀ r ∈ log p, ∃ m ∈ messages, ∃ partition offset, r = KafkaEventPublisher.producerRecord m partition offset

theorem Logged.store {messages : List (PublishRequest String)} {log : PartitionLog} (h : Logged messages log)
    (m : PublishRequest String) (partition offset : ℤ) :
    Logged (messages ++ [m]) (Function.update log ⟨m.topic, partition⟩
      (log ⟨m.topic, partition⟩ ++ [KafkaEventPublisher.producerRecord m partition offset])) := by
  constructor
  · intro m' hm'
    rcases List.mem_append.mp hm' with hold | hnew
    · obtain ⟨p, r, hr, hrecord⟩ := h.kept m' hold
      refine ⟨p, r, ?_, hrecord⟩
      by_cases hp : p = ⟨m.topic, partition⟩
      · subst hp
        rw [Function.update_self]
        exact List.mem_append_left _ hr
      · rw [Function.update_of_ne hp]
        exact hr
    · obtain rfl := List.mem_singleton.mp hnew
      refine ⟨⟨m'.topic, partition⟩, _, ?_, partition, offset, rfl⟩
      rw [Function.update_self]
      exact List.mem_append_right _ (List.mem_singleton_self _)
  · intro p r hr
    have old (hold : r ∈ log p) : ∃ m' ∈ messages ++ [m], ∃ partition offset,
        r = KafkaEventPublisher.producerRecord m' partition offset := by
      obtain ⟨m', hm', hrecord⟩ := h.genuine p r hold
      exact ⟨m', List.mem_append_left _ hm', hrecord⟩
    by_cases hp : p = ⟨m.topic, partition⟩
    · subst hp
      rw [Function.update_self] at hr
      rcases List.mem_append.mp hr with hold | hnew
      · exact old hold
      · exact ⟨m, List.mem_append_right _ (List.mem_singleton_self _), partition, offset, List.mem_singleton.mp hnew⟩
    · rw [Function.update_of_ne hp] at hr
      exact old hr

theorem Logged.message {messages : List (PublishRequest String)} {log : PartitionLog} (h : Logged messages log)
    {item : WorkItem} (hitem : item.FromLog log) :
    ∃ (k : ℕ) (m : PublishRequest String), messages[k]? = some m ∧ m.payload = item.payload ∧ m.metadata = item.metadata := by
  obtain ⟨r, hr, -, -, hvalue, hid, htype⟩ := hitem
  obtain ⟨m, hm, partition, offset, rfl⟩ := h.genuine _ r hr
  obtain ⟨k, hk⟩ := List.mem_iff_getElem?.mp hm
  obtain ⟨hid', htype'⟩ := producerRecord_metadata m partition offset
  refine ⟨k, m, hk, hvalue, ?_⟩
  have hsame : m.metadata.eventId = item.metadata.eventId := Except.ok.inj (hid'.symm.trans hid)
  have htypes : m.metadata.eventType = item.metadata.eventType := htype'.symm.trans htype
  show (⟨m.metadata.eventId, m.metadata.eventType⟩ : MessageMetadata) = item.metadata
  rw [hsame, htypes]

theorem reservationHandler_serves (codec : Codec String) :
    Serves Begun Processed (reservationHandler codec) (Coherent codec) := by
  constructor
  · intro s payload metadata
    exact ⟨_, List.getElem?_concat_length, rfl⟩
  · intro s payload metadata
    refine ⟨?_, fun _ _ hdone => hdone⟩
    rintro n p m ⟨call, hcall, hmetadata⟩
    exact ⟨call, (List.getElem?_append_left (List.getElem?_eq_some_iff.mp hcall).1).trans hcall, hmetadata⟩
  · rintro s n payload metadata hsound ⟨call, hcall, rfl⟩ hresult
    obtain ⟨found, hfound, hreturned⟩ := Option.bind_eq_some_iff.mp hresult
    obtain rfl := Option.some.inj (hcall.symm.trans hfound)
    apply hsound.effective.calls call (List.mem_of_getElem? hcall)
    cases hpc : call.pc with
    | returned handled =>
      rw [hpc] at hreturned
      rw [HandlerResult.returned.inj (Option.some.inj hreturned)]
    | _ =>
      rw [hpc] at hreturned
      cases hreturned

theorem beginReserved_payload (codec : Codec String) (payload : String) : (beginReserved codec payload).payload = payload :=
  OrderReservedHandler.payload_advance _ _ _

theorem reservedHandler_serves (codec : Codec String) :
    Serves BegunReserved (Reserved codec) (reservedHandler codec) (Coherent codec) := by
  constructor
  · intro s payload metadata
    exact ⟨_, List.getElem?_concat_length, beginReserved_payload codec payload⟩
  · intro s payload metadata
    refine ⟨?_, fun _ _ hdone => hdone⟩
    rintro n p m ⟨r, hr, hpayload⟩
    exact ⟨r, (List.getElem?_append_left (List.getElem?_eq_some_iff.mp hr).1).trans hr, hpayload⟩
  · rintro s n payload metadata hsound ⟨r, hr, rfl⟩ hresult
    obtain ⟨found, hfound, hended⟩ := Option.bind_eq_some_iff.mp hresult
    obtain rfl := Option.some.inj (hr.symm.trans hfound)
    obtain ⟨call, hcall, hhandled⟩ := Option.map_eq_some_iff.mp hended
    exact hsound.effective.records r (List.mem_of_getElem? hr) call (List.mem_of_mem_head? hcall) hhandled

theorem handle_created {s : PipelineState String} {k : ℕ} {m : PublishRequest String}
    (hm : s.orderOutbox.messages[k]? = some m) :
    run (PipelineState.step codec) s [.deliverCreated k] =
      some ((reservationHandler codec).handle s m.payload m.metadata).1 := by
  simp only [run_cons, PipelineState.step, hm, Option.map_some, Option.bind_some, run_nil]
  rfl

theorem handle_reserved {s : PipelineState String} {k : ℕ} {m : PublishRequest String}
    (hm : s.worker.outbox.messages[k]? = some m) :
    run (PipelineState.step codec) s [.deliverReserved k, .reserve (.call s.orderService.records.length)] =
      some ((reservedHandler codec).handle s m.payload m.metadata).1 := by
  have hdeliver : s.step codec (.deliverReserved k) = some (s.deliverReserved m) := by
    simp only [PipelineState.step, hm, Option.map_some]
  have hr : (s.deliverReserved m).orderService.records[s.orderService.records.length]? =
      some ⟨m.payload, .waiting, [], []⟩ := List.getElem?_concat_length
  have hcall : (s.deliverReserved m).step codec (.reserve (.call s.orderService.records.length)) =
      some ((reservedHandler codec).handle s m.payload m.metadata).1 := by
    simp only [PipelineState.step, PipelineState.reserveStep, OrderReservedHandler.Action.isHandler, if_true,
      OrderReservedHandler.State.step, hr, OrderReservedHandler.State.handlerStep, Option.map_some]
    unfold OrderReservedHandler.State.advance
    rw [OrderReservedHandler.statusChanges_self]
    simp only [PipelineState.deliverReserved, List.set_append_right _ _ (le_refl _), Nat.sub_self, List.set_cons_zero]
    rfl
  simp only [run_cons, hdeliver, Option.bind_some, hcall, run_nil]

structure FlowSound (codec : Codec String) (s : OrderFlow) : Prop where
  pipeline : s.pipeline.Coherent codec
  worker : Holds Begun Processed s.pipeline s.worker
  orders : Holds BegunReserved (Reserved codec) s.pipeline s.orders
  created : Logged s.pipeline.orderOutbox.messages s.worker.group.log
  reserved : Logged s.pipeline.worker.outbox.messages s.orders.group.log

theorem flowSound_start (orderPublishers workerPublishers : List Int32) :
    FlowSound codec (.start orderPublishers workerPublishers) := by
  refine ⟨PipelineState.coherent_start _ _, Holds.empty _, Holds.empty _, ⟨?_, ?_⟩, ⟨?_, ?_⟩⟩
  · exact fun m hm => (nomatch hm)
  · exact fun p r hr => (nomatch hr)
  · exact fun m hm => (nomatch hm)
  · exact fun p r hr => (nomatch hr)

section Steps

variable {s t : OrderFlow}

theorem isLocal_stored {a : OrderPipeline.PipelineAction String} (h : isLocal a = true) (f : ℕ) :
    a ≠ .orderBroker f .stored ∧ a ≠ .workerBroker f .stored := by
  constructor
  · rintro rfl
    cases h
  · rintro rfl
    cases h

theorem store_some {futures : List (PublishFuture String)} {group group' : ConsumerGroup} {f : ℕ} {partition offset : ℤ}
    (h : store futures group f partition offset = some group') :
    ∃ future, futures[f]? = some future ∧
      group.step (.produce (KafkaEventPublisher.producerRecord future.request partition offset)) = some group' :=
  Option.bind_eq_some_iff.mp h

theorem step_refines (hs : FlowSound codec s) {a : FlowAction} (h : s.step codec a = some t) :
    ∃ actions, run (PipelineState.step codec) s.pipeline actions = some t.pipeline := by
  have one {b : OrderPipeline.PipelineAction String} {p : PipelineState String} (hb : s.pipeline.step codec b = some p) :
      run (PipelineState.step codec) s.pipeline [b] = some p := by
    simp only [run_cons, hb, Option.bind_some, run_nil]
  cases a with
  | pipeline b =>
    simp only [OrderFlow.step] at h
    split_ifs at h
    obtain ⟨p, hp, rfl⟩ := Option.map_eq_some_iff.mp h
    exact ⟨[b], one hp⟩
  | createdStored f partition offset =>
    obtain ⟨group, -, h⟩ := Option.bind_eq_some_iff.mp h
    obtain ⟨p, hp, rfl⟩ := Option.map_eq_some_iff.mp h
    exact ⟨[.orderBroker f .stored], one hp⟩
  | reservedStored f partition offset =>
    obtain ⟨group, -, h⟩ := Option.bind_eq_some_iff.mp h
    obtain ⟨p, hp, rfl⟩ := Option.map_eq_some_iff.mp h
    exact ⟨[.workerBroker f .stored], one hp⟩
  | worker b =>
    obtain ⟨⟨p, c⟩, hstep, rfl⟩ := Option.map_eq_some_iff.mp h
    obtain ⟨-, rfl | ⟨i, w, item, hcallee, rfl⟩⟩ := step_service hstep
    · exact ⟨[], rfl⟩
    · obtain ⟨k, m, hm, hpayload, hmetadata⟩ := hs.created.message (hs.worker.group.callee_fromLog hcallee)
      rw [← hpayload, ← hmetadata]
      exact ⟨_, handle_created hm⟩
  | orders b =>
    obtain ⟨⟨p, c⟩, hstep, rfl⟩ := Option.map_eq_some_iff.mp h
    obtain ⟨-, rfl | ⟨i, w, item, hcallee, rfl⟩⟩ := step_service hstep
    · exact ⟨[], rfl⟩
    · obtain ⟨k, m, hm, hpayload, hmetadata⟩ := hs.reserved.message (hs.orders.group.callee_fromLog hcallee)
      rw [← hpayload, ← hmetadata]
      exact ⟨_, handle_reserved hm⟩

theorem FlowSound.stepLocal (hs : FlowSound codec s) (hcodec : codec.Faithful) {a : OrderPipeline.PipelineAction String}
    (ha : isLocal a = true) {p : PipelineState String} (h : s.pipeline.step codec a = some p) :
    FlowSound codec { s with pipeline := p } := by
  have heffect := PipelineState.step_effect hs.pipeline.consistent h
  obtain ⟨hcreated, hreserved⟩ := heffect.messages (fun f => (isLocal_stored ha f).1) (fun f => (isLocal_stored ha f).2)
  refine ⟨hs.pipeline.step hcodec h, hs.worker.onward heffect.worker, hs.orders.onward heffect.orders, ?_, ?_⟩
  · rw [hcreated]
    exact hs.created
  · rw [hreserved]
    exact hs.reserved

theorem FlowSound.createdStored (hs : FlowSound codec s) (hcodec : codec.Faithful) {f : ℕ} {partition offset : ℤ}
    (h : s.step codec (.createdStored f partition offset) = some t) : FlowSound codec t := by
  obtain ⟨group, hgroup, h⟩ := Option.bind_eq_some_iff.mp h
  obtain ⟨p, hp, rfl⟩ := Option.map_eq_some_iff.mp h
  obtain ⟨future, hf, hproduce⟩ := store_some hgroup
  have heffect := PipelineState.step_effect hs.pipeline.consistent hp
  have hworker := (hs.worker.onward heffect.worker).produce hproduce
  have horders := hs.orders.onward heffect.orders (t := p)
  have hcoherent := hs.pipeline.step hcodec hp
  obtain ⟨outbox, houtbox, rfl⟩ := Option.map_eq_some_iff.mp hp
  obtain ⟨found, hfound, hmessages⟩ := OutboxState.broker_stored houtbox
  obtain rfl := Option.some.inj (hf.symm.trans hfound)
  refine ⟨hcoherent, hworker, horders, ?_, hs.reserved⟩
  obtain rfl := ConsumerGroup.produce_some hproduce
  rw [hmessages]
  exact hs.created.store future.request partition offset

theorem FlowSound.reservedStored (hs : FlowSound codec s) (hcodec : codec.Faithful) {f : ℕ} {partition offset : ℤ}
    (h : s.step codec (.reservedStored f partition offset) = some t) : FlowSound codec t := by
  obtain ⟨group, hgroup, h⟩ := Option.bind_eq_some_iff.mp h
  obtain ⟨p, hp, rfl⟩ := Option.map_eq_some_iff.mp h
  obtain ⟨future, hf, hproduce⟩ := store_some hgroup
  have heffect := PipelineState.step_effect hs.pipeline.consistent hp
  have hworker := hs.worker.onward heffect.worker (t := p)
  have horders := (hs.orders.onward heffect.orders).produce hproduce
  have hcoherent := hs.pipeline.step hcodec hp
  obtain ⟨outbox, houtbox, rfl⟩ := Option.map_eq_some_iff.mp hp
  obtain ⟨found, hfound, hmessages⟩ := OutboxState.broker_stored houtbox
  obtain rfl := Option.some.inj (hf.symm.trans hfound)
  refine ⟨hcoherent, hworker, horders, hs.created, ?_⟩
  obtain rfl := ConsumerGroup.produce_some hproduce
  rw [hmessages]
  exact hs.reserved.store future.request partition offset

theorem FlowSound.worker_step (hs : FlowSound codec s) (hcodec : codec.Faithful) {a : ConsumerAction}
    (h : s.step codec (.worker a) = some t) : FlowSound codec t := by
  obtain ⟨actions, hrun⟩ := step_refines hs h
  have hcoherent := hs.pipeline.run hcodec hrun
  obtain ⟨⟨p, c⟩, hstep, rfl⟩ := Option.map_eq_some_iff.mp h
  have hworker := hs.worker.step (reservationHandler_serves codec) hs.pipeline hstep
  obtain ⟨hlog, rfl | ⟨i, w, item, -, rfl⟩⟩ := step_service hstep
  · refine ⟨hcoherent, hworker, hs.orders, ?_, hs.reserved⟩
    rw [hlog]
    exact hs.created
  · refine ⟨hcoherent, hworker, hs.orders.onward ⟨fun _ _ _ hn => hn, fun _ _ hd => hd⟩, ?_, hs.reserved⟩
    rw [hlog]
    exact hs.created

theorem FlowSound.orders_step (hs : FlowSound codec s) (hcodec : codec.Faithful) {a : ConsumerAction}
    (h : s.step codec (.orders a) = some t) : FlowSound codec t := by
  obtain ⟨actions, hrun⟩ := step_refines hs h
  have hcoherent := hs.pipeline.run hcodec hrun
  obtain ⟨⟨p, c⟩, hstep, rfl⟩ := Option.map_eq_some_iff.mp h
  have horders := hs.orders.step (reservedHandler_serves codec) hs.pipeline hstep
  obtain ⟨hlog, rfl | ⟨i, w, item, -, rfl⟩⟩ := step_service hstep
  · refine ⟨hcoherent, hs.worker, horders, hs.created, ?_⟩
    rw [hlog]
    exact hs.reserved
  · refine ⟨hcoherent, hs.worker.onward ⟨fun _ _ _ hn => hn, fun _ _ hd => hd⟩, horders, hs.created, ?_⟩
    rw [hlog]
    exact hs.reserved

theorem FlowSound.step (hcodec : codec.Faithful) (hs : FlowSound codec s) {a : FlowAction} (h : s.step codec a = some t) :
    FlowSound codec t := by
  cases a with
  | pipeline b =>
    simp only [OrderFlow.step] at h
    split_ifs at h with ha
    obtain ⟨p, hp, rfl⟩ := Option.map_eq_some_iff.mp h
    exact hs.stepLocal hcodec ha hp
  | createdStored f partition offset => exact hs.createdStored hcodec h
  | reservedStored f partition offset => exact hs.reservedStored hcodec h
  | worker b => exact hs.worker_step hcodec h
  | orders b => exact hs.orders_step hcodec h

theorem FlowSound.run (hcodec : codec.Faithful) (hs : FlowSound codec s) {actions : List FlowAction}
    (h : Transitions.run (OrderFlow.step codec) s actions = some t) : FlowSound codec t :=
  run_invariant (fun _ _ _ hi hstep => FlowSound.step hcodec hi hstep) hs h

end Steps

end LiquidPetProject.Choreography
