import LiquidPetProject.OrderFlow
import LiquidPetProject.OrderPipelineEffects
import LiquidPetProject.ServiceConsumerSound

namespace LiquidPetProject.Outbox.OutboxState

open Models Messaging

variable {π : Type} {s t u : OutboxState π} {topic : String}

theorem Moves.messages {p : OutboxPublisher π} {pc : PublisherPc π} (h : Moves s p u pc) : u.messages = s.messages := by
  cases h <;> rfl

theorem publisher_messages {i : ℕ} {event : PublisherEvent} (h : s.step (.publisher i event) = some t) :
    t.messages = s.messages := by
  obtain ⟨p, -, hstep⟩ := step_publisher h
  obtain ⟨u, pc, rfl, hm⟩ := publisherStep_moves hstep
  exact hm.messages

theorem broker_stored {f : ℕ} (h : s.step (.broker f .stored) = some t) :
    ∃ future, s.futures[f]? = some future ∧ t.messages = s.messages ++ [future.request] := by
  obtain ⟨future, hf, hstep⟩ := step_broker h
  obtain rfl := Option.some.inj hstep
  exact ⟨future, hf, rfl⟩

theorem broker_messages {f : ℕ} {event : BrokerEvent} (h : s.step (.broker f event) = some t) (he : event ≠ .stored) :
    t.messages = s.messages := by
  obtain ⟨future, -, hstep⟩ := step_broker h
  cases event with
  | stored => exact absurd rfl he
  | acknowledged | rejected e =>
    simp only [brokerStep] at hstep
    split_ifs at hstep
    obtain rfl := Option.some.inj hstep
    rfl

structure PublishesTo (topic : String) (s : OutboxState π) : Prop where
  publishers : ∀ p ∈ s.publishers, p.topic = topic
  futures : ∀ future ∈ s.futures, future.request.topic = topic
  messages : ∀ m ∈ s.messages, m.topic = topic

theorem publishesTo_start (topic : String) (batchSizes : List Int32) :
    PublishesTo topic (start (batchSizes.map (fun batchSize => (topic, batchSize))) : OutboxState π) := by
  refine ⟨?_, fun future hf => (nomatch hf), fun m hm => (nomatch hm)⟩
  intro p hp
  obtain ⟨c, hc, rfl⟩ := List.mem_map.mp hp
  obtain ⟨batchSize, -, rfl⟩ := List.mem_map.mp hc
  rfl

theorem PublishesTo.publisher (h : PublishesTo topic s) {i : ℕ} {event : PublisherEvent}
    (hstep : s.step (.publisher i event) = some t) : PublishesTo topic t := by
  obtain ⟨p, hp, hmove⟩ := step_publisher hstep
  obtain ⟨u, pc, rfl, hm⟩ := publisherStep_moves hmove
  have htopic := h.publishers p (List.mem_of_getElem? hp)
  have hu : PublishesTo topic u := by
    cases hm with
    | publish hpc =>
      refine ⟨h.publishers, ?_, h.messages⟩
      intro future hf
      rcases List.mem_append.mp hf with hold | hnew
      · exact h.futures future hold
      · obtain rfl := List.mem_singleton.mp hnew
        exact htopic
    | _ => exact ⟨h.publishers, h.futures, h.messages⟩
  refine ⟨?_, hu.futures, hu.messages⟩
  intro q hq
  obtain ⟨k, hk⟩ := List.mem_iff_getElem?.mp hq
  unfold setPc at hk
  rw [List.getElem?_modify] at hk
  obtain ⟨old, hold, rfl⟩ := Option.map_eq_some_iff.mp hk
  have holdTopic := hu.publishers old (List.mem_of_getElem? hold)
  split_ifs
  · exact holdTopic
  · exact holdTopic

theorem PublishesTo.broker (h : PublishesTo topic s) {f : ℕ} {event : BrokerEvent}
    (hstep : s.step (.broker f event) = some t) : PublishesTo topic t := by
  obtain ⟨future, hf, hbroker⟩ := step_broker hstep
  have htopic := h.futures future (List.mem_of_getElem? hf)
  have placed {future' : PublishFuture π} (hrequest : future'.request = future.request) :
      ∀ other ∈ s.futures.set f future', other.request.topic = topic := by
    intro other hother
    rcases List.mem_or_eq_of_mem_set hother with hold | rfl
    · exact h.futures other hold
    · rw [hrequest]
      exact htopic
  cases event with
  | stored =>
    obtain rfl := Option.some.inj hbroker
    refine ⟨h.publishers, placed rfl, ?_⟩
    intro m hm
    rcases List.mem_append.mp hm with hold | hnew
    · exact h.messages m hold
    · obtain rfl := List.mem_singleton.mp hnew
      exact htopic
  | acknowledged | rejected e =>
    simp only [brokerStep] at hbroker
    split_ifs at hbroker
    obtain rfl := Option.some.inj hbroker
    exact ⟨h.publishers, placed rfl, h.messages⟩

end LiquidPetProject.Outbox.OutboxState

namespace LiquidPetProject.OrderPipeline.PipelineState

open Models Repository Events Messaging Outbox OrderReservationHandler Models2JsonMapper

variable {π : Type} {codec : Codec π} {s t : PipelineState π}

theorem createOrder_frame (codec : Codec π) (s : PipelineState π) (body : π) (orderId : OrderId) (eventId : OutboxEventId)
    (createdAt : ℤ) (outcome : CommitOutcome) :
    ∃ service rows, s.createOrder codec body orderId eventId createdAt outcome =
        { s with orderService := service, orderOutbox := { s.orderOutbox with rows := rows } } ∧
      service.records = s.orderService.records ∧ ∃ more, service.orders = s.orders ++ more := by
  obtain hsame | ⟨order, payload, -, -, -, -, hsaved⟩ :=
    createOrder_cases codec s body orderId eventId createdAt outcome
  · exact ⟨s.orderService, s.orderOutbox.rows, hsame, rfl, [], (List.append_nil _).symm⟩
  · exact ⟨_, _, hsaved, rfl, _, rfl⟩

theorem recordStep_frame {i : ℕ} {call : ReservationCall} {rowId : OutboxEventId} {createdAt : ℤ} {outcome : CommitOutcome}
    (h : s.recordStep codec i call rowId createdAt outcome = some t) :
    ∃ pc processed rows, t = { s with
        worker := ⟨processed, { s.worker.outbox with rows := rows }⟩
        reservations := s.reservations.set i { call with pc := pc } } ∧ s.worker.processed ⊆ processed := by
  unfold recordStep at h
  cases hpc : call.pc with
  | recording event =>
    rw [hpc] at h
    obtain rfl := Option.some.inj h
    unfold setCall
    dsimp only
    obtain hsame | ⟨payload, -, -, -, hinsert⟩ := record_fst codec s.worker call event rowId createdAt outcome
    · rw [hsame]
      exact ⟨_, _, _, rfl, List.Subset.refl _⟩
    · rw [hinsert]
      exact ⟨_, _, _, rfl, List.subset_append_left _ _⟩
  | _ =>
    rw [hpc] at h
    cases h

theorem processStep_frame {i : ℕ} {call : ReservationCall} {answer : Except ErrorCode Unit}
    (h : s.processStep i call answer = some t) :
    ∃ pc, t = { s with reservations := s.reservations.set i { call with pc := pc } } := by
  unfold processStep at h
  cases hpc : call.pc with
  | processing event =>
    rw [hpc] at h
    obtain rfl := Option.some.inj h
    exact ⟨_, rfl⟩
  | _ =>
    rw [hpc] at h
    cases h

theorem reserveStep_frame {a : OrderReservedHandler.Action} (hs : s.Consistent codec) (h : s.reserveStep codec a = some t) :
    ∃ i r orders progress, s.orderService.records[i]? = some r ∧
      t = { s with orderService := s.orderService.advance i r orders progress } ∧
        OrderReservedHandler.OnlyReserves s.orders orders := by
  unfold reserveStep at h
  split_ifs at h with hhandler
  obtain ⟨service, hstep, rfl⟩ := Option.map_eq_some_iff.mp h
  obtain ⟨orderId, status, rfl, -⟩ | ⟨order, orderId, rfl, -, -⟩ | ⟨i, r, orders, progress, -, hr, rfl, hm⟩ :=
    OrderReservedHandler.State.step_cases hstep
  · cases hhandler
  · cases hhandler
  · have hrecord := hs.orderService.records r (List.mem_of_getElem? hr)
    exact ⟨i, r, orders, progress, hr, rfl, (hm.spec hrecord hs.orderService.keyed).1⟩

/-- What each step does to the state, as far as the consumers can see it. -/
inductive Effect (s : PipelineState π) : PipelineAction π → PipelineState π → Prop
  | createOrder {body orderId eventId createdAt outcome} (service : OrderReservedHandler.State π) (rows : List (OutboxRow π))
      (hrecords : service.records = s.orderService.records) (horders : s.orders <+: service.orders) :
      Effect s (.createOrder body orderId eventId createdAt outcome)
        { s with orderService := service, orderOutbox := { s.orderOutbox with rows := rows } }
  | orderPublisher {i event} (outbox : OutboxState π) (h : s.orderOutbox.step (.publisher i event) = some outbox) :
      Effect s (.orderPublisher i event) { s with orderOutbox := outbox }
  | orderBroker {f event} (outbox : OutboxState π) (h : s.orderOutbox.step (.broker f event) = some outbox) :
      Effect s (.orderBroker f event) { s with orderOutbox := outbox }
  | workerPublisher {i event} (outbox : OutboxState π) (h : s.worker.outbox.step (.publisher i event) = some outbox) :
      Effect s (.workerPublisher i event) { s with worker := { s.worker with outbox := outbox } }
  | workerBroker {f event} (outbox : OutboxState π) (h : s.worker.outbox.step (.broker f event) = some outbox) :
      Effect s (.workerBroker f event) { s with worker := { s.worker with outbox := outbox } }
  | deliverCreated {k} (call : ReservationCall) :
      Effect s (.deliverCreated k) { s with reservations := s.reservations ++ [call] }
  | process {i answer} (call : ReservationCall) (pc : ReservationPc) (hcall : s.reservations[i]? = some call) :
      Effect s (.process i answer) { s with reservations := s.reservations.set i { call with pc := pc } }
  | record {i rowId createdAt outcome} (call : ReservationCall) (pc : ReservationPc) (processed : List OutboxEventId)
      (rows : List (OutboxRow π)) (hcall : s.reservations[i]? = some call) (hprocessed : s.worker.processed ⊆ processed) :
      Effect s (.record i rowId createdAt outcome) { s with
        worker := ⟨processed, { s.worker.outbox with rows := rows }⟩
        reservations := s.reservations.set i { call with pc := pc } }
  | deliverReserved {k} (r : OrderReservedHandler.RecordCalls π) :
      Effect s (.deliverReserved k)
        { s with orderService := { s.orderService with records := s.orderService.records ++ [r] } }
  | reserve {a} (i : ℕ) (r : OrderReservedHandler.RecordCalls π) (orders : List Order)
      (progress : OrderReservedHandler.Progress) (hr : s.orderService.records[i]? = some r)
      (horders : OrderReservedHandler.OnlyReserves s.orders orders) :
      Effect s (.reserve a) { s with orderService := s.orderService.advance i r orders progress }

theorem step_effect {a : PipelineAction π} (hs : s.Consistent codec) (h : s.step codec a = some t) : s.Effect a t := by
  cases a with
  | createOrder body orderId eventId createdAt outcome =>
    obtain rfl := Option.some.inj h
    obtain ⟨service, rows, hframe, hrecords, more, horders⟩ :=
      createOrder_frame codec s body orderId eventId createdAt outcome
    rw [hframe]
    exact .createOrder service rows hrecords ⟨more, horders.symm⟩
  | orderPublisher i event =>
    obtain ⟨outbox, hstep, rfl⟩ := Option.map_eq_some_iff.mp h
    exact .orderPublisher outbox hstep
  | orderBroker f event =>
    obtain ⟨outbox, hstep, rfl⟩ := Option.map_eq_some_iff.mp h
    exact .orderBroker outbox hstep
  | workerPublisher i event =>
    obtain ⟨outbox, hstep, rfl⟩ := Option.map_eq_some_iff.mp h
    exact .workerPublisher outbox hstep
  | workerBroker f event =>
    obtain ⟨outbox, hstep, rfl⟩ := Option.map_eq_some_iff.mp h
    exact .workerBroker outbox hstep
  | deliverCreated k =>
    obtain ⟨m, -, rfl⟩ := Option.map_eq_some_iff.mp h
    exact .deliverCreated _
  | process i answer =>
    obtain ⟨call, hcall, hstep⟩ := Option.bind_eq_some_iff.mp h
    obtain ⟨pc, rfl⟩ := processStep_frame hstep
    exact .process call pc hcall
  | record i rowId createdAt outcome =>
    obtain ⟨call, hcall, hstep⟩ := Option.bind_eq_some_iff.mp h
    obtain ⟨pc, processed, rows, rfl, hprocessed⟩ := recordStep_frame hstep
    exact .record call pc processed rows hcall hprocessed
  | deliverReserved k =>
    obtain ⟨m, -, rfl⟩ := Option.map_eq_some_iff.mp h
    exact .deliverReserved _
  | reserve a =>
    obtain ⟨i, r, orders, progress, hr, rfl, horders⟩ := reserveStep_frame hs h
    exact .reserve i r orders progress hr horders

structure Published (s : PipelineState π) : Prop where
  created : s.orderOutbox.PublishesTo "orders.created"
  reserved : s.worker.outbox.PublishesTo "orders.reserved"

theorem published_start (orderPublishers workerPublishers : List Int32) :
    Published (start orderPublishers workerPublishers : PipelineState π) :=
  ⟨OutboxState.publishesTo_start _ _, OutboxState.publishesTo_start _ _⟩

theorem Published.effect {a : PipelineAction π} (hs : s.Published) (h : s.Effect a t) : t.Published := by
  cases h with
  | createOrder service rows => exact ⟨⟨hs.created.publishers, hs.created.futures, hs.created.messages⟩, hs.reserved⟩
  | orderPublisher outbox h => exact ⟨hs.created.publisher h, hs.reserved⟩
  | orderBroker outbox h => exact ⟨hs.created.broker h, hs.reserved⟩
  | workerPublisher outbox h => exact ⟨hs.created, hs.reserved.publisher h⟩
  | workerBroker outbox h => exact ⟨hs.created, hs.reserved.broker h⟩
  | record call pc processed rows =>
    exact ⟨hs.created, ⟨hs.reserved.publishers, hs.reserved.futures, hs.reserved.messages⟩⟩
  | _ => exact ⟨hs.created, hs.reserved⟩

def Begun (s : PipelineState π) (n : ℕ) (_ : π) (metadata : MessageMetadata) : Prop :=
  ∃ call, s.reservations[n]? = some call ∧ call.metadata = metadata

def Processed (s : PipelineState π) (_ : π) (metadata : MessageMetadata) : Prop :=
  s.worker.knows metadata.eventId

theorem Begun.set {n i : ℕ} {payload : π} {metadata : MessageMetadata} (h : s.Begun n payload metadata)
    {call : ReservationCall} (hcall : s.reservations[i]? = some call) (pc : ReservationPc) :
    ∃ found, (s.reservations.set i { call with pc := pc })[n]? = some found ∧ found.metadata = metadata := by
  obtain ⟨old, hold, hmetadata⟩ := h
  by_cases hi : i = n
  · subst hi
    obtain rfl := Option.some.inj (hcall.symm.trans hold)
    exact ⟨_, List.getElem?_set_self (List.getElem?_eq_some_iff.mp hcall).1, hmetadata⟩
  · exact ⟨old, by rw [List.getElem?_set_ne hi]; exact hold, hmetadata⟩

theorem Effect.worker {s t : PipelineState String} {a : PipelineAction String} (h : s.Effect a t) :
    ServiceConsumer.Onward Begun Processed s t := by
  cases h with
  | deliverCreated call =>
    refine ⟨?_, fun _ _ hdone => hdone⟩
    rintro n payload metadata ⟨old, hold, hmetadata⟩
    exact ⟨old, (List.getElem?_append_left (List.getElem?_eq_some_iff.mp hold).1).trans hold, hmetadata⟩
  | process call pc hcall => exact ⟨fun _ _ _ hn => hn.set hcall pc, fun _ _ hdone => hdone⟩
  | record call pc processed rows hcall hprocessed =>
    exact ⟨fun _ _ _ hn => hn.set hcall pc, fun _ _ hdone => List.map_subset _ hprocessed hdone⟩
  | _ => exact ⟨fun _ _ _ hn => hn, fun _ _ hdone => hdone⟩

def BegunReserved (s : PipelineState π) (n : ℕ) (payload : π) (_ : MessageMetadata) : Prop :=
  ∃ r, s.orderService.records[n]? = some r ∧ r.payload = payload

def Reserved (codec : Codec π) (s : PipelineState π) (payload : π) (_ : MessageMetadata) : Prop :=
  OrderReservedHandler.ReservedIn codec.parse s.orders payload

theorem Effect.orders {codec : Codec String} {s t : PipelineState String} {a : PipelineAction String} (h : s.Effect a t) :
    ServiceConsumer.Onward BegunReserved (Reserved codec) s t := by
  cases h with
  | createOrder service rows hrecords horders =>
    constructor
    · rintro n payload metadata ⟨r, hr, hpayload⟩
      exact ⟨r, by rw [hrecords]; exact hr, hpayload⟩
    · intro payload metadata hreserved
      obtain ⟨more, hmore⟩ := horders
      unfold Reserved PipelineState.orders
      dsimp only
      rw [← hmore]
      exact OrderReservedHandler.ReservedIn.append hreserved more
  | deliverReserved r =>
    refine ⟨?_, fun _ _ hdone => hdone⟩
    rintro n payload metadata ⟨old, hold, hpayload⟩
    exact ⟨old, (List.getElem?_append_left (List.getElem?_eq_some_iff.mp hold).1).trans hold, hpayload⟩
  | reserve i r orders progress hr horders =>
    refine ⟨?_, fun _ _ hreserved => OrderReservedHandler.ReservedIn.onlyReserves hreserved horders⟩
    rintro n payload metadata ⟨old, hold, hpayload⟩
    by_cases hi : i = n
    · subst hi
      obtain rfl := Option.some.inj (hr.symm.trans hold)
      refine ⟨_, List.getElem?_set_self (List.getElem?_eq_some_iff.mp hr).1, ?_⟩
      rw [OrderReservedHandler.payload_advance]
      exact hpayload
    · refine ⟨old, ?_, hpayload⟩
      unfold OrderReservedHandler.State.advance
      rw [List.getElem?_set_ne hi]
      exact hold
  | _ => exact ⟨fun _ _ _ hn => hn, fun _ _ hdone => hdone⟩

theorem Effect.messages {a : PipelineAction π} (h : s.Effect a t) (hcreated : ∀ f, a ≠ .orderBroker f .stored)
    (hreserved : ∀ f, a ≠ .workerBroker f .stored) :
    t.orderOutbox.messages = s.orderOutbox.messages ∧ t.worker.outbox.messages = s.worker.outbox.messages := by
  cases h with
  | orderPublisher outbox h => exact ⟨OutboxState.publisher_messages h, rfl⟩
  | workerPublisher outbox h => exact ⟨rfl, OutboxState.publisher_messages h⟩
  | @orderBroker f event outbox h =>
    refine ⟨OutboxState.broker_messages h ?_, rfl⟩
    rintro rfl
    exact hcreated f rfl
  | @workerBroker f event outbox h =>
    refine ⟨rfl, OutboxState.broker_messages h ?_⟩
    rintro rfl
    exact hreserved f rfl
  | _ => exact ⟨rfl, rfl⟩

structure Coherent (codec : Codec π) (s : PipelineState π) : Prop where
  consistent : s.Consistent codec
  effective : s.Effective codec
  published : s.Published

theorem coherent_start (orderPublishers workerPublishers : List Int32) :
    Coherent codec (start orderPublishers workerPublishers) :=
  ⟨consistent_start _ _, effective_start _ _, published_start _ _⟩

theorem Coherent.step (hcodec : codec.Faithful) {a : PipelineAction π} (hs : s.Coherent codec)
    (h : s.step codec a = some t) : t.Coherent codec :=
  ⟨step_consistent hcodec.keepsStrings hs.consistent h, step_effective hcodec hs.consistent hs.effective h,
    hs.published.effect (step_effect hs.consistent h)⟩

theorem Coherent.run (hcodec : codec.Faithful) {actions : List (PipelineAction π)} (hs : s.Coherent codec)
    (h : Transitions.run (PipelineState.step codec) s actions = some t) : t.Coherent codec :=
  Transitions.run_invariant (fun _ _ _ hi hstep => Coherent.step hcodec hi hstep) hs h

end LiquidPetProject.OrderPipeline.PipelineState
