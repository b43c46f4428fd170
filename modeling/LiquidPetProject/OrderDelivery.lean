import LiquidPetProject.OrderFlowSound
import LiquidPetProject.OrderServiceContract

namespace LiquidPetProject.Json

mutual

def same : Json → Json → Bool
  | .null, .null => true
  | .boolean a, .boolean b => a = b
  | .numberUnsigned a, .numberUnsigned b => a = b
  | .numberInteger a, .numberInteger b => a = b
  | .numberFloat a, .numberFloat b => a = b
  | .string a, .string b => a = b
  | .array xs, .array ys => sameAll xs ys
  | .object xs, .object ys => sameNamed xs ys
  | _, _ => false

def sameAll : List Json → List Json → Bool
  | [], [] => true
  | x :: xs, y :: ys => same x y && sameAll xs ys
  | _, _ => false

def sameNamed : List (String × Json) → List (String × Json) → Bool
  | [], [] => true
  | (k, x) :: xs, (l, y) :: ys => k = l && (same x y && sameNamed xs ys)
  | _, _ => false

end

mutual

theorem eq_of_same : (a b : Json) → same a b = true → a = b
  | .null, b, h => by cases b <;> first | rfl | cases h
  | .boolean x, b, h => by
    cases b with
    | boolean y => exact congrArg boolean (of_decide_eq_true h)
    | _ => cases h
  | .numberUnsigned x, b, h => by
    cases b with
    | numberUnsigned y => exact congrArg numberUnsigned (of_decide_eq_true h)
    | _ => cases h
  | .numberInteger x, b, h => by
    cases b with
    | numberInteger y => exact congrArg numberInteger (of_decide_eq_true h)
    | _ => cases h
  | .numberFloat x, b, h => by
    cases b with
    | numberFloat y => exact congrArg numberFloat (of_decide_eq_true h)
    | _ => cases h
  | .string x, b, h => by
    cases b with
    | string y => exact congrArg string (of_decide_eq_true h)
    | _ => cases h
  | .array xs, b, h => by
    cases b with
    | array ys => exact congrArg array (eq_of_sameAll xs ys h)
    | _ => cases h
  | .object xs, b, h => by
    cases b with
    | object ys => exact congrArg object (eq_of_sameNamed xs ys h)
    | _ => cases h

theorem eq_of_sameAll : (xs ys : List Json) → sameAll xs ys = true → xs = ys
  | [], [], _ => rfl
  | [], _ :: _, h => by cases h
  | _ :: _, [], h => by cases h
  | x :: xs, y :: ys, h => by
    rw [sameAll, Bool.and_eq_true] at h
    rw [eq_of_same x y h.1, eq_of_sameAll xs ys h.2]

theorem eq_of_sameNamed : (xs ys : List (String × Json)) → sameNamed xs ys = true → xs = ys
  | [], [], _ => rfl
  | [], _ :: _, h => by cases h
  | _ :: _, [], h => by cases h
  | (k, x) :: xs, (l, y) :: ys, h => by
    rw [sameNamed, Bool.and_eq_true, Bool.and_eq_true] at h
    rw [of_decide_eq_true h.1, eq_of_same x y h.2.1, eq_of_sameNamed xs ys h.2.2]

end

end LiquidPetProject.Json

namespace LiquidPetProject.Messaging.ServiceConsumer

open Models Outbox ConsumerGroup Choreography

variable {σ : Type} {started : σ → ℕ → String → MessageMetadata → Prop} {done : σ → String → MessageMetadata → Prop}
  {s : σ} {c : ServiceConsumer}

theorem Holds.committed (hs : Holds started done s c) {m : PublishRequest String} {partition offset : ℤ} {p : PartitionKey}
    (hr : KafkaEventPublisher.producerRecord m partition offset ∈ c.group.log p) (hlt : offset < c.group.startOffset p) :
    done s m.payload m.metadata ∨ ∃ dead ∈ c.sink.messages,
      dead.topic = m.topic ++ PublisherDeadLetterSink.topicSuffix ∧ dead.payload = m.payload ∧ dead.metadata = m.metadata := by
  have hsettled := hs.group.below p _ hr hlt
  obtain ⟨hid, htype⟩ := producerRecord_metadata m partition offset
  unfold ConsumerRecord.Settled at hsettled
  simp only [hid, htype] at hsettled
  rcases hsettled with hhandled | ⟨attempts, hdead⟩
  · exact .inl (hs.handled _ _ _ _ hhandled)
  · exact .inr ⟨_, hs.deadLettered _ hdead, rfl, rfl, rfl⟩

theorem Holds.journey {outbox : OutboxState String} {topic : String} (hs : Holds started done s c)
    (hsound : outbox.Sound) (htopic : outbox.PublishesTo topic) (hlogged : Logged outbox.messages c.group.log)
    {row : OutboxRow String} (hrow : row ∈ outbox.rows) :
    row.published = false ∨
      (∃ p, ∃ r ∈ c.group.log p, r.value = row.payload ∧ c.group.startOffset p ≤ r.offset) ∨
      (∃ dead ∈ c.sink.messages, dead.topic = topic ++ PublisherDeadLetterSink.topicSuffix ∧ dead.payload = row.payload) ∨
      done s row.payload ⟨row.id, row.eventType⟩ := by
  cases hpublished : row.published with
  | false => exact .inl rfl
  | true =>
    right
    obtain ⟨m, hm, hentry⟩ := List.mem_map.mp (hsound.recorded.published row hrow hpublished)
    have hpayload : m.payload = row.payload := congrArg OutboxEntry.payload hentry
    have hid : m.metadata.eventId = row.id := congrArg OutboxEntry.id hentry
    have htype : m.metadata.eventType = row.eventType := congrArg OutboxEntry.eventType hentry
    obtain ⟨p, r, hr, partition, offset, rfl⟩ := hlogged.kept m hm
    by_cases hcommitted : c.group.startOffset p ≤ offset
    · exact .inl ⟨p, _, hr, hpayload, hcommitted⟩
    · right
      rcases hs.committed hr (by omega) with hdone | ⟨dead, hdead, hdeadTopic, hdeadPayload, -⟩
      · right
        rw [← hpayload, ← hid, ← htype]
        exact hdone
      · left
        refine ⟨dead, hdead, ?_, hdeadPayload.trans hpayload⟩
        rw [hdeadTopic, htopic.messages m hm]

end LiquidPetProject.Messaging.ServiceConsumer

namespace LiquidPetProject.Choreography

open Models Repository Events Messaging Outbox OrderReservationHandler OrderPipeline Transitions

variable {codec : Codec String} {s : OrderFlow} {id : OrderId}

def IsCreatedEvent (codec : Codec String) (id : OrderId) (payload : String) : Prop :=
  ∃ event, createdEvent codec payload = some event ∧ event.orderId = id

def IsReservedEvent (codec : Codec String) (id : OrderId) (payload : String) : Prop :=
  OrderReservedHandler.eventOf codec.parse payload = some ⟨id⟩

/-- Where the news of an order can be found before the order is Reserved: of the order, then of its reservation,
as a row that is to be published, as a record that is to be read, or as a dead letter. -/
inductive Underway (codec : Codec String) (s : OrderFlow) (id : OrderId) : Prop
  | recorded (row : OutboxRow String) (hrow : row ∈ s.pipeline.orderOutbox.rows) (hevent : IsCreatedEvent codec id row.payload)
      (hpublished : row.published = false)
  | published (p : PartitionKey) (r : ConsumerRecord) (hr : r ∈ s.worker.group.log p)
      (hevent : IsCreatedEvent codec id r.value) (huncommitted : s.worker.group.startOffset p ≤ r.offset)
  | deadLettered (m : PublishRequest String) (hm : m ∈ s.worker.sink.messages) (htopic : m.topic = "orders.created.dlq")
      (hevent : IsCreatedEvent codec id m.payload)
  | reservationRecorded (row : OutboxRow String) (hrow : row ∈ s.pipeline.worker.outbox.rows)
      (hevent : IsReservedEvent codec id row.payload) (hpublished : row.published = false)
  | reservationPublished (p : PartitionKey) (r : ConsumerRecord) (hr : r ∈ s.orders.group.log p)
      (hevent : IsReservedEvent codec id r.value) (huncommitted : s.orders.group.startOffset p ≤ r.offset)
  | reservationDeadLettered (m : PublishRequest String) (hm : m ∈ s.orders.sink.messages)
      (htopic : m.topic = "orders.reserved.dlq") (hevent : IsReservedEvent codec id m.payload)

theorem created_row (hs : s.pipeline.Coherent codec) {order : Order} (ho : order ∈ s.pipeline.orders)
    (hid : order.orderId = some id) : ∃ row ∈ s.pipeline.orderOutbox.rows, row.aggregateId = id.value ∧
      IsCreatedEvent codec id row.payload := by
  have hkey : some id.value ∈ s.pipeline.orders.map keyOf := by
    rw [List.mem_map]
    exact ⟨order, ho, congrArg (Option.map StrongID.value) hid⟩
  obtain ⟨e, he, haggregate⟩ := List.mem_map.mp ((hs.consistent.mem_orderKeys_iff id.value).mp hkey)
  obtain ⟨event, hevent⟩ := Option.isSome_iff_exists.mp (hs.effective.created e he)
  have horder : event.orderId = id := by
    apply StrongID.value_injective
    rw [hs.consistent.orders.payload e he event hevent, haggregate]
  obtain ⟨row, hrow, rfl⟩ := List.mem_map.mp he
  exact ⟨row, hrow, haggregate, event, hevent, horder⟩

theorem reserved_row (hs : s.pipeline.Coherent codec) (hkey : id.value ∈ s.pipeline.worker.outbox.known.map OutboxEntry.aggregateId) :
    ∃ row ∈ s.pipeline.worker.outbox.rows, IsReservedEvent codec id row.payload := by
  obtain ⟨e, he, haggregate⟩ := List.mem_map.mp hkey
  obtain ⟨event, hevent⟩ := Option.isSome_iff_exists.mp (hs.effective.reserved e he)
  obtain rfl : event.orderId = id := by
    apply StrongID.value_injective
    rw [hs.consistent.reservations.payload e he event hevent, haggregate]
  obtain ⟨row, hrow, rfl⟩ := List.mem_map.mp he
  exact ⟨row, hrow, hevent⟩

theorem reserved_of_done (hs : s.pipeline.Coherent codec) {payload : String} {metadata : MessageMetadata}
    (hdone : PipelineState.Reserved codec s.pipeline payload metadata) (hevent : IsReservedEvent codec id payload)
    {order : Order} (ho : order ∈ s.pipeline.orders) (hid : order.orderId = some id) : order.status = .reserved := by
  obtain ⟨other, hother, hsame, hreserved⟩ := hdone ⟨id⟩ hevent
  obtain rfl := List.inj_on_of_nodup_map hs.consistent.orderService.keyed.1 ho hother ((orderKey_of_orderId hid).trans hsame.symm)
  exact hreserved

theorem reserved_known (hs : s.pipeline.Coherent codec) {row : OutboxRow String} (hrow : row ∈ s.pipeline.orderOutbox.rows)
    (hprocessed : s.pipeline.worker.knows row.id) :
    row.aggregateId ∈ s.pipeline.worker.outbox.known.map OutboxEntry.aggregateId := by
  have hentry : row.toOutboxEntry ∈ s.pipeline.orderOutbox.known := List.mem_map_of_mem hrow
  exact (hs.consistent.mem_processed_iff hentry).mp (hs.consistent.mem_processed_of_knows hentry hprocessed)

theorem FlowSound.underway (hs : FlowSound codec s) {order : Order} (ho : order ∈ s.pipeline.orders)
    (hid : order.orderId = some id) : order.status = .reserved ∨ Underway codec s id := by
  have hcoherent := hs.pipeline
  obtain ⟨row, hrow, haggregate, hevent⟩ := created_row hcoherent ho hid
  rcases hs.worker.journey hcoherent.consistent.orderOutbox hcoherent.published.created hs.created hrow with
    hunpublished | ⟨p, r, hr, hvalue, hoffset⟩ | ⟨m, hm, htopic, hpayload⟩ | hdone
  · exact .inr (.recorded row hrow hevent hunpublished)
  · rw [← hvalue] at hevent
    exact .inr (.published p r hr hevent hoffset)
  · rw [← hpayload] at hevent
    exact .inr (.deadLettered m hm htopic hevent)
  · have hkey := reserved_known hcoherent hrow hdone
    rw [haggregate] at hkey
    obtain ⟨reserved, hreserved, hreservedEvent⟩ := reserved_row hcoherent hkey
    rcases hs.orders.journey hcoherent.consistent.workerOutbox hcoherent.published.reserved hs.reserved hreserved with
      hunpublished | ⟨p, r, hr, hvalue, hoffset⟩ | ⟨m, hm, htopic, hpayload⟩ | hdone'
    · exact .inr (.reservationRecorded reserved hreserved hreservedEvent hunpublished)
    · rw [← hvalue] at hreservedEvent
      exact .inr (.reservationPublished p r hr hreservedEvent hoffset)
    · rw [← hpayload] at hreservedEvent
      exact .inr (.reservationDeadLettered m hm htopic hreservedEvent)
    · exact .inl (reserved_of_done hcoherent hdone' hreservedEvent ho hid)

theorem FlowSound.accounted (hs : FlowSound codec s) :
    ∀ order ∈ s.pipeline.orders, ∃ id, order.orderId = some id ∧
      s.pipeline.createdRows id.value = 1 ∧ s.pipeline.reservedRows id.value ≤ 1 ∧
      (order.status = .reserved ∧ s.pipeline.reservedRows id.value = 1 ∨
        order.status = .created ∧ Underway codec s id) := by
  have hconsistent := hs.pipeline.consistent
  intro order ho
  obtain ⟨id, hid, hkey⟩ := hconsistent.order_key ho
  have hcreatedRows : s.pipeline.createdRows id.value = 1 := by
    rw [hconsistent.createdRows_eq, if_pos]
    exact (hconsistent.mem_orderKeys_iff id.value).mp (hkey ▸ List.mem_map_of_mem ho)
  have hreservedRows : s.pipeline.reservedRows id.value ≤ 1 := by
    rw [hconsistent.reservedRows_eq]
    split_ifs <;> omega
  have hsettled (hreserved : order.status = .reserved) : s.pipeline.reservedRows id.value = 1 := by
    rcases hconsistent.statuses order ho with hcreated | ⟨-, e, he, hsame⟩
    · cases hcreated.symm.trans hreserved
    · rw [hconsistent.reservedRows_eq_one_iff, ← Option.some.inj (hsame.trans hkey)]
      exact List.mem_map_of_mem he
  refine ⟨id, hid, hcreatedRows, hreservedRows, ?_⟩
  rcases hs.underway ho hid with hreserved | hunderway
  · exact .inl ⟨hreserved, hsettled hreserved⟩
  · rcases hconsistent.statuses order ho with hcreated | ⟨hreserved, -⟩
    · exact .inr ⟨hcreated, hunderway⟩
    · exact .inl ⟨hreserved, hsettled hreserved⟩

/-- No order is lost between the services, and none is reserved twice: whatever is delivered again, retried, rebalanced
or crashes, an order that is not Reserved has its news in an outbox, in a log past the committed offset, or in a dead
letter topic. -/
theorem no_order_lost (codec : Codec String) (hcodec : codec.Faithful) (orderPublishers workerPublishers : List Int32)
    (actions : List FlowAction) (s : OrderFlow)
    (h : run (OrderFlow.step codec) (.start orderPublishers workerPublishers) actions = some s) :
    ∀ order ∈ s.pipeline.orders, ∃ id, order.orderId = some id ∧
      s.pipeline.createdRows id.value = 1 ∧ s.pipeline.reservedRows id.value ≤ 1 ∧
      (order.status = .reserved ∧ s.pipeline.reservedRows id.value = 1 ∨
        order.status = .created ∧ Underway codec s id) :=
  ((flowSound_start orderPublishers workerPublishers).run hcodec h).accounted

/-- Seen through the databases and the brokers, the services with their consumer groups behave as the pipeline that
hands any message to any handler at any time. -/
theorem flow_refines_pipeline (codec : Codec String) (hcodec : codec.Faithful) (orderPublishers workerPublishers : List Int32)
    (actions : List FlowAction) (s : OrderFlow)
    (h : run (OrderFlow.step codec) (.start orderPublishers workerPublishers) actions = some s) :
    ∃ pipelineActions, run (PipelineState.step codec) (.start orderPublishers workerPublishers) pipelineActions =
      some s.pipeline :=
  run_refines (fun _ _ _ hi hstep => FlowSound.step hcodec hi hstep)
    (fun _ _ _ hi hstep => step_refines hi hstep) (flowSound_start orderPublishers workerPublishers) h

section Sample

open Models2JsonMapper OrderService

def savedDocument : Json := OrderJsonMapper.toJson (placedOrder.assignId drainedOrderId)

def reservedDocument : Json := OrderReservedEventJsonMapper.toJson ⟨drainedOrderId⟩

def sampleTexts : List (String × Json) :=
  [(bodyText, drainedBody), (dumpText savedDocument, savedDocument), (dumpText reservedDocument, reservedDocument)]

def flowCodec : Codec String where
  parse text :=
    match sampleTexts.find? (fun d => d.1 = text) with
    | some d => .ok d.2
    | none => .error .parseError
  store json := (sampleTexts.find? (fun d => d.2.same json)).map Prod.fst
  unrepresentable T _ := T.cast 0

theorem sampleTexts_nodup : (sampleTexts.map Prod.fst).Nodup := by decide +kernel

theorem flowCodec_parse {json : Json} {text : String} (h : flowCodec.store json = some text) :
    flowCodec.parse text = .ok json := by
  obtain ⟨d, hd, rfl⟩ := Option.map_eq_some_iff.mp h
  have hmatch := List.find?_some hd
  have hmem := List.mem_of_find?_eq_some hd
  unfold flowCodec
  dsimp only at hmatch ⊢
  cases hfind : sampleTexts.find? (fun e => decide (e.1 = d.1)) with
  | none => exact absurd (List.find?_eq_none.mp hfind d hmem) (by simp)
  | some e =>
    have hkey := List.find?_some hfind
    have hsame := List.inj_on_of_nodup_map sampleTexts_nodup (List.mem_of_find?_eq_some hfind) hmem (of_decide_eq_true hkey)
    rw [hsame]
    exact congrArg Except.ok (Json.eq_of_same _ _ hmatch)

theorem flowCodec_faithful : flowCodec.Faithful := by
  constructor
  · intro json text json' hstore hparse key s h
    obtain rfl := Except.ok.inj ((flowCodec_parse hstore).symm.trans hparse)
    exact h
  · intro json text hstore
    exact ⟨json, flowCodec_parse hstore, Json.SameValue.refl json⟩

def createdRecord : ConsumerRecord :=
  KafkaEventPublisher.producerRecord
    ⟨"orders.created", drainedOrderId.value, dumpText savedDocument, ⟨drainedEventId, "OrderCreated"⟩⟩ 0 0

def flowPublication : List FlowAction :=
  [.pipeline (.createOrder bodyText drainedOrderId drainedEventId 0 .committed),
    .pipeline (.orderPublisher 0 (.select (fun _ => 0))), .pipeline (.orderPublisher 0 .fetchCommitted),
    .pipeline (.orderPublisher 0 .publish), .createdStored 0 0 0]

def flowConsumption : List GroupAction :=
  [.spawn 0 { workerThreads := 1, queueCapacity := 1 }, .assigned 0 [⟨"orders.created", 0⟩], .proceed 0 false,
    .proceed 0 false, .polled 0 [createdRecord], .proceed 0 false, .proceed 0 false, .proceed 0 false, .proceed 0 false,
    .proceed 0 false, .proceed 0 false, .worker 0 (.take 0), .worker 0 (.execute 0 .none), .worker 0 (.execute 0 .none)]

def flowReservation : List FlowAction :=
  [.worker (.handle 0 0), .pipeline (.process 0 (.ok ())), .pipeline (.record 0 reservedRowId 1 .committed),
    .worker (.handled 0 0)]

def flowCommit : List GroupAction :=
  [.worker 0 (.execute 0 .none), .proceed 0 false, .proceed 0 false, .proceed 0 true, .committed 0]

def sampleFlow : List FlowAction :=
  flowPublication ++ flowConsumption.map (fun a => .worker (.group a)) ++ flowReservation ++
    flowCommit.map (fun a => .worker (.group a))

theorem run_sampleFlow : (run (OrderFlow.step flowCodec) (.start [100] [100]) sampleFlow).map (fun s =>
    (s.pipeline.orders.map Order.status, s.worker.group.committed ⟨"orders.created", 0⟩)) =
      some ([.created], some 1) := by decide +kernel

theorem no_order_lost_sample : ∃ s id, run (OrderFlow.step flowCodec) (.start [100] [100]) sampleFlow = some s ∧
    s.worker.group.committed ⟨"orders.created", 0⟩ = some 1 ∧ Underway flowCodec s id := by
  obtain ⟨s, hs, hfacts⟩ := Option.map_eq_some_iff.mp run_sampleFlow
  obtain ⟨hstatuses, hcommitted⟩ := Prod.mk.inj hfacts
  obtain ⟨order, ho, hstatus⟩ : ∃ order ∈ s.pipeline.orders, order.status = .created := by
    apply List.mem_map.mp
    rw [hstatuses]
    exact List.mem_singleton_self _
  obtain ⟨id, -, -, -, ⟨hreserved, -⟩ | ⟨-, hunderway⟩⟩ :=
    no_order_lost flowCodec flowCodec_faithful [100] [100] sampleFlow s hs order ho
  · cases hstatus.symm.trans hreserved
  · exact ⟨s, id, hs, hcommitted, hunderway⟩

theorem flow_refines_pipeline_sample : ∃ s actions, run (OrderFlow.step flowCodec) (.start [100] [100]) sampleFlow = some s ∧
    run (PipelineState.step flowCodec) (.start [100] [100]) actions = some s.pipeline := by
  obtain ⟨s, hs, -⟩ := Option.map_eq_some_iff.mp run_sampleFlow
  obtain ⟨actions, hactions⟩ := flow_refines_pipeline flowCodec flowCodec_faithful [100] [100] sampleFlow s hs
  exact ⟨s, actions, hs, hactions⟩

end Sample

end LiquidPetProject.Choreography
