import LiquidPetProject.OrderDelivery
import LiquidPetProject.OrderPlatformSound

namespace LiquidPetProject.OrderService

open Models Http Repository

variable {codec : TextCodec} {s : ServiceState} {key : Uuid}

theorem ServiceSound.status_cases (h : ServiceSound codec s) (hkey : key ∈ s.db.keys) :
    s.db.statusesOf key.toId = ["Created"] ∨ s.db.statusesOf key.toId = ["Reserved"] := by
  obtain ⟨e, he, order, hsaves⟩ := h.current.saved key hkey
  have hevolves := h.current.evolved e he
  have hmem : Uuid.ofId (key.toId : OrderId) ∈ e.after.keys := by
    rw [Uuid.ofId_toId]
    exact hsaves.mem_keys
  have hstatus := hsaves.status
  obtain ⟨-, hfresh, -, eventId, payload, createdAt, -, hafter⟩ := hsaves
  apply (hevolves.statusesOf hmem).1
  rw [hafter, OrderTables.statusesOf_saved hfresh, hstatus]
  rfl

theorem ServiceSound.shows_reserved (h : ServiceSound codec s) {db : OrderTables String}
    (hkey : key ∈ db.keys) (hdb : db.statusesOf key.toId = ["Reserved"]) {earlier later : List Execution} {f e : Execution}
    {order : Order} (hsplit : s.executions = earlier ++ f :: later) (he : e ∈ earlier) (hsaves : e.Saves codec key order)
    (hevolves : OrderTables.Evolves codec.toCodec db f.before) (hrequest : f.Requests key) :
    f.LosesDatabase ∨ ∃ found, f.Shows codec found ∧ Reads found key order ∧ found.status = .reserved := by
  rcases (h.throughout earlier f later hsplit e he).served hsaves hrequest with hlost | ⟨found, hshown, hreads⟩
  · exact .inl hlost
  · refine .inr ⟨found, hshown, hreads, ?_⟩
    obtain ⟨id, rows, hid, -, hfind, -⟩ := hshown
    obtain ⟨-, other, hother, hsame⟩ := hrequest
    rw [hid] at hother
    obtain rfl := Except.ok.inj (Option.some.inj hother)
    have hids : Uuid.ofId (key.toId : OrderId) = Uuid.ofId id := (Uuid.ofId_toId key).trans hsame.symm
    have hmem : Uuid.ofId id ∈ db.keys := by
      rw [hsame]
      exact hkey
    have hstatus : db.statusesOf id = ["Reserved"] := by
      rw [← OrderTables.statusesOf_key _ hids]
      exact hdb
    have hnow := (hevolves.statusesOf hmem).2 hstatus
    rw [statusesOf_found hfind] at hnow
    exact toString_injective (List.cons.inj hnow).1

end LiquidPetProject.OrderService

namespace LiquidPetProject.Platform

open Models Http HttpServer Gateway Repository Messaging Outbox OrderService EndToEnd Choreography OrderPipeline
open Models2JsonMapper Transitions

variable {codec : TextCodec} {services : Services} {s t : OrderPlatform} {key : Uuid}

structure Kept (codec : TextCodec) (s : OrderPlatform) (key : Uuid) (order : Order) : Prop where
  rows : s.web.service.db.Holds key.toId [Uuid.ofId order.userId] (order.items.map (itemRow key))
  createdOnce : s.flow.pipeline.createdRows key.text = 1
  reservedOnce : s.flow.pipeline.reservedRows key.text ≤ 1
  status : s.web.service.db.statusesOf key.toId = ["Reserved"] ∧ s.flow.pipeline.reservedRows key.text = 1 ∨
    s.web.service.db.statusesOf key.toId = ["Created"] ∧ Underway codec.toCodec s.flow key.toId

theorem PlatformSound.statuses (hs : PlatformSound codec services s) (hkey : key ∈ s.web.service.db.keys) {order : Order}
    (ho : order ∈ s.flow.pipeline.orders) (hid : order.orderId = some key.toId) :
    s.web.service.db.statusesOf key.toId = [OrderStatusMapper.toString order.status] := by
  have hmem := hs.mirrors.status_mem ho hid
  rcases hs.web.service.status_cases hkey with hstatus | hstatus
  · rw [hstatus] at hmem ⊢
    rw [List.mem_singleton.mp hmem]
  · rw [hstatus] at hmem ⊢
    rw [List.mem_singleton.mp hmem]

theorem PlatformSound.kept (hs : PlatformSound codec services s) {e : OrderService.Execution} (he : e ∈ s.web.service.executions)
    {saved : Order} (hsaves : e.Saves codec key saved) : Kept codec s key saved := by
  have hkey : key ∈ s.web.service.db.keys := (hs.web.service.current.evolved e he).keys.subset hsaves.mem_keys
  obtain ⟨order, ho, hid⟩ := hs.mirrors.order_of_key hkey
  have hstatuses := hs.statuses hkey ho hid
  obtain ⟨id, hsame, hcreated, hreserved, hstatus⟩ := hs.flow.accounted order ho
  obtain rfl : key.toId = id := Option.some.inj (hid.symm.trans hsame)
  refine ⟨hs.web.service.holds he hsaves, hcreated, hreserved, ?_⟩
  rcases hstatus with ⟨hnow, hone⟩ | ⟨hnow, hunderway⟩
  · left
    rw [hstatuses, hnow]
    exact ⟨rfl, hone⟩
  · right
    rw [hstatuses, hnow]
    exact ⟨rfl, hunderway⟩

/-- Whatever else happens to the services, the network, the brokers and the databases: an order that a client was
told of is in the tables with one event, and it is Reserved, or the news of it is still under way. -/
theorem created_order_kept (codec : TextCodec) (hcodec : codec.toCodec.Faithful) (services : Services)
    (orderPublishers workerPublishers : List Int32) (actions : List PlatformAction) (s : OrderPlatform)
    (h : run (OrderPlatform.step codec services) (.start orderPublishers workerPublishers) actions = some s)
    (i : ℕ) (request : Request) (body : String)
    (hcreated : s.web.gateway.requests[i]? = some (request, .returned ⟨.created, body⟩)) :
    ∃ key order bodyJson, body = codec.dump (.object [(orderId, .string key.text)]) ∧
      codec.parse request.body = .ok bodyJson ∧
      OrderJsonMapper.fromJson codec.unrepresentable bodyJson = .ok order ∧
      (∃ e ∈ s.web.service.executions, e.sender = i ∧ e.request = request ∧ e.Saves codec key order) ∧
      Kept codec s key order := by
  obtain ⟨hs, -⟩ := (platformSound_start orderPublishers workerPublishers).run hcodec h
  obtain ⟨e, he, hsender, hrequest, key, order, hsaves, hbody⟩ := hs.web.contract.created i request body hcreated
  obtain ⟨bodyJson, hparse, horder⟩ := hsaves.2.2.1
  rw [hrequest] at hparse
  exact ⟨key, order, bodyJson, hbody, hparse, horder, ⟨e, he, hsender, hrequest, hsaves⟩, hs.kept he hsaves⟩

def Wanted (codec : TextCodec) (s : OrderPlatform) (id : OrderId) : Prop :=
  ∃ e ∈ s.web.service.executions, s.web.gateway.Asked e.sender e.request ∧
    ∃ key order, e.Saves codec key order ∧ id = key.toId

structure Provenance (codec : TextCodec) (s : OrderPlatform) : Prop where
  created : ∀ p, ∀ r ∈ s.flow.worker.group.log p, ∃ id, IsCreatedEvent codec.toCodec id r.value ∧ Wanted codec s id
  reservations : ∀ row ∈ s.flow.pipeline.worker.outbox.rows, ∃ id, IsReservedEvent codec.toCodec id row.payload ∧
    Wanted codec s id
  reserved : ∀ p, ∀ r ∈ s.flow.orders.group.log p, ∃ id, IsReservedEvent codec.toCodec id r.value ∧ Wanted codec s id
  createdDead : ∀ m ∈ s.flow.worker.sink.messages, ∃ id, IsCreatedEvent codec.toCodec id m.payload ∧ Wanted codec s id
  reservedDead : ∀ m ∈ s.flow.orders.sink.messages, ∃ id, IsReservedEvent codec.toCodec id m.payload ∧ Wanted codec s id

theorem PlatformSound.wanted (hs : PlatformSound codec services s) {order : Order} (ho : order ∈ s.flow.pipeline.orders)
    {id : OrderId} (hid : keyOf order = some id.value) : Wanted codec s id := by
  obtain ⟨key, hkey, horder⟩ := hs.mirrors.key_of_order ho
  obtain ⟨e, he, saved, hsaves⟩ := hs.web.service.current.saved key hkey
  refine ⟨e, he, hs.web.linked.executions e he, key, saved, hsaves, ?_⟩
  apply StrongID.value_injective
  unfold keyOf at hid
  rw [horder] at hid
  exact (Option.some.inj hid).symm

theorem PlatformSound.createdEntry (hs : PlatformSound codec services s) {e : OutboxEntry String}
    (he : e ∈ s.flow.pipeline.orderOutbox.known) : ∃ id, IsCreatedEvent codec.toCodec id e.payload ∧ Wanted codec s id := by
  have hconsistent := hs.flow.pipeline.consistent
  obtain ⟨event, hevent⟩ := Option.isSome_iff_exists.mp (hs.flow.pipeline.effective.created e he)
  have hkey : e.aggregateId ∈ s.flow.pipeline.orderOutbox.known.map OutboxEntry.aggregateId := List.mem_map_of_mem he
  obtain ⟨order, ho, hsame⟩ := List.mem_map.mp ((hconsistent.mem_orderKeys_iff e.aggregateId).mpr hkey)
  refine ⟨event.orderId, ⟨event, hevent, rfl⟩, hs.wanted ho ?_⟩
  rw [hsame, hconsistent.orders.payload e he event hevent]

theorem PlatformSound.reservedEntry (hs : PlatformSound codec services s) {e : OutboxEntry String}
    (he : e ∈ s.flow.pipeline.worker.outbox.known) :
    ∃ id, IsReservedEvent codec.toCodec id e.payload ∧ Wanted codec s id := by
  have hconsistent := hs.flow.pipeline.consistent
  obtain ⟨event, hevent⟩ := Option.isSome_iff_exists.mp (hs.flow.pipeline.effective.reserved e he)
  obtain ⟨order, ho, hsame⟩ := order_of_reserved hconsistent.orders hconsistent.reservations he
  refine ⟨event.orderId, hevent, hs.wanted ho ?_⟩
  rw [hsame, hconsistent.reservations.payload e he event hevent]

theorem PlatformSound.provenance (hs : PlatformSound codec services s) : Provenance codec s := by
  have hconsistent := hs.flow.pipeline.consistent
  have hcreated : ∀ p, ∀ r ∈ s.flow.worker.group.log p, ∃ id, IsCreatedEvent codec.toCodec id r.value ∧ Wanted codec s id := by
    intro p r hr
    obtain ⟨m, hm, partition, offset, rfl⟩ := hs.flow.created.genuine p r hr
    obtain ⟨k, hk⟩ := List.mem_iff_getElem?.mp hm
    exact hs.createdEntry (hconsistent.orderOutbox.known_of_message hk)
  have hreserved : ∀ p, ∀ r ∈ s.flow.orders.group.log p, ∃ id, IsReservedEvent codec.toCodec id r.value ∧ Wanted codec s id := by
    intro p r hr
    obtain ⟨m, hm, partition, offset, rfl⟩ := hs.flow.reserved.genuine p r hr
    obtain ⟨k, hk⟩ := List.mem_iff_getElem?.mp hm
    exact hs.reservedEntry (hconsistent.workerOutbox.known_of_message hk)
  refine ⟨hcreated, ?_, hreserved, ?_, ?_⟩
  · intro row hrow
    exact hs.reservedEntry (e := row.toOutboxEntry) (List.mem_map_of_mem hrow)
  · intro m hm
    obtain ⟨p, r, hr, -, -, hpayload, -⟩ := hs.copies.worker.messages m hm
    rw [hpayload]
    exact hcreated p r hr
  · intro m hm
    obtain ⟨p, r, hr, -, -, hpayload, -⟩ := hs.copies.orders.messages m hm
    rw [hpayload]
    exact hreserved p r hr

/-- Nothing is made up: every record of both logs, every reservation and every dead letter is about an order that was
saved for a client that asked for it. -/
theorem nothing_made_up (codec : TextCodec) (hcodec : codec.toCodec.Faithful) (services : Services)
    (orderPublishers workerPublishers : List Int32) (actions : List PlatformAction) (s : OrderPlatform)
    (h : run (OrderPlatform.step codec services) (.start orderPublishers workerPublishers) actions = some s) :
    Provenance codec s :=
  ((platformSound_start orderPublishers workerPublishers).run hcodec h).1.provenance

theorem PlatformSound.consumed (hs : PlatformSound codec services s) {p : PartitionKey} {r : ConsumerRecord}
    (hr : r ∈ s.flow.orders.group.log p) (hevent : IsReservedEvent codec.toCodec key.toId r.value)
    (hcommitted : r.offset < s.flow.orders.group.startOffset p)
    (halive : ∀ m ∈ s.flow.orders.sink.messages, ¬ IsReservedEvent codec.toCodec key.toId m.payload) :
    key ∈ s.web.service.db.keys ∧ s.web.service.db.statusesOf key.toId = ["Reserved"] := by
  have hconsistent := hs.flow.pipeline.consistent
  obtain ⟨m, hm, partition, offset, rfl⟩ := hs.flow.reserved.genuine p r hr
  obtain ⟨k, hk⟩ := List.mem_iff_getElem?.mp hm
  have hknown := hconsistent.workerOutbox.known_of_message hk
  obtain ⟨order, ho, hsame⟩ := order_of_reserved hconsistent.orders hconsistent.reservations hknown
  obtain ⟨found, hfound, hid⟩ := hs.mirrors.key_of_order ho
  have hkeyOf : keyOf order = some found.text := congrArg (Option.map StrongID.value) hid
  obtain rfl : found = key := by
    apply OrderTables.toId_injective
    apply StrongID.value_injective
    have hvalue := hconsistent.reservations.payload _ hknown ⟨key.toId⟩ hevent
    exact (Option.some.inj (hkeyOf.symm.trans hsame)).trans hvalue.symm
  refine ⟨hfound, ?_⟩
  rw [hs.statuses hfound ho hid]
  rcases hs.flow.orders.committed hr hcommitted with hdone | ⟨dead, hdead, -, hpayload, -⟩
  · rw [reserved_of_done hs.flow.pipeline hdone hevent ho hid]
    rfl
  · refine absurd ?_ (halive dead hdead)
    rw [hpayload]
    exact hevent

/-- Once the order service has consumed the news that an order is reserved, every client that asks for the order is
shown it as Reserved, unless the upstream or the database fails. -/
theorem reservation_visible (codec : TextCodec) (hcodec : codec.toCodec.Faithful) (config : UpstreamConfiguration)
    (orderPublishers workerPublishers : List Int32) (actions later : List PlatformAction) (s t : OrderPlatform)
    (h : run (OrderPlatform.step codec (gatewayServices config)) (.start orderPublishers workerPublishers) actions = some s)
    (key : Uuid) (p : PartitionKey) (r : ConsumerRecord) (hr : r ∈ s.flow.orders.group.log p)
    (hevent : IsReservedEvent codec.toCodec key.toId r.value) (hcommitted : r.offset < s.flow.orders.group.startOffset p)
    (halive : ∀ m ∈ s.flow.orders.sink.messages, ¬ IsReservedEvent codec.toCodec key.toId m.payload)
    (hlater : run (OrderPlatform.step codec (gatewayServices config)) s later = some t)
    (k : ℕ) (body : String) (response : Response) (hk : s.web.gateway.requests.length ≤ k)
    (hreturned : t.web.gateway.requests[k]? = some (⟨.get, orderPath key, body⟩, .returned response)) :
    ∃ e ∈ s.web.service.executions, ∃ order, e.Saves codec key order ∧
      (response = { status := .badGateway } ∨
        (∃ failure, response = ⟨.internalServerError, (mapPqxxException failure).message⟩) ∨
        ∃ found, Reads found key order ∧ found.status = .reserved ∧
          response = ⟨.ok, codec.dump (OrderJsonMapper.toJson found)⟩) := by
  obtain ⟨hs, -⟩ := (platformSound_start orderPublishers workerPublishers).run hcodec h
  obtain ⟨ht, added, hadded, hbefore, -⟩ := hs.run hcodec hlater
  obtain ⟨hkey, hstatus⟩ := hs.consumed hr hevent hcommitted halive
  obtain ⟨e, he, order, hsaves⟩ := hs.web.service.current.saved key hkey
  refine ⟨e, he, order, hsaves, ?_⟩
  rcases hs.web.later_get ht.web hadded hk hreturned with hbad | ⟨between, f, after, rfl, hrequests, hresponse⟩
  · exact .inl hbad
  · have hsplit : t.web.service.executions = (s.web.service.executions ++ between) ++ f :: after := by
      rw [hadded, List.append_assoc]
    have hevolves := hbefore f (List.mem_append_right _ List.mem_cons_self)
    rw [← hresponse]
    rcases ht.web.service.shows_reserved hkey hstatus hsplit (List.mem_append_left _ he) hsaves hevolves hrequests with
      ⟨itemRows, failure, -, hlost⟩ | ⟨found, ⟨id, rows, -, -, -, hshown⟩, hreads, hreserved⟩
    · exact .inr (.inl ⟨failure, hlost⟩)
    · exact .inr (.inr ⟨found, hreads, hreserved, hshown⟩)

section Sample

def platformCodec : TextCodec := { flowCodec with dump := dumpText }

def orderedActions : List PlatformAction :=
  (createActions.take 8).map .web ++ [.save 0 sampleKey drainedEventId 0 .committed] ++ (createActions.drop 9).map .web

def workedActions : List PlatformAction :=
  (sampleFlow.drop 1).map .flow

def reservedRecord : ConsumerRecord :=
  KafkaEventPublisher.producerRecord
    ⟨"orders.reserved", drainedOrderId.value, dumpText reservedDocument, ⟨reservedRowId, "OrderReserved"⟩⟩ 0 0

def reservedPublication : List FlowAction :=
  [.pipeline (.workerPublisher 0 (.select (fun _ => 0))), .pipeline (.workerPublisher 0 .fetchCommitted),
    .pipeline (.workerPublisher 0 .publish), .reservedStored 0 0 0]

def reservedConsumption : List GroupAction :=
  [.spawn 0 { workerThreads := 1, queueCapacity := 1 }, .assigned 0 [⟨"orders.reserved", 0⟩], .proceed 0 false,
    .proceed 0 false, .polled 0 [reservedRecord], .proceed 0 false, .proceed 0 false, .proceed 0 false, .proceed 0 false,
    .proceed 0 false, .proceed 0 false, .worker 0 (.take 0), .worker 0 (.execute 0 .none), .worker 0 (.execute 0 .none)]

def reservedActions : List PlatformAction :=
  reservedPublication.map .flow ++ (reservedConsumption.map (fun a => FlowAction.orders (.group a))).map .flow ++
    [.flow (.orders (.handle 0 0)), .flow (.pipeline (.reserve (.find 0 none))), .changeStatus 0 .committed,
      .flow (.orders (.handled 0 0))] ++
    (flowCommit.map (fun a => FlowAction.orders (.group a))).map .flow

def story : List PlatformAction := orderedActions ++ workedActions ++ reservedActions

theorem platformCodec_parse : platformCodec.parse bodyText = .ok drainedBody := by
  have hsame : ((flowCodec.parse bodyText).toOption.map (fun json => json.same drainedBody)) = some true := by decide +kernel
  obtain ⟨json, hjson, hequal⟩ := Option.map_eq_some_iff.mp hsame
  obtain rfl := Json.eq_of_same _ _ hequal
  exact Fallible.toOption_some.mp hjson

theorem handle_ordered :
    CreateOrderHandler.handle platformCodec .empty createRequest sampleKey drainedEventId 0 .committed =
      (sampleTables, .returned ⟨.created, createdText⟩) := by
  have horder : OrderJsonMapper.fromJson platformCodec.unrepresentable drainedBody = .ok placedOrder := by decide +kernel
  have hkey : sampleKey ∉ (OrderTables.empty : OrderTables String).keys := List.not_mem_nil
  have hstore : platformCodec.store (OrderJsonMapper.toJson (placedOrder.assignId sampleKey.toId)) =
      some (dumpText (OrderJsonMapper.toJson (placedOrder.assignId sampleKey.toId))) := by decide +kernel
  unfold createdText
  exact create_fresh platformCodec_parse horder hkey hstore List.not_mem_nil 0

def orderedPlatform : OrderPlatform where
  web := { sentSystem with service := savedService }
  flow :=
    { OrderFlow.start [100] [100] with
      pipeline := (PipelineState.start [100] [100]).createOrder flowCodec bodyText sampleKey.toId drainedEventId 0 .committed }

theorem run_ordered :
    run (OrderPlatform.step platformCodec (gatewayServices sampleUpstream)) (.start [100] [100]) (story.take 9) =
      some orderedPlatform := by
  have hsent : run (OrderPlatform.step platformCodec (gatewayServices sampleUpstream)) (.start [100] [100]) (story.take 8) =
      some ⟨sentSystem, .start [100] [100]⟩ := rfl
  have hservice : sentSystem.service =
      ⟨.empty, [⟨.handling (ProxyHandler.exchangeRequest createRequest "order-service") .create, 0⟩], []⟩ := rfl
  have hrequest : HttpMessageConverter.toHttpRequest (ProxyHandler.exchangeRequest createRequest "order-service") =
      createRequest := rfl
  have hhandle : sentSystem.step platformCodec (gatewayServices sampleUpstream)
      (.handle 0 (.save sampleKey drainedEventId 0 .committed)) = some { sentSystem with service := savedService } := by
    simp only [OrderSystem.step, hservice, ServiceState.step, ServiceState.handleStep, List.getElem?_cons_zero,
      Option.bind_some, OrderHandler.handle, hrequest, handle_ordered]
    rfl
  show run _ _ (story.take 8 ++ [PlatformAction.save 0 sampleKey drainedEventId 0 .committed]) = _
  rw [run_append, hsent]
  simp only [Option.bind_some, run_cons, OrderPlatform.step, hservice, List.getElem?_cons_zero, OrderPlatform.saveStep,
    hhandle, hrequest, run_nil]
  rfl

def shownText : String := dumpText (OrderJsonMapper.toJson (withStatus (placedOrder.assignId sampleKey.toId) .reserved))

theorem run_story :
    ∃ s t, run (OrderPlatform.step platformCodec (gatewayServices sampleUpstream)) (.start [100] [100]) story = some s ∧
      s.web.gateway.requests.length = 1 ∧
      s.web.gateway.requests[0]? = some (createRequest, .returned ⟨.created, createdText⟩) ∧
      s.flow.orders.group.log ⟨"orders.reserved", 0⟩ = [reservedRecord] ∧
      s.flow.orders.group.startOffset ⟨"orders.reserved", 0⟩ = 1 ∧ s.flow.orders.sink.messages.length = 0 ∧
      run (OrderPlatform.step platformCodec (gatewayServices sampleUpstream)) s (readActions.map .web) = some t ∧
      t.web.gateway.requests[1]? = some (⟨.get, orderPath sampleKey, ""⟩, .returned ⟨.ok, shownText⟩) := by
  have hstory : (run (OrderPlatform.step platformCodec (gatewayServices sampleUpstream)) orderedPlatform (story.drop 9)).map
      (fun s => (s.web.gateway.requests.length, s.web.gateway.requests[0]?,
        s.flow.orders.group.log ⟨"orders.reserved", 0⟩, s.flow.orders.group.startOffset ⟨"orders.reserved", 0⟩,
        s.flow.orders.sink.messages.length)) =
      some (1, some (createRequest, .returned ⟨.created, createdText⟩), [reservedRecord], 1, 0) := by decide +kernel
  have hread : (run (OrderPlatform.step platformCodec (gatewayServices sampleUpstream)) orderedPlatform
      (story.drop 9 ++ readActions.map .web)).map (fun t => t.web.gateway.requests[1]?) =
      some (some (⟨.get, orderPath sampleKey, ""⟩, .returned ⟨.ok, shownText⟩)) := by decide +kernel
  obtain ⟨s, hs, hfacts⟩ := Option.map_eq_some_iff.mp hstory
  obtain ⟨t, ht, hshown⟩ := Option.map_eq_some_iff.mp hread
  rw [run_append, hs, Option.bind_some] at ht
  simp only [Prod.mk.injEq] at hfacts
  obtain ⟨hlength, hcreated, hlog, hoffset, hmessages⟩ := hfacts
  refine ⟨s, t, ?_, hlength, hcreated, hlog, hoffset, hmessages, ht, hshown⟩
  rw [← List.take_append_drop 9 story, run_append, run_ordered, Option.bind_some]
  exact hs

theorem platformCodec_faithful : platformCodec.toCodec.Faithful := flowCodec_faithful

theorem created_order_kept_sample :
    ∃ s key order, run (OrderPlatform.step platformCodec (gatewayServices sampleUpstream)) (.start [100] [100]) story =
        some s ∧ createdText = platformCodec.dump (.object [(orderId, .string key.text)]) ∧
      Kept platformCodec s key order := by
  obtain ⟨s, -, hs, -, hcreated, -⟩ := run_story
  obtain ⟨key, order, -, hbody, -, -, -, hkept⟩ := created_order_kept platformCodec platformCodec_faithful
    (gatewayServices sampleUpstream) [100] [100] story s hs 0 createRequest createdText hcreated
  exact ⟨s, key, order, hs, hbody, hkept⟩

theorem nothing_made_up_sample :
    ∃ s, run (OrderPlatform.step platformCodec (gatewayServices sampleUpstream)) (.start [100] [100]) story = some s ∧
      s.flow.orders.group.log ⟨"orders.reserved", 0⟩ = [reservedRecord] ∧ Provenance platformCodec s := by
  obtain ⟨s, -, hs, -, -, hlog, -⟩ := run_story
  exact ⟨s, hs, hlog, nothing_made_up platformCodec platformCodec_faithful (gatewayServices sampleUpstream) [100] [100]
    story s hs⟩

theorem reservation_visible_sample :
    ∃ t : OrderPlatform, t.web.gateway.requests[1]? = some (⟨.get, orderPath sampleKey, ""⟩, .returned ⟨.ok, shownText⟩) ∧
      ∃ (e : OrderService.Execution) (order found : Order), e.Saves platformCodec sampleKey order ∧ Reads found sampleKey order ∧
        found.status = .reserved ∧ shownText = platformCodec.dump (OrderJsonMapper.toJson found) := by
  obtain ⟨s, t, hs, hlength, -, hlog, hoffset, hmessages, ht, hshown⟩ := run_story
  have hevent : IsReservedEvent platformCodec.toCodec sampleKey.toId reservedRecord.value := by
    unfold IsReservedEvent
    decide +kernel
  have hr : reservedRecord ∈ s.flow.orders.group.log ⟨"orders.reserved", 0⟩ := by
    rw [hlog]
    exact List.mem_singleton_self _
  have hcommitted : reservedRecord.offset < s.flow.orders.group.startOffset ⟨"orders.reserved", 0⟩ := by
    rw [hoffset]
    decide
  have halive : ∀ m ∈ s.flow.orders.sink.messages, ¬ IsReservedEvent platformCodec.toCodec sampleKey.toId m.payload := by
    rw [List.eq_nil_of_length_eq_zero hmessages]
    exact fun m hm => (nomatch hm)
  obtain ⟨e, -, order, hsaves, hvisible⟩ := reservation_visible platformCodec platformCodec_faithful sampleUpstream [100] [100] story
    (readActions.map .web) s t hs sampleKey _ reservedRecord hr hevent hcommitted halive ht 1 "" _ (le_of_eq hlength) hshown
  refine ⟨t, hshown, ?_⟩
  rcases hvisible with hbad | ⟨failure, hlost⟩ | ⟨found, hreads, hreserved, hresponse⟩
  · cases congrArg Response.status hbad
  · cases congrArg Response.status hlost
  · exact ⟨e, order, found, hsaves, hreads, hreserved, congrArg Response.body hresponse⟩

end Sample

end LiquidPetProject.Platform
