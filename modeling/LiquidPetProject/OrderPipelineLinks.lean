import LiquidPetProject.OrderPipeline
import LiquidPetProject.OutboxDelivery
import LiquidPetProject.ReservationProtocol

namespace LiquidPetProject.OrderPipeline

open Models Repository Events Messaging Outbox OrderReservationHandler Models2JsonMapper

section Pairs

variable {α β : Type} {R : α → β → Prop} {as : List α} {bs : List β}

theorem exists_right (h : List.Forall₂ R as bs) {a : α} (ha : a ∈ as) : ∃ b ∈ bs, R a b := by
  induction h with
  | nil => cases ha
  | @cons x y xs ys hxy _ ih =>
    rcases List.mem_cons.mp ha with rfl | hmem
    · exact ⟨y, List.mem_cons_self, hxy⟩
    · obtain ⟨b, hb, hR⟩ := ih hmem
      exact ⟨b, List.mem_cons_of_mem _ hb, hR⟩

theorem exists_left (h : List.Forall₂ R as bs) {b : β} (hb : b ∈ bs) : ∃ a ∈ as, R a b :=
  exists_right (R := fun b a => R a b) h.flip hb

end Pairs

variable {π : Type} {codec : Codec π}

def Names (known : List (OutboxEntry π)) (eventId : OutboxEventId) (key : String) : Prop :=
  ∃ e ∈ known, e.id = eventId ∧ e.aggregateId = key

theorem Names.append {known : List (OutboxEntry π)} {eventId : OutboxEventId} {key : String}
    (h : Names known eventId key) (more : List (OutboxEntry π)) : Names (known ++ more) eventId key := by
  obtain ⟨e, he, hid, hkey⟩ := h
  exact ⟨e, List.mem_append_left _ he, hid, hkey⟩

def keyOf (order : Order) : Option String := order.orderId.map StrongID.value

/-- An event of `known` stands for each order, and a payload names the order its event is about. -/
structure OrdersLinked (codec : Codec π) (known : List (OutboxEntry π)) (orders : List Order) : Prop where
  keys : known.map (fun e => some e.aggregateId) = orders.map keyOf
  eventKeys : (known.map (fun e => Uuid.ofId e.id)).Nodup
  eventType : ∀ e ∈ known, e.eventType = "OrderCreated"
  payload : ∀ e ∈ known, ∀ event, createdEvent codec e.payload = some event → event.orderId.value = e.aggregateId

/-- The processed events and the reserved rows go in pairs, each for one created event. -/
structure ReservationsLinked (codec : Codec π) (known : List (OutboxEntry π)) (processed : List OutboxEventId)
    (reserved : List (OutboxEntry π)) : Prop where
  pairs : List.Forall₂ (Names known) processed (reserved.map OutboxEntry.aggregateId)
  nodup : processed.Nodup
  eventType : ∀ e ∈ reserved, e.eventType = "OrderReserved"
  payload : ∀ e ∈ reserved, ∀ event, OrderReservedHandler.eventOf codec.parse e.payload = some event →
    event.orderId.value = e.aggregateId

def CallLinked (known : List (OutboxEntry π)) (call : ReservationCall) : Prop :=
  match call.pc with
  | .processing event => Names known call.metadata.eventId event.orderId.value
  | .recording event => Names known call.metadata.eventId event.orderId.value
  | _ => True

def RecordLinked (codec : Codec π) (reserved : List (OutboxEntry π)) (r : OrderReservedHandler.RecordCalls π) : Prop :=
  ∀ event, OrderReservedHandler.eventOf codec.parse r.payload = some event →
    ∃ e ∈ reserved, e.aggregateId = event.orderId.value

def StatusLinked (reserved : List (OutboxEntry π)) (order : Order) : Prop :=
  order.status = .created ∨ order.status = .reserved ∧ ∃ e ∈ reserved, some e.aggregateId = keyOf order

theorem CallLinked.append {known : List (OutboxEntry π)} {call : ReservationCall} (h : CallLinked known call)
    (more : List (OutboxEntry π)) : CallLinked (known ++ more) call := by
  unfold CallLinked at h ⊢
  cases hpc : call.pc with
  | processing event =>
    rw [hpc] at h
    exact Names.append h more
  | recording event =>
    rw [hpc] at h
    exact Names.append h more
  | _ => trivial

theorem RecordLinked.append {reserved : List (OutboxEntry π)} {r : OrderReservedHandler.RecordCalls π}
    (h : RecordLinked codec reserved r) (more : List (OutboxEntry π)) : RecordLinked codec (reserved ++ more) r := by
  intro event hevent
  obtain ⟨e, he, hkey⟩ := h event hevent
  exact ⟨e, List.mem_append_left _ he, hkey⟩

theorem StatusLinked.append {reserved : List (OutboxEntry π)} {order : Order} (h : StatusLinked reserved order)
    (more : List (OutboxEntry π)) : StatusLinked (reserved ++ more) order := by
  rcases h with hcreated | ⟨hreserved, e, he, hkey⟩
  · exact .inl hcreated
  · exact .inr ⟨hreserved, e, List.mem_append_left _ he, hkey⟩

theorem OrdersLinked.concat {known : List (OutboxEntry π)} {orders : List Order} (h : OrdersLinked codec known orders)
    {order : Order} {orderId : OrderId} {eventId : OutboxEventId} {payload : π}
    (hevent : Uuid.ofId eventId ∉ known.map (fun e => Uuid.ofId e.id))
    (hpayload : ∀ event, createdEvent codec payload = some event → event.orderId = orderId) :
    OrdersLinked codec (known ++ [⟨eventId, orderId.value, "OrderCreated", payload⟩])
      (orders ++ [order.assignId orderId]) := by
  refine ⟨?_, ?_, ?_, ?_⟩
  · rw [List.map_append, List.map_append, h.keys]
    rfl
  · rw [List.map_append, List.map_singleton, ← List.concat_eq_append]
    exact h.eventKeys.concat hevent
  · intro e he
    rcases List.mem_append.mp he with he | he
    · exact h.eventType e he
    · obtain rfl := List.mem_singleton.mp he
      rfl
  · intro e he event hevent
    rcases List.mem_append.mp he with he | he
    · exact h.payload e he event hevent
    · obtain rfl := List.mem_singleton.mp he
      rw [hpayload event hevent]

theorem ReservationsLinked.append {known : List (OutboxEntry π)} {processed : List OutboxEventId}
    {reserved : List (OutboxEntry π)} (h : ReservationsLinked codec known processed reserved)
    (more : List (OutboxEntry π)) : ReservationsLinked codec (known ++ more) processed reserved :=
  ⟨h.pairs.imp (fun _ _ hn => Names.append hn more), h.nodup, h.eventType, h.payload⟩

theorem ReservationsLinked.concat {known : List (OutboxEntry π)} {processed : List OutboxEventId}
    {reserved : List (OutboxEntry π)} (h : ReservationsLinked codec known processed reserved)
    {record : ReservationRecord π} {rowId : OutboxEventId} (hnew : record.eventId ∉ processed)
    (hnames : Names known record.eventId record.aggregateId.value) (htype : record.eventType = "OrderReserved")
    (hpayload : ∀ event, OrderReservedHandler.eventOf codec.parse record.payload = some event →
      event.orderId = record.aggregateId) :
    ReservationsLinked codec known (processed ++ [record.eventId]) (reserved ++ [record.entry rowId]) := by
  refine ⟨?_, ?_, ?_, ?_⟩
  · rw [List.map_append]
    exact List.rel_append h.pairs (List.Forall₂.cons hnames List.Forall₂.nil)
  · rw [List.nodup_append]
    refine ⟨h.nodup, List.nodup_singleton _, ?_⟩
    intro a ha b hb
    obtain rfl := List.mem_singleton.mp hb
    rintro rfl
    exact hnew ha
  · intro e he
    rcases List.mem_append.mp he with he | he
    · exact h.eventType e he
    · obtain rfl := List.mem_singleton.mp he
      exact htype
  · intro e he event hevent
    rcases List.mem_append.mp he with he | he
    · exact h.payload e he event hevent
    · obtain rfl := List.mem_singleton.mp he
      exact congrArg StrongID.value (hpayload event hevent)

theorem order_of_reserved {known : List (OutboxEntry π)} {orders : List Order} {processed : List OutboxEventId}
    {reserved : List (OutboxEntry π)} (ho : OrdersLinked codec known orders)
    (hr : ReservationsLinked codec known processed reserved) {e : OutboxEntry π} (he : e ∈ reserved) :
    ∃ order ∈ orders, keyOf order = some e.aggregateId := by
  obtain ⟨eventId, -, entry, hentry, -, haggregate⟩ := exists_left hr.pairs (List.mem_map_of_mem he)
  rw [← haggregate, ← List.mem_map, ← ho.keys]
  exact List.mem_map_of_mem hentry

theorem orderKey_of_keyOf {order : Order} {id : OrderId} (h : keyOf order = some id.value) :
    orderKey order = some (Uuid.ofId id) := by
  obtain ⟨stored, hstored, hvalue⟩ := Option.map_eq_some_iff.mp h
  rw [← StrongID.value_injective hvalue]
  exact orderKey_of_orderId hstored

theorem getValue_id {json : Json} {key text : String} {id : OrderId}
    (htext : JsonHelper.getValue Json.getString json key = .ok text) (hid : StrongID.create text = .ok id) :
    json.member key = some (.string id.value) := by
  obtain ⟨found, hfound, hget⟩ := JsonHelper.getValue_ok.mp htext
  rw [hfound, StrongID.create_value hid]
  cases found with
  | string s => rw [Except.ok.inj hget]
  | _ => cases hget

theorem createdEvent_member {json : Json} {event : OrderCreatedEvent}
    (h : OrderCreatedEventJsonMapper.fromJson codec.unrepresentable json = .ok event) :
    json.member orderIdKey = some (.string event.orderId.value) := by
  obtain ⟨text, htext, h⟩ := Fallible.bind_ok.mp h
  obtain ⟨id, hid, h⟩ := Fallible.bind_ok.mp h
  obtain ⟨userText, -, h⟩ := Fallible.bind_ok.mp h
  obtain ⟨userId, -, h⟩ := Fallible.bind_ok.mp h
  obtain ⟨items, -, h⟩ := Fallible.bind_ok.mp h
  rw [← Except.ok.inj h]
  exact getValue_id htext hid

theorem reservedEvent_member {json : Json} {event : OrderReservedEvent}
    (h : OrderReservedEventJsonMapper.fromJson json = .ok event) :
    json.member orderIdKey = some (.string event.orderId.value) := by
  obtain ⟨text, htext, h⟩ := Fallible.bind_ok.mp h
  obtain ⟨id, hid, h⟩ := Fallible.bind_ok.mp h
  rw [← Except.ok.inj h]
  exact getValue_id htext hid

theorem id_of_member {json : Json} {a b : OrderId} (ha : json.member orderIdKey = some (.string a.value))
    (hb : json.member orderIdKey = some (.string b.value)) : a = b :=
  StrongID.value_injective (Json.string.inj (Option.some.inj (ha.symm.trans hb)))

theorem createdEvent_of_store (hcodec : codec.KeepsStrings) {order : Order} {orderId : OrderId} {payload : π}
    (hs : codec.store (OrderJsonMapper.toJson (order.assignId orderId)) = some payload) {event : OrderCreatedEvent}
    (h : createdEvent codec payload = some event) : event.orderId = orderId := by
  obtain ⟨json, hp, hm⟩ := createdEvent_some.mp h
  exact id_of_member (createdEvent_member hm) (hcodec _ _ _ hs hp orderIdKey orderId.value rfl)

theorem reservedEvent_of_store (hcodec : codec.KeepsStrings) {orderId : OrderId} {payload : π}
    (hs : codec.store (OrderReservedEventJsonMapper.toJson ⟨orderId⟩) = some payload) {event : OrderReservedEvent}
    (h : OrderReservedHandler.eventOf codec.parse payload = some event) : event.orderId = orderId := by
  obtain ⟨json, hp, hm⟩ := OrderReservedHandler.eventOf_some.mp h
  exact id_of_member (reservedEvent_member hm) (hcodec _ _ _ hs hp orderIdKey orderId.value rfl)

end LiquidPetProject.OrderPipeline
