import LiquidPetProject.EventAgreement
import LiquidPetProject.OrderPipelineConsistency
import LiquidPetProject.ReservationDeliveries

namespace LiquidPetProject.OrderReservationHandler

open Models Repository Events Messaging Models2JsonMapper

variable {π : Type} {codec : Codec π}

/-- A stored document reads back as the same value. -/
structure Codec.Faithful (codec : Codec π) : Prop where
  keepsStrings : codec.KeepsStrings
  readsBack : ∀ json text, codec.store json = some text → ∃ json', codec.parse text = .ok json' ∧ json.SameValue json'

theorem createdEvent_stored (hcodec : codec.Faithful) {order : Order} {orderId : OrderId} {payload : π}
    (hs : codec.store (OrderJsonMapper.toJson (order.assignId orderId)) = some payload) :
    createdEvent codec payload = some (createdEventOf (order.assignId orderId) orderId) := by
  obtain ⟨json, hparse, hsame⟩ := hcodec.readsBack _ _ hs
  exact createdEvent_some.mpr ⟨json, hparse, createdEvent_fromJson codec.unrepresentable rfl hsame⟩

theorem reservedEvent_stored (hcodec : codec.Faithful) {event : OrderReservedEvent} {payload : π}
    (hs : codec.store (OrderReservedEventJsonMapper.toJson event) = some payload) :
    OrderReservedHandler.eventOf codec.parse payload = some event := by
  obtain ⟨json, hparse, hsame⟩ := hcodec.readsBack _ _ hs
  exact OrderReservedHandler.eventOf_some.mpr ⟨json, hparse, reservedEvent_fromJson event hsame⟩

theorem knows_insertReservation {db : WorkerDatabase π} {eventId : OutboxEventId} (h : db.knows eventId)
    (record : ReservationRecord π) (rowId : OutboxEventId) (createdAt : ℤ) :
    (db.insertReservation record rowId createdAt).knows eventId := by
  unfold WorkerDatabase.knows WorkerDatabase.insertReservation
  rw [List.map_append]
  exact List.mem_append_left _ h

theorem record_succeeds {db : WorkerDatabase π} {call : ReservationCall} {event : OrderCreatedEvent}
    {rowId : OutboxEventId} {createdAt : ℤ} {outcome : CommitOutcome}
    (h : (record codec db call event rowId createdAt outcome).2 = .returned true) :
    (record codec db call event rowId createdAt outcome).1.knows call.metadata.eventId := by
  unfold record at h ⊢
  cases hs : codec.store (OrderReservedEventJsonMapper.toJson ⟨event.orderId⟩) with
  | none =>
    rw [hs] at h
    cases h
  | some payload =>
    rw [hs] at h
    dsimp only at h ⊢
    unfold WorkerDatabase.recordReservationIfNew at h ⊢
    cases outcome with
    | failed e => cases h
    | committed =>
      dsimp only at h ⊢
      split_ifs at h ⊢ with hknown hrow
      · exact hknown
      · cases h
      · exact List.mem_map_of_mem (List.mem_append_right _ (List.mem_singleton_self _))
    | inDoubt e =>
      dsimp only at h ⊢
      split_ifs at h ⊢ with hknown hrow
      · exact hknown
      · cases h
      · cases h

end LiquidPetProject.OrderReservationHandler

namespace LiquidPetProject.OrderReservedHandler

open Models Repository Events Messaging

variable {π : Type} {parse : π → Except ParseException Json}

def ReservedIn (parse : π → Except ParseException Json) (orders : List Order) (payload : π) : Prop :=
  ∀ event, eventOf parse payload = some event →
    ∃ order ∈ orders, orderKey order = some (Uuid.ofId event.orderId) ∧ order.status = .reserved

theorem ReservedIn.append {orders : List Order} {payload : π} (h : ReservedIn parse orders payload)
    (more : List Order) : ReservedIn parse (orders ++ more) payload := by
  intro event hevent
  obtain ⟨order, ho, hreserved⟩ := h event hevent
  exact ⟨order, List.mem_append_left _ ho, hreserved⟩

theorem ReservedIn.onlyReserves {before after : List Order} {payload : π} (h : ReservedIn parse before payload)
    (hmoves : OnlyReserves before after) : ReservedIn parse after payload := by
  intro event hevent
  obtain ⟨order, ho, hid, hreserved⟩ := h event hevent
  obtain ⟨i, hi, rfl⟩ := List.mem_iff_getElem.mp ho
  have hlength := hmoves.length_eq
  have hi' : i < after.length := by omega
  refine ⟨after[i], List.getElem_mem hi', ?_⟩
  rcases hmoves.get hi hi' with hsame | ⟨hcreated, -⟩
  · rw [List.get_eq_getElem, List.get_eq_getElem] at hsame
    rw [hsame]
    exact ⟨hid, hreserved⟩
  · rw [List.get_eq_getElem, hreserved] at hcreated
    cases hcreated

theorem reservedIn_updateOrderStatus {orders : List Order} {payload : π} {orderId : OrderId}
    (hevent : eventOf parse payload = some ⟨orderId⟩) (hrow : 0 < affectedRows orderId .created orders) :
    ReservedIn parse (updateOrderStatus .reserved orderId .created orders) payload := by
  intro event he
  obtain rfl := Option.some.inj (hevent.symm.trans he)
  obtain ⟨order, ho, hid, hcreated⟩ := affectedRows_pos.mp hrow
  refine ⟨withStatus order .reserved, List.mem_map.mpr ⟨order, ho, if_pos ⟨hid, hcreated⟩⟩, hid, rfl⟩

theorem afterFind_ended {orders : List Order} {orderId : OrderId} {failure : Option PqxxException} {reason : CallEnd}
    (h : afterFind orderId (findById orders orderId failure) = .ended reason) (hhandled : reason.result = .returned true) :
    selectOrder orders orderId = none ∨ ∃ order, selectOrder orders orderId = some order ∧ order.status ≠ .created := by
  cases failure with
  | some e =>
    unfold findById afterFind at h
    dsimp only at h
    split_ifs at h with hnone
    · cases e <;> cases hnone
    · obtain rfl := Progress.ended.inj h
      cases hhandled
  | none =>
    unfold findById at h
    cases hs : selectOrder orders orderId with
    | none => exact .inl rfl
    | some order =>
      rw [hs] at h
      refine .inr ⟨order, rfl, ?_⟩
      intro hcreated
      unfold afterFind at h
      dsimp only at h
      rw [if_neg (by rw [hcreated]; decide)] at h
      unfold Order.markReserved at h
      rw [if_neg (not_not_intro hcreated)] at h
      cases h

end LiquidPetProject.OrderReservedHandler

namespace LiquidPetProject.OrderPipeline

open Models Repository Events Messaging Outbox OrderReservationHandler Models2JsonMapper Transitions

variable {π : Type} {codec : Codec π}

namespace PipelineState

/-- Every event that was written can be read, and a handler that reported success had its effect. -/
structure Effective (codec : Codec π) (s : PipelineState π) : Prop where
  created : ∀ e ∈ s.orderOutbox.known, (createdEvent codec e.payload).isSome = true
  reserved : ∀ e ∈ s.worker.outbox.known, (OrderReservedHandler.eventOf codec.parse e.payload).isSome = true
  calls : ∀ call ∈ s.reservations, call.pc = .returned true → s.worker.knows call.metadata.eventId
  records : ∀ r ∈ s.orderService.records, ∀ call ∈ r.finished, call.reason.result = .returned true →
    OrderReservedHandler.ReservedIn codec.parse s.orders r.payload

theorem effective_start (orderPublishers workerPublishers : List Int32) :
    Effective codec (start orderPublishers workerPublishers) := by
  constructor
  · exact fun e he => (nomatch he)
  · exact fun e he => (nomatch he)
  · exact fun call hcall => (nomatch hcall)
  · exact fun r hr => (nomatch hr)

theorem selectOrder_of_key {s : PipelineState π} {orderId : OrderId} {order : Order}
    (ho : order ∈ s.orders) (hkey : keyOf order = some orderId.value) : ∃ found, selectOrder s.orders orderId = some found := by
  unfold selectOrder
  rw [← Option.isSome_iff_exists, List.find?_isSome]
  exact ⟨order, ho, by simpa using orderKey_of_keyOf hkey⟩

theorem Effective.insertOrder {s : PipelineState π} (hs : s.Effective codec) (hcodec : codec.Faithful) {order : Order}
    {orderId : OrderId} {eventId : OutboxEventId} {payload : π} (createdAt : ℤ)
    (hstore : codec.store (OrderJsonMapper.toJson (order.assignId orderId)) = some payload) :
    (s.insertOrder order orderId ⟨eventId, orderId.value, "OrderCreated", payload⟩ createdAt).Effective codec := by
  have hknown := OutboxState.known_addRow s.orderOutbox
    (insertOutboxEvent ⟨eventId, orderId.value, "OrderCreated", payload⟩ createdAt)
  refine ⟨?_, hs.reserved, hs.calls, ?_⟩
  · change ∀ e ∈ (s.orderOutbox.addRow _).known, _
    rw [hknown]
    intro e he
    rcases List.mem_append.mp he with he | he
    · exact hs.created e he
    · obtain rfl := List.mem_singleton.mp he
      exact Option.isSome_iff_exists.mpr ⟨_, createdEvent_stored hcodec hstore⟩
  · intro r hr call hcall hresult
    exact (hs.records r hr call hcall hresult).append _

theorem Effective.setCall {s : PipelineState π} (hs : s.Effective codec) {i : ℕ} {call : ReservationCall}
    {pc : ReservationPc} (hcall : pc = .returned true → s.worker.knows call.metadata.eventId) :
    (s.setCall i call pc).Effective codec := by
  refine ⟨hs.created, hs.reserved, ?_, hs.records⟩
  intro other hother hreturned
  rcases List.mem_or_eq_of_mem_set hother with hold | rfl
  · exact hs.calls other hold hreturned
  · exact hcall hreturned

theorem Effective.insertReservation {s : PipelineState π} (hs : s.Effective codec) (hcodec : codec.Faithful)
    {call : ReservationCall} {event : OrderCreatedEvent} {payload : π} {rowId : OutboxEventId} (createdAt : ℤ)
    (hstore : codec.store (OrderReservedEventJsonMapper.toJson ⟨event.orderId⟩) = some payload) :
    Effective codec { s with worker :=
      s.worker.insertReservation (reservationRecord call event payload) rowId createdAt } := by
  have hknown := OutboxState.known_addRow s.worker.outbox
    (insertOutboxEvent ((reservationRecord call event payload).entry rowId) createdAt)
  refine ⟨hs.created, ?_, ?_, hs.records⟩
  · change ∀ e ∈ (s.worker.outbox.addRow _).known, _
    rw [hknown]
    intro e he
    rcases List.mem_append.mp he with he | he
    · exact hs.reserved e he
    · obtain rfl := List.mem_singleton.mp he
      exact Option.isSome_iff_exists.mpr ⟨_, reservedEvent_stored hcodec hstore⟩
  · intro other hother hreturned
    exact knows_insertReservation (hs.calls other hother hreturned) _ _ _

theorem Effective.recordStep {s t : PipelineState π} (hs : s.Effective codec) (hcodec : codec.Faithful) {i : ℕ}
    {call : ReservationCall} {rowId : OutboxEventId} {createdAt : ℤ} {outcome : CommitOutcome}
    (h : s.recordStep codec i call rowId createdAt outcome = some t) : t.Effective codec := by
  unfold PipelineState.recordStep at h
  cases hpc : call.pc with
  | recording event =>
    rw [hpc] at h
    obtain rfl := Option.some.inj h
    have hworker : Effective codec { s with worker :=
        (OrderReservationHandler.record codec s.worker call event rowId createdAt outcome).1 } := by
      obtain hsame | ⟨payload, hstore, -, -, hinsert⟩ :=
        record_fst codec s.worker call event rowId createdAt outcome
      · rw [hsame]
        exact hs
      · rw [hinsert]
        exact hs.insertReservation hcodec createdAt hstore
    exact hworker.setCall record_succeeds
  | _ =>
    rw [hpc] at h
    cases h

theorem Effective.processStep {s t : PipelineState π} (hs : s.Effective codec) {i : ℕ} {call : ReservationCall}
    {answer : Except ErrorCode Unit} (h : s.processStep i call answer = some t) : t.Effective codec := by
  unfold PipelineState.processStep at h
  cases hpc : call.pc with
  | processing event =>
    rw [hpc] at h
    obtain rfl := Option.some.inj h
    apply hs.setCall
    intro hreturned
    cases answer <;> cases hreturned
  | _ =>
    rw [hpc] at h
    cases h

theorem Effective.deliverCreated {s : PipelineState π} (hs : s.Effective codec) (hc : s.Consistent codec) {k : ℕ}
    {m : PublishRequest π} (hm : s.orderOutbox.messages[k]? = some m) : (s.deliverCreated codec m).Effective codec := by
  refine ⟨hs.created, hs.reserved, ?_, hs.records⟩
  intro call hcall hreturned
  rcases List.mem_append.mp hcall with hcall | hcall
  · exact hs.calls call hcall hreturned
  · obtain rfl := List.mem_singleton.mp hcall
    obtain ⟨event, hevent⟩ := Option.isSome_iff_exists.mp (hs.created _ (hc.orderOutbox.known_of_message hm))
    cases (beginCall_of_event hevent).symm.trans hreturned

theorem Effective.deliverReserved {s : PipelineState π} (hs : s.Effective codec) (m : PublishRequest π) :
    (s.deliverReserved m).Effective codec := by
  refine ⟨hs.created, hs.reserved, hs.calls, ?_⟩
  intro r hr call hcall hresult
  rcases List.mem_append.mp hr with hr | hr
  · exact hs.records r hr call hcall hresult
  · obtain rfl := List.mem_singleton.mp hr
    cases hcall

theorem Consistent.reservedIn_ended {s : PipelineState π} (hs : s.Consistent codec)
    {r : OrderReservedHandler.RecordCalls π} (hr : r ∈ s.orderService.records) {orders : List Order}
    {reason : OrderReservedHandler.CallEnd} (hm : OrderReservedHandler.Moves codec.parse s.orders r orders (.ended reason))
    (hresult : reason.result = .returned true) : OrderReservedHandler.ReservedIn codec.parse orders r.payload := by
  have hpc := (hs.orderService.records r hr).pc
  unfold OrderReservedHandler.PcSound at hpc
  generalize hprogress : OrderReservedHandler.Progress.ended reason = progress at hm
  cases hm with
  | call h =>
    intro event hevent
    rcases OrderReservedHandler.parsePayload_cases codec.parse r.payload with ⟨-, -, -, hnone⟩ | ⟨found, hnext, -⟩
    · cases hnone.symm.trans hevent
    · cases hprogress.trans hnext
  | @find orderId failure h =>
    rw [h] at hpc
    obtain ⟨e, he, haggregate⟩ := hs.records r hr ⟨orderId⟩ hpc
    obtain ⟨order, ho, hkey⟩ := order_of_reserved hs.orders hs.reservations he
    obtain ⟨found, hfound⟩ := selectOrder_of_key ho (hkey.trans (congrArg some haggregate))
    obtain ⟨hmem, hid⟩ := selectOrder_some hfound
    rcases OrderReservedHandler.afterFind_ended hprogress.symm hresult with hnone | ⟨other, hother, hmoved⟩
    · cases hnone.symm.trans hfound
    · obtain rfl := Option.some.inj (hother.symm.trans hfound)
      intro event hevent
      obtain rfl := Option.some.inj (hpc.symm.trans hevent)
      exact ⟨other, hmem, hid, ((hs.statuses other hmem).resolve_left hmoved).1⟩
  | @change orderId previousStatus newStatus outcome h =>
    rw [h] at hpc
    obtain ⟨hevent, rfl, rfl⟩ := hpc
    cases outcome with
    | committed =>
      apply OrderReservedHandler.reservedIn_updateOrderStatus hevent
      by_contra hnone
      have hchanged : (changeStatus s.orders orderId .created .reserved .committed).2 = .ok false := by
        simp [changeStatus, hnone]
      rw [hchanged] at hprogress
      obtain rfl := OrderReservedHandler.Progress.ended.inj hprogress
      cases hresult
    | failed e | inDoubt e =>
      obtain rfl := OrderReservedHandler.Progress.ended.inj hprogress
      cases hresult

theorem Effective.reserveStep {s t : PipelineState π} (hs : s.Effective codec) (hc : s.Consistent codec)
    {a : OrderReservedHandler.Action} (h : s.reserveStep codec a = some t) : t.Effective codec := by
  unfold PipelineState.reserveStep at h
  split_ifs at h with hhandler
  obtain ⟨service, hstep, rfl⟩ := Option.map_eq_some_iff.mp h
  obtain ⟨orderId, status, rfl, -⟩ | ⟨order, orderId, rfl, -, -⟩ | ⟨i, r, orders, progress, -, hr, rfl, hm⟩ :=
    OrderReservedHandler.State.step_cases hstep
  · cases hhandler
  · cases hhandler
  · have hmem := List.mem_of_getElem? hr
    have hmoves := (hm.spec (hc.orderService.records r hmem) hc.orderService.keyed).1
    refine ⟨hs.created, hs.reserved, hs.calls, ?_⟩
    intro r' hr' call hcall hresult
    rcases List.mem_or_eq_of_mem_set hr' with hold | rfl
    · exact (hs.records r' hold call hcall hresult).onlyReserves hmoves
    · rw [OrderReservedHandler.payload_advance]
      cases progress with
      | next pc => exact (hs.records r hmem call hcall hresult).onlyReserves hmoves
      | ended reason =>
        rcases List.mem_append.mp hcall with hearlier | hlast
        · exact (hs.records r hmem call hearlier hresult).onlyReserves hmoves
        · obtain rfl := List.mem_singleton.mp hlast
          exact hc.reservedIn_ended hmem hm hresult

theorem step_effective {s t : PipelineState π} (hcodec : codec.Faithful) {a : PipelineAction π} (hc : s.Consistent codec)
    (hs : s.Effective codec) (h : s.step codec a = some t) : t.Effective codec := by
  have orderOutbox {a : OutboxAction π} (hknown : ∀ outbox, s.orderOutbox.step a = some outbox →
      outbox.known = s.orderOutbox.known) (h : s.stepOrderOutbox a = some t) : t.Effective codec := by
    obtain ⟨outbox, hstep, rfl⟩ := Option.map_eq_some_iff.mp h
    exact ⟨hknown outbox hstep ▸ hs.created, hs.reserved, hs.calls, hs.records⟩
  have workerOutbox {a : OutboxAction π} (hknown : ∀ outbox, s.worker.outbox.step a = some outbox →
      outbox.known = s.worker.outbox.known) (h : s.stepWorkerOutbox a = some t) : t.Effective codec := by
    obtain ⟨outbox, hstep, rfl⟩ := Option.map_eq_some_iff.mp h
    exact ⟨hs.created, hknown outbox hstep ▸ hs.reserved, hs.calls, hs.records⟩
  cases a with
  | createOrder body orderId eventId createdAt outcome =>
    obtain rfl := Option.some.inj h
    obtain hsame | ⟨order, payload, -, hstore, -, -, hsaved⟩ :=
      createOrder_cases codec s body orderId eventId createdAt outcome
    · rw [hsame]
      exact hs
    · rw [hsaved]
      exact hs.insertOrder hcodec createdAt hstore
  | orderPublisher i event => exact orderOutbox (fun _ => OutboxState.publisher_known) h
  | orderBroker f event => exact orderOutbox (fun _ => OutboxState.broker_known) h
  | workerPublisher i event => exact workerOutbox (fun _ => OutboxState.publisher_known) h
  | workerBroker f event => exact workerOutbox (fun _ => OutboxState.broker_known) h
  | deliverCreated k =>
    obtain ⟨m, hm, rfl⟩ := Option.map_eq_some_iff.mp h
    exact hs.deliverCreated hc hm
  | process i answer =>
    obtain ⟨call, -, hstep⟩ := Option.bind_eq_some_iff.mp h
    exact hs.processStep hstep
  | record i rowId createdAt outcome =>
    obtain ⟨call, -, hstep⟩ := Option.bind_eq_some_iff.mp h
    exact hs.recordStep hcodec hstep
  | deliverReserved k =>
    obtain ⟨m, hm, rfl⟩ := Option.map_eq_some_iff.mp h
    exact hs.deliverReserved m
  | reserve a => exact hs.reserveStep hc h

end PipelineState

end LiquidPetProject.OrderPipeline
