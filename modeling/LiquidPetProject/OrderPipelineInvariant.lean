import LiquidPetProject.OrderPipelineLinks

namespace LiquidPetProject.OrderPipeline

open Models Repository Events Messaging Outbox OrderReservationHandler Models2JsonMapper Transitions

variable {π : Type} {codec : Codec π}

namespace PipelineState

structure Consistent (codec : Codec π) (s : PipelineState π) : Prop where
  orderOutbox : s.orderOutbox.Sound
  workerOutbox : s.worker.outbox.Sound
  orderService : OrderReservedHandler.Sound codec.parse s.orderService
  orders : OrdersLinked codec s.orderOutbox.known s.orders
  reservations : ReservationsLinked codec s.orderOutbox.known s.worker.processed s.worker.outbox.known
  calls : ∀ call ∈ s.reservations, CallLinked s.orderOutbox.known call
  records : ∀ r ∈ s.orderService.records, RecordLinked codec s.worker.outbox.known r
  statuses : ∀ order ∈ s.orders, StatusLinked s.worker.outbox.known order

theorem consistent_start (orderPublishers workerPublishers : List Int32) :
    Consistent codec (start orderPublishers workerPublishers) := by
  refine ⟨OutboxState.sound_start _, OutboxState.sound_start _, OrderReservedHandler.sound_start [],
    ⟨rfl, List.nodup_nil, ?_, ?_⟩, ⟨List.Forall₂.nil, List.nodup_nil, ?_, ?_⟩, ?_, ?_, ?_⟩
  · exact fun e he => (nomatch he)
  · exact fun e he => (nomatch he)
  · exact fun e he => (nomatch he)
  · exact fun e he => (nomatch he)
  · exact fun call hcall => (nomatch hcall)
  · exact fun r hr => (nomatch hr)
  · exact fun order ho => (nomatch ho)

theorem rowKeys_known (outbox : OutboxState π) :
    rowKeys outbox.rows = outbox.known.map (fun e => Uuid.ofId e.id) := by
  unfold rowKeys OutboxState.known entries
  rw [List.map_map]
  rfl

theorem fromJson_status {unrepresentable : FixedWidth.UnrepresentableCast} {json : Json} {order : Order}
    (h : OrderJsonMapper.fromJson unrepresentable json = .ok order) : order.status = .created := by
  obtain ⟨text, -, h⟩ := Fallible.bind_ok.mp h
  obtain ⟨userId, -, h⟩ := Fallible.bind_ok.mp h
  obtain ⟨items, -, h⟩ := Fallible.bind_ok.mp h
  exact (Order.create_fields h).2.2.2

theorem save_fst (codec : Codec π) (s : PipelineState π) (order : Order) (orderId : OrderId) (eventId : OutboxEventId) (createdAt : ℤ)
    (outcome : CommitOutcome) :
    (s.save codec order orderId eventId createdAt outcome).1 = s ∨
      ∃ payload, codec.store (OrderJsonMapper.toJson (order.assignId orderId)) = some payload ∧
        Uuid.ofId orderId ∉ orderKeys s.orders ∧ Uuid.ofId eventId ∉ rowKeys s.orderOutbox.rows ∧
        (s.save codec order orderId eventId createdAt outcome).1 =
          s.insertOrder order orderId ⟨eventId, orderId.value, "OrderCreated", payload⟩ createdAt := by
  unfold save
  cases hs : codec.store (OrderJsonMapper.toJson (order.assignId orderId)) with
  | none =>
    left
    dsimp only
    split_ifs
    · rfl
    · rfl
  | some payload =>
    dsimp only
    split_ifs with hid hevent
    · exact .inl rfl
    · exact .inl rfl
    · cases outcome with
      | failed e => exact .inl rfl
      | committed | inDoubt e => exact .inr ⟨payload, rfl, hid, hevent, rfl⟩

theorem createOrder_cases (codec : Codec π) (s : PipelineState π) (body : π) (orderId : OrderId) (eventId : OutboxEventId)
    (createdAt : ℤ) (outcome : CommitOutcome) :
    s.createOrder codec body orderId eventId createdAt outcome = s ∨
      ∃ order payload, order.status = .created ∧
        codec.store (OrderJsonMapper.toJson (order.assignId orderId)) = some payload ∧
        Uuid.ofId orderId ∉ orderKeys s.orders ∧ Uuid.ofId eventId ∉ rowKeys s.orderOutbox.rows ∧
        s.createOrder codec body orderId eventId createdAt outcome =
          s.insertOrder order orderId ⟨eventId, orderId.value, "OrderCreated", payload⟩ createdAt := by
  unfold createOrder
  cases codec.parse body with
  | error e => exact .inl rfl
  | ok json =>
    dsimp only
    cases hm : OrderJsonMapper.fromJson codec.unrepresentable json with
    | error e => exact .inl rfl
    | ok order =>
      dsimp only
      obtain hsame | ⟨payload, hs, hid, hevent, hsaved⟩ :=
        save_fst codec s order orderId eventId createdAt outcome
      · exact .inl hsame
      · exact .inr ⟨order, payload, fromJson_status hm, hs, hid, hevent, hsaved⟩

theorem Consistent.insertOrder {s : PipelineState π} (hs : s.Consistent codec) (hcodec : codec.KeepsStrings)
    {order : Order} {orderId : OrderId} {eventId : OutboxEventId} {payload : π} (createdAt : ℤ)
    (hstatus : order.status = .created)
    (hstore : codec.store (OrderJsonMapper.toJson (order.assignId orderId)) = some payload)
    (hid : Uuid.ofId orderId ∉ orderKeys s.orders)
    (hevent : Uuid.ofId eventId ∉ rowKeys s.orderOutbox.rows) :
    (s.insertOrder order orderId ⟨eventId, orderId.value, "OrderCreated", payload⟩ createdAt).Consistent codec := by
  have hknown := OutboxState.known_addRow s.orderOutbox
    (insertOutboxEvent ⟨eventId, orderId.value, "OrderCreated", payload⟩ createdAt)
  refine ⟨hs.orderOutbox.addRow (notMem_ids hevent) rfl, hs.workerOutbox,
    ⟨OrderReservedHandler.keyed_concat hs.orderService.keyed hid, hs.orderService.records⟩, ?_, ?_, ?_, hs.records, ?_⟩
  · change OrdersLinked codec (s.orderOutbox.addRow _).known (s.orders ++ [order.assignId orderId])
    rw [hknown]
    exact hs.orders.concat (rowKeys_known s.orderOutbox ▸ hevent) (fun event he => createdEvent_of_store hcodec hstore he)
  · change ReservationsLinked codec (s.orderOutbox.addRow _).known _ _
    rw [hknown]
    exact hs.reservations.append _
  · change ∀ call ∈ s.reservations, CallLinked (s.orderOutbox.addRow _).known call
    rw [hknown]
    exact fun call hcall => (hs.calls call hcall).append _
  · intro o ho
    rcases List.mem_append.mp ho with ho | ho
    · exact hs.statuses o ho
    · obtain rfl := List.mem_singleton.mp ho
      exact .inl hstatus

theorem Consistent.setOrderOutbox {s : PipelineState π} (hs : s.Consistent codec) {outbox : OutboxState π}
    (hsound : outbox.Sound) (hknown : outbox.known = s.orderOutbox.known) :
    Consistent codec { s with orderOutbox := outbox } :=
  ⟨hsound, hs.workerOutbox, hs.orderService, hknown ▸ hs.orders, hknown ▸ hs.reservations, hknown ▸ hs.calls,
    hs.records, hs.statuses⟩

theorem Consistent.setWorkerOutbox {s : PipelineState π} (hs : s.Consistent codec) {outbox : OutboxState π}
    (hsound : outbox.Sound) (hknown : outbox.known = s.worker.outbox.known) :
    Consistent codec { s with worker := { s.worker with outbox := outbox } } :=
  ⟨hs.orderOutbox, hsound, hs.orderService, hs.orders, hknown ▸ hs.reservations, hs.calls, hknown ▸ hs.records,
    hknown ▸ hs.statuses⟩

theorem Consistent.stepOrderOutbox {s t : PipelineState π} (hs : s.Consistent codec) {a : OutboxAction π}
    (hknown : ∀ outbox, s.orderOutbox.step a = some outbox → outbox.known = s.orderOutbox.known)
    (h : s.stepOrderOutbox a = some t) : t.Consistent codec := by
  obtain ⟨outbox, hstep, rfl⟩ := Option.map_eq_some_iff.mp h
  exact hs.setOrderOutbox (OutboxState.step_sound hs.orderOutbox hstep).1 (hknown outbox hstep)

theorem Consistent.stepWorkerOutbox {s t : PipelineState π} (hs : s.Consistent codec) {a : OutboxAction π}
    (hknown : ∀ outbox, s.worker.outbox.step a = some outbox → outbox.known = s.worker.outbox.known)
    (h : s.stepWorkerOutbox a = some t) : t.Consistent codec := by
  obtain ⟨outbox, hstep, rfl⟩ := Option.map_eq_some_iff.mp h
  exact hs.setWorkerOutbox (OutboxState.step_sound hs.workerOutbox hstep).1 (hknown outbox hstep)

theorem Consistent.deliverCreated {s : PipelineState π} (hs : s.Consistent codec) {k : ℕ} {m : PublishRequest π}
    (hm : s.orderOutbox.messages[k]? = some m) : (s.deliverCreated codec m).Consistent codec := by
  refine ⟨hs.orderOutbox, hs.workerOutbox, hs.orderService, hs.orders, hs.reservations, ?_, hs.records, hs.statuses⟩
  intro call hcall
  rcases List.mem_append.mp hcall with hcall | hcall
  · exact hs.calls call hcall
  · obtain rfl := List.mem_singleton.mp hcall
    unfold CallLinked
    cases hpc : beginCall codec m.payload with
    | processing event =>
      have hmem := hs.orderOutbox.known_of_message hm
      exact ⟨entryOf m, hmem, rfl, (hs.orders.payload _ hmem event (beginCall_event hpc)).symm⟩
    | recording event => exact absurd hpc beginCall_not_recording
    | _ => trivial

theorem Consistent.setCall {s : PipelineState π} (hs : s.Consistent codec) {i : ℕ} {call : ReservationCall}
    {pc : ReservationPc} (hcall : CallLinked s.orderOutbox.known { call with pc := pc }) :
    (s.setCall i call pc).Consistent codec := by
  refine ⟨hs.orderOutbox, hs.workerOutbox, hs.orderService, hs.orders, hs.reservations, ?_, hs.records, hs.statuses⟩
  intro other hother
  rcases List.mem_or_eq_of_mem_set hother with hold | rfl
  · exact hs.calls other hold
  · exact hcall

theorem Consistent.processStep {s t : PipelineState π} (hs : s.Consistent codec) {i : ℕ} {call : ReservationCall}
    {answer : Except ErrorCode Unit} (hcall : call ∈ s.reservations) (h : s.processStep i call answer = some t) :
    t.Consistent codec := by
  have hlinked := hs.calls call hcall
  unfold PipelineState.processStep at h
  unfold CallLinked at hlinked
  cases hpc : call.pc with
  | processing event =>
    rw [hpc] at h hlinked
    obtain rfl := Option.some.inj h
    apply hs.setCall
    cases answer with
    | error e => trivial
    | ok done => exact hlinked
  | _ =>
    rw [hpc] at h
    cases h

theorem Consistent.insertReservation {s : PipelineState π} (hs : s.Consistent codec) (hcodec : codec.KeepsStrings)
    {call : ReservationCall} {event : OrderCreatedEvent} {payload : π} {rowId : OutboxEventId} (createdAt : ℤ)
    (hnames : Names s.orderOutbox.known call.metadata.eventId event.orderId.value)
    (hstore : codec.store (OrderReservedEventJsonMapper.toJson ⟨event.orderId⟩) = some payload)
    (hnew : ¬ s.worker.knows call.metadata.eventId)
    (hrow : Uuid.ofId rowId ∉ rowKeys s.worker.outbox.rows) :
    Consistent codec { s with worker :=
      s.worker.insertReservation (reservationRecord call event payload) rowId createdAt } := by
  have hknown := OutboxState.known_addRow s.worker.outbox
    (insertOutboxEvent ((reservationRecord call event payload).entry rowId) createdAt)
  refine ⟨hs.orderOutbox, hs.workerOutbox.addRow (notMem_ids hrow) rfl, hs.orderService, hs.orders, ?_, hs.calls, ?_, ?_⟩
  · change ReservationsLinked codec _ (s.worker.processed ++ [_]) (s.worker.outbox.addRow _).known
    rw [hknown]
    exact hs.reservations.concat (fun hmem => hnew (List.mem_map_of_mem hmem)) hnames rfl (fun reserved he => reservedEvent_of_store hcodec hstore he)
  · change ∀ r ∈ s.orderService.records, RecordLinked codec (s.worker.outbox.addRow _).known r
    rw [hknown]
    exact fun r hr => (hs.records r hr).append _
  · change ∀ order ∈ s.orders, StatusLinked (s.worker.outbox.addRow _).known order
    rw [hknown]
    exact fun order ho => (hs.statuses order ho).append _

theorem Consistent.recordStep {s t : PipelineState π} (hs : s.Consistent codec) (hcodec : codec.KeepsStrings) {i : ℕ}
    {call : ReservationCall} {rowId : OutboxEventId} {createdAt : ℤ} {outcome : CommitOutcome}
    (hcall : call ∈ s.reservations) (h : s.recordStep codec i call rowId createdAt outcome = some t) :
    t.Consistent codec := by
  have hlinked := hs.calls call hcall
  unfold PipelineState.recordStep at h
  unfold CallLinked at hlinked
  cases hpc : call.pc with
  | recording event =>
    rw [hpc] at h hlinked
    obtain rfl := Option.some.inj h
    have hworker : Consistent codec { s with worker :=
        (OrderReservationHandler.record codec s.worker call event rowId createdAt outcome).1 } := by
      obtain hsame | ⟨payload, hstore, hnew, hrow, hinsert⟩ :=
        record_fst codec s.worker call event rowId createdAt outcome
      · rw [hsame]
        exact hs
      · rw [hinsert]
        exact hs.insertReservation hcodec createdAt hlinked hstore hnew hrow
    apply hworker.setCall
    unfold CallLinked
    obtain hpc' | ⟨handled, hpc'⟩ := record_returns codec s.worker call event rowId createdAt outcome
    · rw [hpc']
      trivial
    · rw [hpc']
      trivial
  | _ =>
    rw [hpc] at h
    cases h

theorem Consistent.deliverReserved {s : PipelineState π} (hs : s.Consistent codec) {k : ℕ} {m : PublishRequest π}
    (hm : s.worker.outbox.messages[k]? = some m) : (s.deliverReserved m).Consistent codec := by
  have hmem := hs.workerOutbox.known_of_message hm
  refine ⟨hs.orderOutbox, hs.workerOutbox, ⟨hs.orderService.keyed, ?_⟩, hs.orders, hs.reservations, hs.calls, ?_,
    hs.statuses⟩
  · intro r hr
    rcases List.mem_append.mp hr with hr | hr
    · exact hs.orderService.records r hr
    · obtain rfl := List.mem_singleton.mp hr
      exact ⟨trivial, rfl, fun call hcall => (nomatch hcall)⟩
  · intro r hr
    rcases List.mem_append.mp hr with hr | hr
    · exact hs.records r hr
    · obtain rfl := List.mem_singleton.mp hr
      intro event hevent
      exact ⟨entryOf m, hmem, (hs.reservations.payload _ hmem event hevent).symm⟩

theorem Consistent.reserveStep {s t : PipelineState π} (hs : s.Consistent codec) {a : OrderReservedHandler.Action}
    (h : s.reserveStep codec a = some t) : t.Consistent codec := by
  unfold PipelineState.reserveStep at h
  split_ifs at h with hhandler
  obtain ⟨service, hstep, rfl⟩ := Option.map_eq_some_iff.mp h
  have hsound := OrderReservedHandler.step_sound hs.orderService hstep
  obtain ⟨orderId, status, rfl, -⟩ | ⟨order, orderId, rfl, -, -⟩ | ⟨i, r, orders, progress, -, hr, rfl, hm⟩ :=
    OrderReservedHandler.State.step_cases hstep
  · cases hhandler
  · cases hhandler
  · have hmem := List.mem_of_getElem? hr
    have hrecord := hs.orderService.records r hmem
    have hids := (hm.spec hrecord hs.orderService.keyed).1.orderIds
    refine ⟨hs.orderOutbox, hs.workerOutbox, hsound, ⟨?_, hs.orders.eventKeys, hs.orders.eventType, hs.orders.payload⟩,
      hs.reservations,
      hs.calls, ?_, ?_⟩
    · rw [hs.orders.keys]
      have hkeys := congrArg (List.map (Option.map StrongID.value)) hids
      rw [List.map_map, List.map_map] at hkeys
      exact hkeys.symm
    · intro r' hr'
      rcases List.mem_or_eq_of_mem_set hr' with hold | rfl
      · exact hs.records r' hold
      · intro event hevent
        rw [OrderReservedHandler.payload_advance] at hevent
        exact hs.records r hmem event hevent
    · intro order ho
      obtain rfl | ⟨event, hevent, rfl⟩ := hm.orders hrecord
      · exact hs.statuses order ho
      · obtain ⟨old, hold, rfl⟩ := List.mem_map.mp ho
        split_ifs with hid
        · obtain ⟨e, he, haggregate⟩ := hs.records r hmem event hevent
          obtain ⟨named, hnamed, hkey⟩ := order_of_reserved hs.orders hs.reservations he
          rw [haggregate] at hkey
          -- the keys are unique, so the order with the event's key is the one that the reserved row names
          obtain rfl := List.inj_on_of_nodup_map hs.orderService.keyed.1 hold hnamed
            (hid.1.trans (orderKey_of_keyOf hkey).symm)
          exact .inr ⟨rfl, e, he, (congrArg some haggregate).trans hkey.symm⟩
        · exact hs.statuses old hold

theorem step_consistent {s t : PipelineState π} (hcodec : codec.KeepsStrings) {a : PipelineAction π}
    (hs : s.Consistent codec) (h : s.step codec a = some t) : t.Consistent codec := by
  cases a with
  | createOrder body orderId eventId createdAt outcome =>
    obtain rfl := Option.some.inj h
    obtain hsame | ⟨order, payload, hstatus, hstore, hid, hevent, hsaved⟩ :=
      createOrder_cases codec s body orderId eventId createdAt outcome
    · rw [hsame]
      exact hs
    · rw [hsaved]
      exact hs.insertOrder hcodec createdAt hstatus hstore hid hevent
  | orderPublisher i event => exact hs.stepOrderOutbox (fun _ => OutboxState.publisher_known) h
  | orderBroker f event => exact hs.stepOrderOutbox (fun _ => OutboxState.broker_known) h
  | workerPublisher i event => exact hs.stepWorkerOutbox (fun _ => OutboxState.publisher_known) h
  | workerBroker f event => exact hs.stepWorkerOutbox (fun _ => OutboxState.broker_known) h
  | deliverCreated k =>
    obtain ⟨m, hm, rfl⟩ := Option.map_eq_some_iff.mp h
    exact hs.deliverCreated hm
  | process i answer =>
    obtain ⟨call, hcall, hstep⟩ := Option.bind_eq_some_iff.mp h
    exact hs.processStep (List.mem_of_getElem? hcall) hstep
  | record i rowId createdAt outcome =>
    obtain ⟨call, hcall, hstep⟩ := Option.bind_eq_some_iff.mp h
    exact hs.recordStep hcodec (List.mem_of_getElem? hcall) hstep
  | deliverReserved k =>
    obtain ⟨m, hm, rfl⟩ := Option.map_eq_some_iff.mp h
    exact hs.deliverReserved hm
  | reserve a => exact hs.reserveStep h

theorem run_consistent {s : PipelineState π} (hcodec : codec.KeepsStrings) {orderPublishers workerPublishers : List Int32}
    {actions : List (PipelineAction π)}
    (h : run (step codec) (start orderPublishers workerPublishers) actions = some s) : s.Consistent codec :=
  run_invariant (fun _ _ _ hi hstep => step_consistent hcodec hi hstep) (consistent_start _ _) h

end PipelineState

end LiquidPetProject.OrderPipeline
