import LiquidPetProject.OrderPipelineInvariant

namespace LiquidPetProject.OrderPipeline

open Models Repository Events Messaging Outbox OrderReservationHandler Models2JsonMapper Transitions FixedWidth

variable {π : Type} {codec : Codec π}

theorem names_biUnique {known : List (OutboxEntry π)} (hids : (known.map OutboxEntry.id).Nodup)
    (hkeys : (known.map OutboxEntry.aggregateId).Nodup) : Relator.BiUnique (Names known) := by
  constructor
  · rintro a b key ⟨e, he, rfl, hkey⟩ ⟨e', he', rfl, hkey'⟩
    rw [List.inj_on_of_nodup_map hkeys he he' (hkey.trans hkey'.symm)]
  · rintro eventId a b ⟨e, he, hid, rfl⟩ ⟨e', he', hid', rfl⟩
    rw [List.inj_on_of_nodup_map hids he he' (hid.trans hid'.symm)]

theorem countP_rows {rows : List (OutboxRow π)} {eventType : String}
    (h : ∀ e ∈ entries rows, e.eventType = eventType) (key : String) :
    rows.countP (fun row => row.eventType = eventType ∧ row.aggregateId = key) =
      ((entries rows).map OutboxEntry.aggregateId).count key := by
  unfold List.count entries
  rw [List.map_map, List.countP_map]
  apply List.countP_congr
  intro row hrow
  have htype : row.eventType = eventType := h _ (List.mem_map_of_mem hrow)
  simp [htype]

namespace PipelineState

def createdRows (s : PipelineState π) (key : String) : ℕ :=
  s.orderOutbox.rows.countP (fun row => row.eventType = "OrderCreated" ∧ row.aggregateId = key)

def reservedRows (s : PipelineState π) (key : String) : ℕ :=
  s.worker.outbox.rows.countP (fun row => row.eventType = "OrderReserved" ∧ row.aggregateId = key)

def ordersOf (s : PipelineState π) (key : String) : ℕ := s.orders.countP (fun order => keyOf order = some key)

namespace Consistent

variable {s : PipelineState π}

theorem orderKeys_nodup (hs : s.Consistent codec) : (s.orders.map keyOf).Nodup := by
  have hinj : Function.Injective (Option.map (fun id : OrderId => id.value)) :=
    Option.map_injective (fun _ _ => StrongID.value_injective)
  have huuids : ((s.orders.map Order.orderId).map (Option.map Uuid.ofId)).Nodup := by
    rw [List.map_map]
    exact hs.orderService.keyed.1
  have hkeys := huuids.of_map.map hinj
  rwa [List.map_map] at hkeys

theorem knownKeys_some (hs : s.Consistent codec) :
    (s.orderOutbox.known.map OutboxEntry.aggregateId).map some = s.orders.map keyOf := by
  rw [List.map_map]
  exact hs.orders.keys

theorem knownKeys_nodup (hs : s.Consistent codec) :
    (s.orderOutbox.known.map OutboxEntry.aggregateId).Nodup := by
  have hkeys := hs.orderKeys_nodup
  rw [← hs.knownKeys_some] at hkeys
  exact hkeys.of_map

theorem knownIds_nodup (hs : s.Consistent codec) : (s.orderOutbox.known.map OutboxEntry.id).Nodup := by
  have hids := hs.orderOutbox.recorded.ids
  unfold OutboxState.known entries
  rwa [List.map_map]

theorem reservedKeys_nodup (hs : s.Consistent codec) :
    (s.worker.outbox.known.map OutboxEntry.aggregateId).Nodup :=
  (List.rel_nodup (names_biUnique hs.knownIds_nodup hs.knownKeys_nodup) hs.reservations.pairs).mp
    hs.reservations.nodup

theorem mem_processed_iff (hs : s.Consistent codec) {e : OutboxEntry π} (he : e ∈ s.orderOutbox.known) :
    e.id ∈ s.worker.processed ↔ e.aggregateId ∈ s.worker.outbox.known.map OutboxEntry.aggregateId :=
  List.rel_mem (names_biUnique hs.knownIds_nodup hs.knownKeys_nodup) ⟨e, he, rfl, rfl⟩ hs.reservations.pairs

theorem mem_processed_of_knows (hs : s.Consistent codec) {e : OutboxEntry π} (he : e ∈ s.orderOutbox.known)
    (hknows : s.worker.knows e.id) : e.id ∈ s.worker.processed := by
  obtain ⟨eventId, hmem, hsame⟩ := List.mem_map.mp hknows
  obtain ⟨key, -, entry, hentry, rfl, -⟩ := exists_right hs.reservations.pairs hmem
  rwa [← List.inj_on_of_nodup_map hs.orders.eventKeys hentry he hsame]

theorem createdRows_eq (hs : s.Consistent codec) (key : String) :
    s.createdRows key = if key ∈ s.orderOutbox.known.map OutboxEntry.aggregateId then 1 else 0 := by
  unfold createdRows
  rw [countP_rows hs.orders.eventType]
  exact List.Nodup.count hs.knownKeys_nodup

theorem reservedRows_eq (hs : s.Consistent codec) (key : String) :
    s.reservedRows key = if key ∈ s.worker.outbox.known.map OutboxEntry.aggregateId then 1 else 0 := by
  unfold reservedRows
  rw [countP_rows hs.reservations.eventType]
  exact List.Nodup.count hs.reservedKeys_nodup

theorem reservedRows_eq_one_iff (hs : s.Consistent codec) (key : String) :
    s.reservedRows key = 1 ↔ key ∈ s.worker.outbox.known.map OutboxEntry.aggregateId := by
  rw [hs.reservedRows_eq]
  split_ifs with h <;> simp [h]

theorem ordersOf_eq (hs : s.Consistent codec) (key : String) :
    s.ordersOf key = if some key ∈ s.orders.map keyOf then 1 else 0 := by
  unfold ordersOf
  rw [← List.Nodup.count hs.orderKeys_nodup]
  unfold List.count
  rw [List.countP_map]
  apply List.countP_congr
  intro order _
  simp

theorem mem_orderKeys_iff (hs : s.Consistent codec) (key : String) :
    some key ∈ s.orders.map keyOf ↔ key ∈ s.orderOutbox.known.map OutboxEntry.aggregateId := by
  rw [← hs.knownKeys_some, List.mem_map_of_injective (Option.some_injective _)]

theorem order_key (hs : s.Consistent codec) {order : Order} (ho : order ∈ s.orders) :
    ∃ id, order.orderId = some id ∧ keyOf order = some id.value := by
  obtain ⟨id, hid⟩ := Option.isSome_iff_exists.mp (hs.orderService.keyed.2 order ho)
  exact ⟨id, hid, congrArg (Option.map StrongID.value) hid⟩

theorem drained (hs : s.Consistent codec) (hnone : ∀ order ∈ s.orders, order.status ≠ .created) :
    s.orders.length = s.worker.processed.length := by
  have hlen : s.orderOutbox.known.length = s.orders.length := by
    have hkeys := congrArg List.length hs.orders.keys
    rwa [List.length_map, List.length_map] at hkeys
  have hsub : s.worker.processed ⊆ s.orderOutbox.known.map OutboxEntry.id := by
    intro eventId hmem
    obtain ⟨key, -, e, he, hid, -⟩ := exists_right hs.reservations.pairs hmem
    exact hid ▸ List.mem_map_of_mem he
  have hsup : s.orderOutbox.known.map OutboxEntry.id ⊆ s.worker.processed := by
    intro eventId hmem
    obtain ⟨e, he, rfl⟩ := List.mem_map.mp hmem
    apply (hs.mem_processed_iff he).mpr
    have hkey := (hs.mem_orderKeys_iff e.aggregateId).mpr (List.mem_map_of_mem he)
    obtain ⟨order, ho, hkeyOf⟩ := List.mem_map.mp hkey
    rcases hs.statuses order ho with hcreated | ⟨-, reserved, hreserved, hsame⟩
    · exact absurd hcreated (hnone order ho)
    · rw [← Option.some.inj (hsame.trans hkeyOf)]
      exact List.mem_map_of_mem hreserved
  have hle := (List.subperm_of_subset hs.reservations.nodup hsub).length_le
  have hge := (List.subperm_of_subset hs.knownIds_nodup hsup).length_le
  rw [List.length_map] at hle hge
  omega

end Consistent

/-- The two databases agree in every state the pipeline reaches. -/
theorem pipeline_consistent (codec : Codec π) (hcodec : codec.KeepsStrings)
    (orderPublishers workerPublishers : List Int32) (actions : List (PipelineAction π)) (s : PipelineState π)
    (h : run (step codec) (start orderPublishers workerPublishers) actions = some s) :
    (∀ order ∈ s.orders, ∃ id, order.orderId = some id ∧ s.createdRows id.value = 1) ∧
      (∀ row ∈ s.orderOutbox.rows, row.eventType = "OrderCreated" ∧ s.ordersOf row.aggregateId = 1) ∧
      (∀ eventId ∈ s.worker.processed, ∃ row ∈ s.orderOutbox.rows, row.id = eventId) ∧
      (∀ row ∈ s.orderOutbox.rows, row.id ∈ s.worker.processed ↔ s.reservedRows row.aggregateId = 1) ∧
      (∀ key, s.reservedRows key ≤ 1) ∧
      (∀ order ∈ s.orders, order.status = .created ∨
        order.status = .reserved ∧ ∃ id, order.orderId = some id ∧ s.reservedRows id.value = 1) ∧
      ((∀ order ∈ s.orders, order.status ≠ .created) → s.orders.length = s.worker.processed.length) := by
  have hs : s.Consistent codec := run_consistent hcodec h
  refine ⟨?_, ?_, ?_, ?_, ?_, ?_, hs.drained⟩
  · intro order ho
    obtain ⟨id, hid, hkey⟩ := hs.order_key ho
    refine ⟨id, hid, ?_⟩
    rw [hs.createdRows_eq, if_pos]
    exact (hs.mem_orderKeys_iff id.value).mp (hkey ▸ List.mem_map_of_mem ho)
  · intro row hrow
    have hmem : row.toOutboxEntry ∈ s.orderOutbox.known := List.mem_map_of_mem hrow
    refine ⟨hs.orders.eventType _ hmem, ?_⟩
    rw [hs.ordersOf_eq, if_pos]
    exact (hs.mem_orderKeys_iff row.aggregateId).mpr (List.mem_map_of_mem (f := OutboxEntry.aggregateId) hmem)
  · intro eventId hmem
    obtain ⟨key, -, e, he, hid, -⟩ := exists_right hs.reservations.pairs hmem
    obtain ⟨row, hrow, rfl⟩ := List.mem_map.mp he
    exact ⟨row, hrow, hid⟩
  · intro row hrow
    rw [hs.reservedRows_eq_one_iff]
    exact hs.mem_processed_iff (e := row.toOutboxEntry) (List.mem_map_of_mem hrow)
  · intro key
    rw [hs.reservedRows_eq]
    split_ifs <;> omega
  · intro order ho
    rcases hs.statuses order ho with hcreated | ⟨hreserved, e, he, hsame⟩
    · exact .inl hcreated
    · obtain ⟨id, hid, hkey⟩ := hs.order_key ho
      refine .inr ⟨hreserved, id, hid, ?_⟩
      rw [hs.reservedRows_eq_one_iff, ← Option.some.inj (hsame.trans hkey)]
      exact List.mem_map_of_mem he

end PipelineState

mutual

/-- A document as the parser reads it back: a number without a sign is unsigned again. -/
def reread : Json → Json
  | .numberInteger z => if 0 ≤ z.toInt then .numberUnsigned (UInt64.ofNat z.toInt.toNat) else .numberInteger z
  | .array elements => .array (rereadElements elements)
  | .object members => .object (rereadMembers members)
  | json => json

def rereadElements : List Json → List Json
  | [] => []
  | json :: rest => reread json :: rereadElements rest

def rereadMembers : List (String × Json) → List (String × Json)
  | [] => []
  | (key, json) :: rest => (key, reread json) :: rereadMembers rest

end

def documentCodec : Codec Json := ⟨fun json => .ok (reread json), fun json => some json, fun T _ => T.cast 0⟩

theorem lookup_rereadMembers (members : List (String × Json)) (key : String) :
    lookup (rereadMembers members) key = (lookup members key).map reread := by
  induction members with
  | nil => rfl
  | cons member rest ih =>
    unfold lookup at ih ⊢
    by_cases h : member.1 = key
    · rw [rereadMembers, List.find?_cons_of_pos (by simpa using h), List.find?_cons_of_pos (by simpa using h)]
      rfl
    · rw [rereadMembers, List.find?_cons_of_neg (by simpa using h), List.find?_cons_of_neg (by simpa using h)]
      exact ih

theorem documentCodec_keepsStrings : documentCodec.KeepsStrings := by
  intro json text json' hstore hparse key s h
  obtain rfl := Option.some.inj hstore
  obtain rfl := Except.ok.inj hparse
  cases json with
  | object members =>
    change lookup members key = _ at h
    change lookup (rereadMembers members) key = _
    rw [lookup_rereadMembers, h]
    rfl
  | _ => cases h

def drainedBody : Json :=
  .object [(orderUserId, .string "550e8400-e29b-41d4-a716-446655440001"),
    (orderItems, .array [.object [(orderItemProductId, .string "550e8400-e29b-41d4-a716-446655440002"),
      (orderItemPriceAtOrderTime, .object [(moneyMinorUnits, .numberUnsigned 1999),
        (moneyCurrency, .object [(currencyCode, .string "EUR"), (currencyMinorDigits, .numberUnsigned 2)])]),
      (orderItemQuantity, .numberUnsigned 1)]])]

def drainedOrderId : OrderId := ⟨"550e8400-e29b-41d4-a716-446655440003", by decide, by decide⟩
def drainedEventId : OutboxEventId := ⟨"550e8400-e29b-41d4-a716-446655440004", by decide, by decide⟩
def reservedRowId : OutboxEventId := ⟨"550e8400-e29b-41d4-a716-446655440005", by decide, by decide⟩
def duplicateRowId : OutboxEventId := ⟨"550e8400-e29b-41d4-a716-446655440006", by decide, by decide⟩

def drainingRun : List (PipelineAction Json) :=
  [.createOrder drainedBody drainedOrderId drainedEventId 0 .committed, .orderPublisher 0 (.select (fun _ => 0)),
    .orderPublisher 0 .fetchCommitted, .orderPublisher 0 .publish, .orderBroker 0 .stored, .deliverCreated 0,
    .process 0 (.ok ()), .record 0 reservedRowId 1 (.inDoubt .inDoubtError), .deliverCreated 0, .process 1 (.ok ()),
    .record 1 duplicateRowId 2 .committed, .workerPublisher 0 (.select (fun _ => 0)),
    .workerPublisher 0 .fetchCommitted, .workerPublisher 0 .publish, .workerBroker 0 .stored, .deliverReserved 0,
    .reserve (.call 0), .reserve (.find 0 none), .reserve (.change 0 .committed)]

theorem pipeline_consistent_drained :
    ∃ s, run (PipelineState.step documentCodec) (PipelineState.start [100] [100]) drainingRun = some s ∧
      s.orders.length = 1 ∧ s.orders.length = s.worker.processed.length := by
  have hfacts : (run (PipelineState.step documentCodec) (PipelineState.start [100] [100]) drainingRun).map
      (fun s => (s.orders.length, s.orders.map Order.status)) = some (1, [.reserved]) := by decide +kernel
  obtain ⟨s, hs, hs'⟩ := Option.map_eq_some_iff.mp hfacts
  obtain ⟨hlength, hstatuses⟩ := Prod.mk.inj hs'
  have hconsistent := PipelineState.pipeline_consistent documentCodec documentCodec_keepsStrings [100] [100]
    drainingRun s hs
  refine ⟨s, hs, hlength, hconsistent.2.2.2.2.2.2 ?_⟩
  intro order ho
  have hstatus : order.status ∈ [OrderStatus.reserved] := hstatuses ▸ List.mem_map_of_mem ho
  rw [List.mem_singleton.mp hstatus]
  decide

end LiquidPetProject.OrderPipeline
