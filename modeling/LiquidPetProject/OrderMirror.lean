import LiquidPetProject.OrderFlowSteps
import LiquidPetProject.OrderServiceExecutions

namespace LiquidPetProject.Repository

open Models Outbox OrderReservationHandler OrderPipeline OrderService Models2JsonMapper

section Pairs

variable {α β : Type} {R : α → β → Prop} {as : List α} {bs : List β}

theorem forall₂_concat (h : List.Forall₂ R as bs) {a : α} {b : β} (hab : R a b) :
    List.Forall₂ R (as ++ [a]) (bs ++ [b]) :=
  List.rel_append h (.cons hab .nil)

theorem forall₂_maps {f : α → α} {g : β → β} (h : List.Forall₂ R as bs) (hfg : ∀ a b, R a b → R (f a) (g b)) :
    List.Forall₂ R (as.map f) (bs.map g) :=
  List.rel_map hfg h

end Pairs

variable {π : Type}

structure RowOf (row : OrderRow) (order : Order) : Prop where
  orderId : order.orderId = some row.orderId.toId
  userId : row.userId = Uuid.ofId order.userId
  status : row.status = OrderStatusMapper.toString order.status

namespace OrderTables

structure Mirrors (db : OrderTables π) (s : PipelineState π) : Prop where
  orders : List.Forall₂ RowOf db.orders s.orders
  events : entries db.outbox = s.orderOutbox.known

variable {codec : Codec π} {db : OrderTables π} {s t : PipelineState π} {id : OrderId}

theorem mirrors_start (orderPublishers workerPublishers : List Int32) :
    (OrderTables.empty : OrderTables π).Mirrors (.start orderPublishers workerPublishers) :=
  ⟨.nil, rfl⟩

theorem Mirrors.frame (h : db.Mirrors s) (horders : t.orders = s.orders)
    (hevents : t.orderOutbox.known = s.orderOutbox.known) : db.Mirrors t := by
  constructor
  · rw [horders]
    exact h.orders
  · rw [hevents]
    exact h.events

theorem entries_ids (rows : List (OutboxRow π)) : (entries rows).map OutboxEntry.id = rows.map (fun row => row.id) :=
  List.map_map

theorem rowOf_orderIds {rows : List OrderRow} {orders : List Order} (h : List.Forall₂ RowOf rows orders) :
    orders.map Order.orderId = rows.map (fun row => some row.orderId.toId) := by
  induction h with
  | nil => rfl
  | cons hrow _ ih => rw [List.map_cons, List.map_cons, ih, hrow.orderId]

theorem Mirrors.represents (h : db.Mirrors s) : db.Represents s := by
  constructor
  · unfold keys
    rw [List.map_map]
    exact rowOf_orderIds h.orders
  · rw [← entries_ids, ← entries_ids, h.events]
    rfl

theorem Mirrors.withOrder (h : db.Mirrors s) (order : Order) (generated : Uuid) (entry : OutboxEntry π) (createdAt : ℤ) :
    (db.withOrder order generated (insertOutboxEvent entry createdAt)).Mirrors
      (s.insertOrder order generated.toId entry createdAt) := by
  constructor
  · exact forall₂_concat h.orders ⟨rfl, rfl, rfl⟩
  · have hknown := OutboxState.known_addRow s.orderOutbox (insertOutboxEvent entry createdAt)
    have hentries : entries (db.outbox ++ [insertOutboxEvent entry createdAt]) =
        entries db.outbox ++ [(insertOutboxEvent entry createdAt).toOutboxEntry] := List.map_append
    rw [h.events] at hentries
    exact hentries.trans hknown.symm

theorem Represents.length (h : db.Represents s) : s.orders.length = db.orders.length := by
  have hlength := congrArg List.length h.1
  unfold keys at hlength
  simp only [List.length_map] at hlength
  exact hlength

theorem Mirrors.save {db : OrderTables String} {s : PipelineState String} (codec : TextCodec) (h : db.Mirrors s)
    (order : Order) (generated : Uuid) (eventId : OutboxEventId) (createdAt : ℤ) (outcome : CommitOutcome) :
    (db.save codec.toCodec order generated eventId createdAt outcome).1.Mirrors
      (s.save codec.toCodec order generated.toId eventId createdAt outcome).1 := by
  obtain ⟨hsaved, -⟩ := save_represents codec.toCodec h.represents order generated eventId createdAt outcome
  cases hresult : db.save codec.toCodec order generated eventId createdAt outcome with
  | mk after answer =>
    rw [hresult] at hsaved
    have hlength := hsaved.length
    have hbefore := h.represents.length
    rcases PipelineState.save_fst codec.toCodec s order generated.toId eventId createdAt outcome with
      hs | ⟨payload, hstore, -, -, hs⟩
    · rw [hs] at hlength ⊢
      rcases OrderService.save_cases hresult with ⟨rfl, -⟩ | ⟨-, -, stored, -, rfl⟩
      · exact h
      · simp only [OrderTables.withOrder, List.length_append, List.length_singleton] at hlength
        omega
    · rw [hs] at hlength ⊢
      rcases OrderService.save_cases hresult with ⟨rfl, -⟩ | ⟨-, -, stored, hstored, rfl⟩
      · simp only [PipelineState.insertOrder, PipelineState.orders, List.length_append, List.length_singleton] at hlength hbefore
        omega
      · obtain rfl := Option.some.inj (hstore.symm.trans hstored)
        exact h.withOrder order generated ⟨eventId, generated.text, "OrderCreated", payload⟩ createdAt

theorem Mirrors.create {db : OrderTables String} {s : PipelineState String} (codec : TextCodec) (h : db.Mirrors s)
    (request : Request) (generated : Uuid) (eventId : OutboxEventId) (createdAt : ℤ) (outcome : CommitOutcome) :
    (CreateOrderHandler.handle codec db request generated eventId createdAt outcome).1.Mirrors
      (s.createOrder codec.toCodec request.body generated.toId eventId createdAt outcome) := by
  unfold CreateOrderHandler.handle PipelineState.createOrder
  cases codec.parse request.body with
  | error e => cases e <;> exact h
  | ok json =>
    dsimp only
    cases OrderJsonMapper.fromJson codec.unrepresentable json with
    | error e => exact h
    | ok order =>
      have hsave := h.save codec order generated eventId createdAt outcome
      dsimp only
      cases hdb : db.save codec.toCodec order generated eventId createdAt outcome with
      | mk saved answer =>
        rw [hdb] at hsave
        cases answer with
        | error e => exact hsave
        | ok saved => exact hsave

theorem Mirrors.updateOrderStatus (h : db.Mirrors s)
    (horders : t.orders = Repository.updateOrderStatus .reserved id .created s.orders)
    (hevents : t.orderOutbox.known = s.orderOutbox.known) : (db.updateOrderStatus .reserved id .created).Mirrors t := by
  constructor
  · rw [horders]
    apply forall₂_maps h.orders
    intro row order hrow
    have hsame : orderKey order = some (Uuid.ofId id) ↔ row.orderId = Uuid.ofId id := by
      rw [orderKey_of_orderId hrow.orderId, Uuid.ofId_toId, Option.some.injEq]
    have hstatus : order.status = .created ↔ row.status = OrderStatusMapper.toString .created := by
      rw [hrow.status]
      cases order.status <;> decide
    by_cases hmatch : row.orderId = Uuid.ofId id ∧ row.status = OrderStatusMapper.toString .created
    · rw [if_pos hmatch, if_pos ⟨hsame.mpr hmatch.1, hstatus.mpr hmatch.2⟩]
      exact ⟨hrow.orderId, hrow.userId, rfl⟩
    · rw [if_neg hmatch, if_neg (fun hboth => hmatch ⟨hsame.mp hboth.1, hstatus.mp hboth.2⟩)]
      exact hrow
  · rw [hevents]
    exact h.events

theorem Mirrors.changeStatus (h : db.Mirrors s) {outcome : CommitOutcome}
    (horders : t.orders = (Repository.changeStatus s.orders id .created .reserved outcome).1)
    (hevents : t.orderOutbox.known = s.orderOutbox.known) : (db.changeStatus id .created .reserved outcome).Mirrors t := by
  cases outcome with
  | committed => exact h.updateOrderStatus horders hevents
  | failed e => exact h.frame horders hevents
  | inDoubt e => exact h.updateOrderStatus horders hevents

theorem Mirrors.status_mem (h : db.Mirrors s) {order : Order} (ho : order ∈ s.orders) {key : Uuid}
    (hkey : order.orderId = some key.toId) : OrderStatusMapper.toString order.status ∈ db.statusesOf key.toId := by
  obtain ⟨row, hrow, hrowOf⟩ := exists_left h.orders ho
  have hid : row.orderId = key := toId_injective (Option.some.inj (hrowOf.orderId.symm.trans hkey))
  unfold OrderTables.statusesOf selectOrder
  rw [List.mem_map]
  refine ⟨row, List.mem_filter.mpr ⟨hrow, ?_⟩, hrowOf.status⟩
  rw [hid, Uuid.ofId_toId]
  exact decide_eq_true rfl

theorem Mirrors.key_of_order (h : db.Mirrors s) {order : Order} (ho : order ∈ s.orders) :
    ∃ key ∈ db.keys, order.orderId = some key.toId := by
  obtain ⟨row, hrow, hrowOf⟩ := exists_left h.orders ho
  exact ⟨row.orderId, List.mem_map_of_mem hrow, hrowOf.orderId⟩

theorem Mirrors.order_of_key (h : db.Mirrors s) {key : Uuid} (hkey : key ∈ db.keys) :
    ∃ order ∈ s.orders, order.orderId = some key.toId := by
  obtain ⟨row, hrow, rfl⟩ := List.mem_map.mp hkey
  obtain ⟨order, ho, hrowOf⟩ := exists_right h.orders hrow
  exact ⟨order, ho, hrowOf.orderId⟩

end OrderTables

end LiquidPetProject.Repository
