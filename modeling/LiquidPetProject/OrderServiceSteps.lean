import LiquidPetProject.OrderPipelineInvariant
import LiquidPetProject.OrderService

namespace LiquidPetProject.Repository

open Models Outbox OrderReservationHandler

variable {π : Type}

def OrderWrite.OfService : OrderWrite → Prop
  | .save order _ _ _ _ => order.status = .created
  | .changeStatus _ fromStatus toStatus _ => fromStatus = .created ∧ toStatus = .reserved

namespace OrderTables

def Written (codec : Codec π) (a b : OrderTables π) : Prop := ∃ w : OrderWrite, w.OfService ∧ b = a.write codec w

def Evolves (codec : Codec π) : OrderTables π → OrderTables π → Prop := Relation.ReflTransGen (Written codec)

def statusesOf (db : OrderTables π) (id : OrderId) : List String := (db.selectOrder id).map OrderRow.status

def reservedStatus (status : String) : String :=
  if status = OrderStatusMapper.toString .created then OrderStatusMapper.toString .reserved else status

variable {codec : Codec π} {a b c : OrderTables π} {id : OrderId}

theorem Evolves.refl (a : OrderTables π) : Evolves codec a a := Relation.ReflTransGen.refl

theorem Evolves.trans (h : Evolves codec a b) (h' : Evolves codec b c) : Evolves codec a c :=
  Relation.ReflTransGen.trans h h'

theorem Written.evolves (h : Written codec a b) : Evolves codec a b := Relation.ReflTransGen.single h

theorem Evolves.preserves {P : OrderTables π → Prop} (hstep : ∀ a b, P a → Written codec a b → P b)
    (h : Evolves codec a b) (ha : P a) : P b := by
  induction h with
  | refl => exact ha
  | tail _ hwritten ih => exact hstep _ _ ih hwritten

theorem Evolves.consistent (h : Evolves codec a b) (ha : a.Consistent) : b.Consistent := by
  refine h.preserves ?_ ha
  rintro a _ hc ⟨w, -, rfl⟩
  exact consistent_write codec hc w

theorem Evolves.holds {users : List Uuid} {itemRows : List OrderItemRow} (h : Evolves codec a b)
    (ha : a.Holds id users itemRows) : b.Holds id users itemRows := by
  refine h.preserves (P := fun db => db.Holds id users itemRows) ?_ ha
  rintro a _ hh ⟨w, -, rfl⟩
  exact holds_write codec hh w

theorem Evolves.keys (h : Evolves codec a b) : a.keys <+: b.keys := by
  refine h.preserves (P := fun db => a.keys <+: db.keys) ?_ (List.prefix_refl _)
  rintro b _ hb ⟨w, -, rfl⟩
  rcases write_cases codec b w with hw | ⟨order, generated, event, -, hw⟩ | ⟨toStatus, changed, fromStatus, hw⟩
  · rwa [hw]
  · rw [hw, keys_withOrder]
    exact hb.trans (List.prefix_append _ _)
  · rwa [hw, keys_updateOrderStatus]

def reserveRow (changed : OrderId) (row : OrderRow) : OrderRow :=
  if row.orderId = Uuid.ofId changed ∧ row.status = OrderStatusMapper.toString .created then
    { row with status := OrderStatusMapper.toString .reserved }
  else row

theorem reserveRow_orderId (changed : OrderId) (row : OrderRow) : (reserveRow changed row).orderId = row.orderId := by
  unfold reserveRow
  split_ifs <;> rfl

theorem reserveRow_status {changed : OrderId} {row : OrderRow} (h : row.orderId = Uuid.ofId changed) :
    (reserveRow changed row).status = reservedStatus row.status := by
  unfold reserveRow reservedStatus
  by_cases hs : row.status = OrderStatusMapper.toString .created
  · rw [if_pos ⟨h, hs⟩, if_pos hs]
  · rw [if_neg (fun hc => hs hc.2), if_neg hs]

theorem reserveRow_other {changed : OrderId} {row : OrderRow} (h : row.orderId ≠ Uuid.ofId changed) :
    reserveRow changed row = row :=
  if_neg (fun hc => h hc.1)

theorem selectOrder_reserve (db : OrderTables π) (changed : OrderId) :
    (db.updateOrderStatus .reserved changed .created).selectOrder id = (db.selectOrder id).map (reserveRow changed) := by
  show (db.orders.map (reserveRow changed)).filter _ = (db.orders.filter _).map _
  rw [List.filter_map]
  congr 2
  funext row
  simp only [Function.comp_apply, reserveRow_orderId]

theorem statusesOf_reserve (db : OrderTables π) (changed : OrderId) :
    (db.updateOrderStatus .reserved changed .created).statusesOf id = db.statusesOf id ∨
      (db.updateOrderStatus .reserved changed .created).statusesOf id = (db.statusesOf id).map reservedStatus := by
  have hid : ∀ row ∈ db.selectOrder id, row.orderId = Uuid.ofId id := by
    intro row hrow
    exact of_decide_eq_true (List.mem_filter.mp hrow).2
  unfold statusesOf
  rw [selectOrder_reserve, List.map_map, List.map_map]
  by_cases hsame : Uuid.ofId id = Uuid.ofId changed
  · right
    apply List.map_congr_left
    intro row hrow
    exact reserveRow_status ((hid row hrow).trans hsame)
  · left
    apply List.map_congr_left
    intro row hrow
    have hother : row.orderId ≠ Uuid.ofId changed := fun h => hsame ((hid row hrow).symm.trans h)
    exact congrArg OrderRow.status (reserveRow_other hother)

theorem Written.statusesOf (h : Written codec a b) (hmem : Uuid.ofId id ∈ a.keys) :
    b.statusesOf id = a.statusesOf id ∨ b.statusesOf id = (a.statusesOf id).map reservedStatus := by
  obtain ⟨w, hw, rfl⟩ := h
  cases w with
  | save order generated eventId createdAt outcome =>
    rcases save_cases codec a order generated eventId createdAt outcome with hsame | ⟨hkey, event, hsaved⟩
    · exact .inl (congrArg (fun db => db.statusesOf id) hsame)
    · have hother : generated ≠ Uuid.ofId id := fun heq => hkey (heq ▸ hmem)
      left
      show (a.save codec order generated eventId createdAt outcome).1.statusesOf id = _
      unfold OrderTables.statusesOf
      rw [hsaved, selectOrder_withOrder, if_neg hother, List.append_nil]
  | changeStatus changed fromStatus toStatus outcome =>
    obtain ⟨rfl, rfl⟩ := hw
    cases outcome with
    | failed e => exact .inl rfl
    | committed => exact statusesOf_reserve a changed
    | inDoubt e => exact statusesOf_reserve a changed

theorem Evolves.statusesOf (h : Evolves codec a b) (hmem : Uuid.ofId id ∈ a.keys) :
    (a.statusesOf id = ["Created"] → b.statusesOf id = ["Created"] ∨ b.statusesOf id = ["Reserved"]) ∧
      (a.statusesOf id = ["Reserved"] → b.statusesOf id = ["Reserved"]) := by
  induction h with
  | refl => exact ⟨.inl, fun h => h⟩
  | @tail b c hevolves hwritten ih =>
    have hnext := hwritten.statusesOf ((Evolves.keys hevolves).subset hmem)
    have hreserved : b.statusesOf id = ["Reserved"] → c.statusesOf id = ["Reserved"] := by
      intro hb
      rcases hnext with hc | hc
      · rw [hc, hb]
      · rw [hc, hb]
        rfl
    refine ⟨fun ha => ?_, fun ha => hreserved (ih.2 ha)⟩
    rcases ih.1 ha with hb | hb
    · rcases hnext with hc | hc
      · rw [hc, hb]
        exact .inl rfl
      · rw [hc, hb]
        exact .inr rfl
    · exact .inr (hreserved hb)

theorem holds_key {db : OrderTables π} {other : OrderId} (hid : Uuid.ofId id = Uuid.ofId other) {users : List Uuid}
    {itemRows : List OrderItemRow} (h : db.Holds id users itemRows) : db.Holds other users itemRows := by
  unfold Holds selectOrder selectOrderItems at h ⊢
  rwa [← hid]

theorem statusesOf_key (db : OrderTables π) {other : OrderId} (hid : Uuid.ofId id = Uuid.ofId other) :
    db.statusesOf id = db.statusesOf other := by
  unfold OrderTables.statusesOf selectOrder
  rw [hid]

theorem mapM_fromRow_perm {itemRows : List OrderItemRow} {key : Uuid} {items : List OrderItem}
    (h : itemRows.Perm (items.map (itemRow key))) :
    ∃ found, found.Perm (items.map rowItem) ∧ itemRows.mapM OrderItemRowMapper.fromRow = .ok found := by
  obtain ⟨found, hread, hperm⟩ := List.perm_comp_forall₂ h (Fallible.mapM_ok.mp (fromRow_items key items))
  exact ⟨found, hperm, Fallible.mapM_ok.mpr hread⟩

theorem fromRows_ok (key user : Uuid) (status : OrderStatus) {itemRows : List OrderItemRow} {items : List OrderItem}
    (hitems : itemRows.mapM OrderItemRowMapper.fromRow = .ok items) (hne : items ≠ []) :
    OrderRowMapper.fromRows ⟨key, user, OrderStatusMapper.toString status⟩ itemRows =
      .ok ⟨user.toId, some key.toId, items, status, hne⟩ := by
  unfold OrderRowMapper.fromRows
  simp only [Uuid.create_text, OrderStatusMapper.fromString_toString, hitems, bind, Except.bind]
  unfold Order.restore
  rw [dif_neg hne]

theorem findById_holds {db : OrderTables π} {user : Uuid} {items : List OrderItem} {status : OrderStatus}
    (h : db.Holds id [user] (items.map (itemRow (Uuid.ofId id)))) (hne : items ≠ [])
    (hstatus : db.statusesOf id = [OrderStatusMapper.toString status]) {itemRows : List OrderItemRow}
    (hrows : itemRows.Perm (db.selectOrderItems id)) :
    ∃ found, db.findById id itemRows none = .ok found ∧ found.orderId = some (Uuid.ofId id).toId ∧
      found.userId = user.toId ∧ found.items.Perm (items.map rowItem) ∧ found.status = status := by
  rw [h.2.2] at hrows
  obtain ⟨found, hperm, hread⟩ := mapM_fromRow_perm hrows
  have hfound : found ≠ [] := by
    rintro rfl
    exact hne (List.map_eq_nil_iff.mp hperm.symm.eq_nil)
  refine ⟨⟨user.toId, some (Uuid.ofId id).toId, found, status, hfound⟩, ?_, rfl, rfl, hperm, rfl⟩
  unfold findById
  simp only [selectOrder_eq h hstatus]
  exact fromRows_ok (Uuid.ofId id) user status hread hfound

theorem findById_missing {db : OrderTables π} (hkey : Uuid.ofId id ∉ db.keys) (itemRows : List OrderItemRow) :
    db.findById id itemRows none = .error (.repository .notFound) := by
  unfold findById
  simp only [selectOrder_fresh hkey]

theorem statusesOf_saved {db : OrderTables π} {generated : Uuid} (hkey : generated ∉ db.keys) (order : Order)
    (event : OutboxRow π) :
    (db.withOrder order generated event).statusesOf generated.toId = [OrderStatusMapper.toString order.status] := by
  unfold OrderTables.statusesOf
  rw [selectOrder_saved hkey]
  rfl

end OrderTables

end LiquidPetProject.Repository
