import LiquidPetProject.OrderPipeline
import LiquidPetProject.OrderRows

namespace LiquidPetProject.Repository

open FixedWidth Models Outbox OrderReservationHandler Models2JsonMapper

variable {π : Type}

structure OrderTables (π : Type) where
  orders : List OrderRow
  items : List OrderItemRow
  outbox : List (OutboxRow π)

namespace OrderTables

def empty : OrderTables π := ⟨[], [], []⟩

def keys (db : OrderTables π) : List Uuid := db.orders.map OrderRow.orderId

def saveStatements (codec : Codec π) (db : OrderTables π) (order : Order) (generated : Uuid)
    (eventId : OutboxEventId) (createdAt : ℤ) : Except ErrorCode (OrderTables π × OrderId) :=
  match insertOrder db.keys generated order.userId.value (OrderStatusMapper.toString order.status) with
  | .error e => .error (mapPqxxException e)
  | .ok orderRow =>
    match order.items.mapM (insertItem (orderRow.orderId :: db.keys) orderRow.orderId.text) with
    | .error e => .error (mapPqxxException e)
    | .ok itemRows =>
      match (StrongID.create orderRow.orderId.text : Except ErrorCode OrderId) with
      | .error e => .error e
      | .ok orderId =>
        match codec.store (OrderJsonMapper.toJson (order.assignId orderId)) with
        | none => .error (mapPqxxException .other)
        | some payload =>
          if Uuid.ofId eventId ∈ rowKeys db.outbox then .error (mapPqxxException .uniqueViolation)
          else
            .ok (⟨db.orders ++ [orderRow], db.items ++ itemRows,
              db.outbox ++ [insertOutboxEvent ⟨eventId, orderRow.orderId.text, "OrderCreated", payload⟩ createdAt]⟩,
              orderId)

def save (codec : Codec π) (db : OrderTables π) (order : Order) (generated : Uuid) (eventId : OutboxEventId)
    (createdAt : ℤ) (outcome : CommitOutcome) : OrderTables π × Except ErrorCode OrderId :=
  match db.saveStatements codec order generated eventId createdAt with
  | .error e => (db, .error e)
  | .ok (saved, orderId) =>
    match outcome with
    | .committed => (saved, .ok orderId)
    | .failed e => (db, .error (mapPqxxException e))
    | .inDoubt e => (saved, .error (mapPqxxException e))

def selectOrder (db : OrderTables π) (id : OrderId) : List OrderRow :=
  db.orders.filter (fun row => row.orderId = Uuid.ofId id)

def selectOrderItems (db : OrderTables π) (id : OrderId) : List OrderItemRow :=
  db.items.filter (fun row => row.orderId = Uuid.ofId id)

/-- `itemRows` is the answer to the second `SELECT`, `failure` an exception of one of the statements. -/
def findById (db : OrderTables π) (id : OrderId) (itemRows : List OrderItemRow) (failure : Option PqxxException) :
    Except ErrorCode Order :=
  match failure with
  | some e => .error (mapPqxxException e)
  | none =>
    match db.selectOrder id with
    | [] => .error (.repository .notFound)
    | [orderRow] => OrderRowMapper.fromRows orderRow itemRows
    | _ => .error (mapPqxxException .other)

def updateOrderStatus (db : OrderTables π) (toStatus : OrderStatus) (id : OrderId) (fromStatus : OrderStatus) :
    OrderTables π :=
  { db with orders := db.orders.map (fun row =>
      if row.orderId = Uuid.ofId id ∧ row.status = OrderStatusMapper.toString fromStatus then
        { row with status := OrderStatusMapper.toString toStatus }
      else row) }

def changeStatus (db : OrderTables π) (id : OrderId) (fromStatus toStatus : OrderStatus) :
    CommitOutcome → OrderTables π
  | .committed => db.updateOrderStatus toStatus id fromStatus
  | .failed _ => db
  | .inDoubt _ => db.updateOrderStatus toStatus id fromStatus

end OrderTables

inductive OrderWrite
  | save (order : Order) (generated : Uuid) (eventId : OutboxEventId) (createdAt : ℤ) (outcome : CommitOutcome)
  | changeStatus (id : OrderId) (fromStatus toStatus : OrderStatus) (outcome : CommitOutcome)

namespace OrderTables

def write (codec : Codec π) (db : OrderTables π) : OrderWrite → OrderTables π
  | .save order generated eventId createdAt outcome => (db.save codec order generated eventId createdAt outcome).1
  | .changeStatus id fromStatus toStatus outcome => db.changeStatus id fromStatus toStatus outcome

def run (codec : Codec π) (db : OrderTables π) (writes : List OrderWrite) : OrderTables π :=
  writes.foldl (write codec) db

def withOrder (db : OrderTables π) (order : Order) (generated : Uuid) (event : OutboxRow π) : OrderTables π where
  orders := db.orders ++ [⟨generated, Uuid.ofId order.userId, OrderStatusMapper.toString order.status⟩]
  items := db.items ++ order.items.map (itemRow generated)
  outbox := db.outbox ++ [event]

theorem saveStatements_ok {codec : Codec π} {db saved : OrderTables π} {order : Order} {generated : Uuid}
    {eventId : OutboxEventId} {createdAt : ℤ} {id : OrderId}
    (h : db.saveStatements codec order generated eventId createdAt = .ok (saved, id)) :
    generated ∉ db.keys ∧ id = generated.toId ∧ ∃ event, saved = db.withOrder order generated event := by
  unfold saveStatements at h
  by_cases hkey : generated ∈ db.keys
  · rw [insertOrder_duplicate hkey] at h
    cases h
  · rw [insertOrder_eq hkey] at h
    simp only [insertItems_eq (List.mem_cons_self), Uuid.create_text] at h
    split at h
    · cases h
    · split_ifs at h
      obtain ⟨rfl, rfl⟩ := Prod.mk.inj (Except.ok.inj h)
      exact ⟨hkey, rfl, _, rfl⟩

theorem save_ok {codec : Codec π} {db saved : OrderTables π} {order : Order} {generated : Uuid}
    {eventId : OutboxEventId} {createdAt : ℤ} {outcome : CommitOutcome} {id : OrderId}
    (h : db.save codec order generated eventId createdAt outcome = (saved, .ok id)) :
    generated ∉ db.keys ∧ id = generated.toId ∧ ∃ event, saved = db.withOrder order generated event := by
  unfold save at h
  cases hs : db.saveStatements codec order generated eventId createdAt with
  | error e =>
    rw [hs] at h
    cases (Prod.mk.inj h).2
  | ok answer =>
    rw [hs] at h
    cases outcome with
    | committed =>
      obtain ⟨rfl, hid⟩ := Prod.mk.inj h
      obtain rfl := Except.ok.inj hid
      exact saveStatements_ok hs
    | failed e => cases (Prod.mk.inj h).2
    | inDoubt e => cases (Prod.mk.inj h).2

theorem save_fresh {codec : Codec π} {db : OrderTables π} {order : Order} {generated : Uuid}
    {eventId : OutboxEventId} {payload : π} (hkey : generated ∉ db.keys)
    (hstore : codec.store (OrderJsonMapper.toJson (order.assignId generated.toId)) = some payload)
    (hevent : Uuid.ofId eventId ∉ rowKeys db.outbox) (createdAt : ℤ) :
    db.save codec order generated eventId createdAt .committed =
      (db.withOrder order generated
        (insertOutboxEvent ⟨eventId, generated.text, "OrderCreated", payload⟩ createdAt), .ok generated.toId) := by
  unfold save saveStatements
  rw [insertOrder_eq hkey]
  simp only [insertItems_eq (List.mem_cons_self), Uuid.create_text, hstore]
  rw [if_neg hevent]
  rfl

theorem save_cases (codec : Codec π) (db : OrderTables π) (order : Order) (generated : Uuid)
    (eventId : OutboxEventId) (createdAt : ℤ) (outcome : CommitOutcome) :
    (db.save codec order generated eventId createdAt outcome).1 = db ∨
      generated ∉ db.keys ∧
        ∃ event, (db.save codec order generated eventId createdAt outcome).1 = db.withOrder order generated event := by
  unfold save
  cases hs : db.saveStatements codec order generated eventId createdAt with
  | error e => exact Or.inl rfl
  | ok answer =>
    obtain ⟨hkey, -, event, hsaved⟩ := saveStatements_ok hs
    cases outcome with
    | committed => exact Or.inr ⟨hkey, event, hsaved⟩
    | failed e => exact Or.inl rfl
    | inDoubt e => exact Or.inr ⟨hkey, event, hsaved⟩

def Consistent (db : OrderTables π) : Prop := ∀ row ∈ db.items, row.orderId ∈ db.keys

@[simp] theorem keys_withOrder (db : OrderTables π) (order : Order) (generated : Uuid) (event : OutboxRow π) :
    (db.withOrder order generated event).keys = db.keys ++ [generated] := by
  simp [keys, withOrder]

@[simp] theorem keys_updateOrderStatus (db : OrderTables π) (toStatus fromStatus : OrderStatus) (id : OrderId) :
    (db.updateOrderStatus toStatus id fromStatus).keys = db.keys := by
  unfold keys updateOrderStatus
  rw [List.map_map]
  apply List.map_congr_left
  intro row _
  simp only [Function.comp_apply]
  split_ifs <;> rfl

theorem consistent_withOrder {db : OrderTables π} (hc : db.Consistent) (order : Order) (generated : Uuid)
    (event : OutboxRow π) : (db.withOrder order generated event).Consistent := by
  intro row hrow
  rw [keys_withOrder, List.mem_append]
  rcases List.mem_append.mp hrow with hold | hnew
  · exact Or.inl (hc row hold)
  · obtain ⟨item, -, rfl⟩ := List.mem_map.mp hnew
    exact Or.inr (List.mem_singleton_self _)

theorem consistent_updateOrderStatus {db : OrderTables π} (hc : db.Consistent) (toStatus fromStatus : OrderStatus)
    (id : OrderId) : (db.updateOrderStatus toStatus id fromStatus).Consistent := by
  intro row hrow
  rw [keys_updateOrderStatus]
  exact hc row hrow

theorem write_cases (codec : Codec π) (db : OrderTables π) (w : OrderWrite) :
    db.write codec w = db ∨
      (∃ order generated event, generated ∉ db.keys ∧ db.write codec w = db.withOrder order generated event) ∨
      ∃ toStatus id fromStatus, db.write codec w = db.updateOrderStatus toStatus id fromStatus := by
  cases w with
  | save order generated eventId createdAt outcome =>
    rcases save_cases codec db order generated eventId createdAt outcome with hsame | ⟨hkey, event, hsaved⟩
    · exact Or.inl hsame
    · exact Or.inr (Or.inl ⟨order, generated, event, hkey, hsaved⟩)
  | changeStatus id fromStatus toStatus outcome =>
    cases outcome with
    | committed => exact Or.inr (Or.inr ⟨toStatus, id, fromStatus, rfl⟩)
    | failed e => exact Or.inl rfl
    | inDoubt e => exact Or.inr (Or.inr ⟨toStatus, id, fromStatus, rfl⟩)

theorem consistent_write (codec : Codec π) {db : OrderTables π} (hc : db.Consistent) (w : OrderWrite) :
    (db.write codec w).Consistent := by
  rcases write_cases codec db w with h | ⟨order, generated, event, -, h⟩ | ⟨toStatus, id, fromStatus, h⟩
  · rwa [h]
  · rw [h]
    exact consistent_withOrder hc order generated event
  · rw [h]
    exact consistent_updateOrderStatus hc toStatus fromStatus id

theorem consistent_run (codec : Codec π) {db : OrderTables π} (hc : db.Consistent) (writes : List OrderWrite) :
    (db.run codec writes).Consistent := by
  induction writes generalizing db with
  | nil => exact hc
  | cons w writes ih => exact ih (consistent_write codec hc w)

theorem consistent_empty : (empty : OrderTables π).Consistent := fun _ hrow => absurd hrow List.not_mem_nil

variable {db : OrderTables π} {id : OrderId}

theorem selectOrder_fresh (hkey : Uuid.ofId id ∉ db.keys) : db.selectOrder id = [] := by
  unfold selectOrder
  rw [List.filter_eq_nil_iff]
  intro row hrow
  rw [decide_eq_true_eq]
  intro hid
  exact hkey (List.mem_map.mpr ⟨row, hrow, hid⟩)

theorem selectOrderItems_fresh (hc : db.Consistent) (hkey : Uuid.ofId id ∉ db.keys) : db.selectOrderItems id = [] := by
  unfold selectOrderItems
  rw [List.filter_eq_nil_iff]
  intro row hrow
  rw [decide_eq_true_eq]
  intro hid
  exact hkey (hid ▸ hc row hrow)

theorem selectOrder_withOrder (db : OrderTables π) (order : Order) (generated : Uuid) (event : OutboxRow π) :
    (db.withOrder order generated event).selectOrder id =
      db.selectOrder id ++ if generated = Uuid.ofId id then
        [⟨generated, Uuid.ofId order.userId, OrderStatusMapper.toString order.status⟩] else [] := by
  unfold selectOrder withOrder
  rw [List.filter_append, List.filter_singleton]
  by_cases hid : generated = Uuid.ofId id
  · simp [hid]
  · simp [hid]

theorem selectOrderItems_withOrder (db : OrderTables π) (order : Order) (generated : Uuid) (event : OutboxRow π) :
    (db.withOrder order generated event).selectOrderItems id =
      db.selectOrderItems id ++ if generated = Uuid.ofId id then order.items.map (itemRow generated) else [] := by
  unfold selectOrderItems withOrder
  rw [List.filter_append]
  congr 1
  split_ifs with hid
  · apply List.filter_eq_self.mpr
    intro row hrow
    obtain ⟨item, -, rfl⟩ := List.mem_map.mp hrow
    exact decide_eq_true hid
  · apply List.filter_eq_nil_iff.mpr
    intro row hrow
    obtain ⟨item, -, rfl⟩ := List.mem_map.mp hrow
    rw [decide_eq_true_eq]
    exact hid

theorem userId_updateOrderStatus (db : OrderTables π) (toStatus fromStatus : OrderStatus) (changed : OrderId) :
    ((db.updateOrderStatus toStatus changed fromStatus).selectOrder id).map OrderRow.userId =
      (db.selectOrder id).map OrderRow.userId := by
  unfold selectOrder updateOrderStatus
  rw [List.filter_map, List.map_map]
  have hid : ((fun row : OrderRow => decide (row.orderId = Uuid.ofId id)) ∘ fun row =>
      if row.orderId = Uuid.ofId changed ∧ row.status = OrderStatusMapper.toString fromStatus then
        { row with status := OrderStatusMapper.toString toStatus }
      else row) = fun row => decide (row.orderId = Uuid.ofId id) := by
    funext row
    simp only [Function.comp_apply]
    split_ifs <;> rfl
  rw [hid]
  apply List.map_congr_left
  intro row _
  simp only [Function.comp_apply]
  split_ifs <;> rfl

def Holds (db : OrderTables π) (id : OrderId) (users : List Uuid) (itemRows : List OrderItemRow) : Prop :=
  Uuid.ofId id ∈ db.keys ∧ (db.selectOrder id).map OrderRow.userId = users ∧ db.selectOrderItems id = itemRows

theorem holds_withOrder {users : List Uuid} {itemRows : List OrderItemRow} (h : db.Holds id users itemRows)
    (order : Order) {generated : Uuid} (hkey : generated ∉ db.keys) (event : OutboxRow π) :
    (db.withOrder order generated event).Holds id users itemRows := by
  obtain ⟨hmem, hrow, hitems⟩ := h
  have hother : generated ≠ Uuid.ofId id := fun heq => hkey (heq ▸ hmem)
  refine ⟨?_, ?_, ?_⟩
  · rw [keys_withOrder]
    exact List.mem_append_left _ hmem
  · rw [selectOrder_withOrder, if_neg hother, List.append_nil, hrow]
  · rw [selectOrderItems_withOrder, if_neg hother, List.append_nil, hitems]

theorem holds_write (codec : Codec π) {users : List Uuid} {itemRows : List OrderItemRow} (h : db.Holds id users itemRows)
    (w : OrderWrite) : (db.write codec w).Holds id users itemRows := by
  rcases write_cases codec db w with hw | ⟨order, generated, event, hkey, hw⟩ | ⟨toStatus, changed, fromStatus, hw⟩
  · rwa [hw]
  · rw [hw]
    exact holds_withOrder h order hkey event
  · obtain ⟨hmem, hrow, hitems⟩ := h
    rw [hw]
    refine ⟨?_, ?_, hitems⟩
    · rwa [keys_updateOrderStatus]
    · rwa [userId_updateOrderStatus]

theorem holds_run (codec : Codec π) {users : List Uuid} {itemRows : List OrderItemRow} (h : db.Holds id users itemRows)
    (writes : List OrderWrite) : (db.run codec writes).Holds id users itemRows := by
  induction writes generalizing db with
  | nil => exact h
  | cons w writes ih => exact ih (holds_write codec h w)

theorem selectOrder_saved {generated : Uuid} (hkey : generated ∉ db.keys) (order : Order) (event : OutboxRow π) :
    (db.withOrder order generated event).selectOrder generated.toId =
      [⟨generated, Uuid.ofId order.userId, OrderStatusMapper.toString order.status⟩] := by
  have hgenerated : Uuid.ofId (generated.toId : OrderId) = generated := Uuid.ofId_toId generated
  rw [selectOrder_withOrder, hgenerated, if_pos rfl, selectOrder_fresh (by rwa [hgenerated]), List.nil_append]

theorem holds_save (hc : db.Consistent) {generated : Uuid} (hkey : generated ∉ db.keys) (order : Order)
    (event : OutboxRow π) :
    (db.withOrder order generated event).Holds generated.toId [Uuid.ofId order.userId]
      (order.items.map (itemRow generated)) := by
  have hgenerated : Uuid.ofId (generated.toId : OrderId) = generated := Uuid.ofId_toId generated
  refine ⟨?_, ?_, ?_⟩
  · rw [keys_withOrder, hgenerated]
    exact List.mem_append_right _ (List.mem_singleton_self _)
  · rw [selectOrder_saved hkey]
    rfl
  · rw [selectOrderItems_withOrder, hgenerated, if_pos rfl, selectOrderItems_fresh hc (by rwa [hgenerated]),
      List.nil_append]

theorem selectOrder_eq {user : Uuid} {itemRows : List OrderItemRow} {status : String}
    (h : db.Holds id [user] itemRows) (hstatus : (db.selectOrder id).map OrderRow.status = [status]) :
    db.selectOrder id = [⟨Uuid.ofId id, user, status⟩] := by
  have huser := h.2.1
  have hid : ∀ row ∈ db.selectOrder id, row.orderId = Uuid.ofId id := by
    intro row hrow
    exact of_decide_eq_true (List.mem_filter.mp hrow).2
  cases hrows : db.selectOrder id with
  | nil =>
    rw [hrows] at huser
    cases huser
  | cons row rest =>
    rw [hrows] at huser hstatus hid
    obtain ⟨huser, hrest⟩ := List.cons.inj huser
    have hstatus := (List.cons.inj hstatus).1
    obtain rfl := List.map_eq_nil_iff.mp hrest
    have hrow := hid row List.mem_cons_self
    cases row
    cases huser
    cases hstatus
    cases hrow
    rfl

theorem fromRows_iff {order : Order} (key user : Uuid) (itemRows : List OrderItemRow) :
    OrderRowMapper.fromRows ⟨key, user, OrderStatusMapper.toString order.status⟩ itemRows =
        .ok (order.assignId key.toId) ↔
      user.toId = order.userId ∧ itemRows.mapM OrderItemRowMapper.fromRow = .ok order.items := by
  obtain ⟨userId, orderId, items, status, hne⟩ := order
  unfold OrderRowMapper.fromRows
  simp only [Uuid.create_text, OrderStatusMapper.fromString_toString, bind, Except.bind]
  cases itemRows.mapM OrderItemRowMapper.fromRow with
  | error e => simp
  | ok found =>
    simp only [Order.restore, Order.assignId, Except.ok.injEq]
    split_ifs with hempty
    · have hother : found ≠ items := fun heq => hne (heq ▸ hempty)
      simp [hother]
    · simp

/-- A saved order is read back unchanged if no id of it has a second spelling and the rows of its items come in
the order in which they were inserted. -/
theorem findById_save (codec : Codec π) (before later : List OrderWrite) {userId : UserId} {items : List OrderItem}
    {order : Order} (hcreate : Order.create userId items = .ok order) {generated : Uuid} {eventId : OutboxEventId}
    {createdAt : ℤ} {outcome : CommitOutcome} {saved : OrderTables π} {id : OrderId}
    (hsave : (empty.run codec before).save codec order generated eventId createdAt outcome = (saved, .ok id))
    (hstatus : ((saved.run codec later).selectOrder id).map OrderRow.status =
      (saved.selectOrder id).map OrderRow.status)
    {itemRows : List OrderItemRow} (hselect : itemRows.Perm ((saved.run codec later).selectOrderItems id)) :
    (saved.run codec later).findById id itemRows none = .ok (order.assignId id) ↔
      canonicalText userId.value = userId.value ∧
        (∀ item ∈ items, canonicalText item.productId.value = item.productId.value) ∧
        itemRows = (saved.run codec later).selectOrderItems id := by
  obtain ⟨hkey, rfl, event, rfl⟩ := save_ok hsave
  obtain ⟨rfl, -, rfl, -⟩ := Order.create_fields hcreate
  have hsaved := holds_save (consistent_run codec consistent_empty before) hkey order event
  have hfound := holds_run codec hsaved later
  have hitems := hfound.2.2
  rw [selectOrder_saved hkey] at hstatus
  have hread := selectOrder_eq hfound hstatus
  rw [Uuid.ofId_toId] at hread
  rw [hitems] at hselect ⊢
  unfold findById
  simp only [hread]
  rw [fromRows_iff, Uuid.toId_ofId, fromRow_items_iff]
  intro row hmem
  obtain ⟨item, -, hitem⟩ := List.mem_map.mp (hselect.mem_iff.mp hmem)
  exact ⟨item, hitem.symm⟩

def Represents (db : OrderTables π) (s : OrderPipeline.PipelineState π) : Prop :=
  s.orders.map Order.orderId = db.keys.map (fun key => some key.toId) ∧
    s.orderOutbox.rows.map (fun row => row.id) = db.outbox.map (fun row => row.id)

theorem toId_injective {a b : Uuid} (h : (a.toId : OrderId) = b.toId) : a = b := by
  have hback : Uuid.ofId (a.toId : OrderId) = b := by rw [h, Uuid.ofId_toId]
  rwa [Uuid.ofId_toId] at hback

theorem Represents.mem_keys {s : OrderPipeline.PipelineState π} (h : db.Represents s) {key : Uuid} :
    key ∈ orderKeys s.orders ↔ key ∈ db.keys := by
  have hkeys := congrArg (List.map (Option.map Uuid.ofId)) h.1
  rw [List.map_map, List.map_map] at hkeys
  have hstored : s.orders.map orderKey = db.keys.map some := by
    refine hkeys.trans (List.map_congr_left ?_)
    intro key _
    rw [Function.comp_apply, Option.map_some, Uuid.ofId_toId]
  rw [mem_orderKeys, hstored, List.mem_map_of_injective (Option.some_injective _)]

theorem Represents.rowKeys {s : OrderPipeline.PipelineState π} (h : db.Represents s) :
    rowKeys s.orderOutbox.rows = rowKeys db.outbox := by
  have hkeys := congrArg (List.map Uuid.ofId) h.2
  rwa [List.map_map, List.map_map] at hkeys

theorem represents_withOrder {s : OrderPipeline.PipelineState π} (h : db.Represents s) (order : Order)
    (generated : Uuid) (entry : OutboxEntry π) (createdAt : ℤ) :
    (db.withOrder order generated (insertOutboxEvent entry createdAt)).Represents
      (s.insertOrder order generated.toId entry createdAt) := by
  obtain ⟨horders, hevents⟩ := h
  constructor
  · rw [keys_withOrder, List.map_append, ← horders]
    exact List.map_append
  · simp only [withOrder, OrderPipeline.PipelineState.insertOrder, OutboxState.addRow, List.map_append, hevents]

theorem findById_saved {generated : Uuid} (hkey : generated ∉ db.keys) (order : Order) (event : OutboxRow π)
    {items : List OrderItem} (hne : items ≠ []) :
    (db.withOrder order generated event).findById generated.toId (items.map (itemRow generated)) none =
      .ok ⟨(Uuid.ofId order.userId).toId, some generated.toId, items.map rowItem, order.status,
        mt List.map_eq_nil_iff.mp hne⟩ := by
  unfold findById OrderRowMapper.fromRows
  simp only [selectOrder_saved hkey, Uuid.create_text, OrderStatusMapper.fromString_toString, fromRow_items, bind,
    Except.bind]
  unfold Order.restore
  rw [dif_neg (mt List.map_eq_nil_iff.mp hne)]

theorem save_represents (codec : Codec π) {s : OrderPipeline.PipelineState π} (h : db.Represents s) (order : Order)
    (generated : Uuid) (eventId : OutboxEventId) (createdAt : ℤ) (outcome : CommitOutcome) :
    (db.save codec order generated eventId createdAt outcome).1.Represents
        (s.save codec order generated.toId eventId createdAt outcome).1 ∧
      (db.save codec order generated eventId createdAt outcome).2 =
        (s.save codec order generated.toId eventId createdAt outcome).2 := by
  have hkey : Uuid.ofId (generated.toId : OrderId) ∈ orderKeys s.orders ↔ generated ∈ db.keys := by
    rw [Uuid.ofId_toId, h.mem_keys]
  unfold save saveStatements OrderPipeline.PipelineState.save
  by_cases hmem : generated ∈ db.keys
  · rw [insertOrder_duplicate hmem, if_pos (hkey.mpr hmem)]
    exact ⟨h, rfl⟩
  · rw [insertOrder_eq hmem, if_neg (mt hkey.mp hmem), h.rowKeys]
    simp only [insertItems_eq (List.mem_cons_self), Uuid.create_text]
    cases codec.store (OrderJsonMapper.toJson (order.assignId generated.toId)) with
    | none => exact ⟨h, rfl⟩
    | some payload =>
      simp only
      split_ifs
      · exact ⟨h, rfl⟩
      · have hsaved := represents_withOrder h order generated ⟨eventId, generated.text, "OrderCreated", payload⟩ createdAt
        cases outcome with
        | committed => exact ⟨hsaved, rfl⟩
        | failed e => exact ⟨h, rfl⟩
        | inDoubt e => exact ⟨hsaved, rfl⟩

end OrderTables

def tableCodec : Codec Json := ⟨fun json => .ok json, fun json => some json, fun T _ => T.cast 0⟩

def tableKey : Uuid := ⟨"550e8400-e29b-41d4-a716-446655440070", by decide, by decide⟩

def tableEvent : OutboxEventId := ⟨"550e8400-e29b-41d4-a716-446655440071", by decide, by decide⟩

def tableUser : UserId := ⟨"550e8400-e29b-41d4-a716-446655440072", by decide, by decide⟩

def upperCaseUser : UserId := ⟨"550E8400-E29B-41D4-A716-446655440072", by decide, by decide⟩

def tableItem (productId : ProductId) : OrderItem where
  productId := productId
  quantity := ⟨5, by decide⟩
  priceAtOrderTime := ⟨⟨860, by decide⟩, ⟨"CLF", ⟨4, by decide⟩, by decide, by decide⟩, by decide⟩
  positive := by decide

def tableItems : List OrderItem :=
  [tableItem ⟨"550e8400-e29b-41d4-a716-446655440073", by decide, by decide⟩,
    tableItem ⟨"550e8400-e29b-41d4-a716-446655440074", by decide, by decide⟩]

def tableOrder (userId : UserId) : Order := ⟨userId, none, tableItems, .created, by decide⟩

theorem create_tableOrder (userId : UserId) : Order.create userId tableItems = .ok (tableOrder userId) := rfl

namespace OrderTables

def tablesOf (order : Order) : OrderTables Json :=
  empty.withOrder order tableKey (insertOutboxEvent ⟨tableEvent, tableKey.text, "OrderCreated",
    OrderJsonMapper.toJson (order.assignId tableKey.toId)⟩ 0)

theorem save_tableOrder (order : Order) :
    (empty : OrderTables Json).save tableCodec order tableKey tableEvent 0 .committed =
      (tablesOf order, .ok tableKey.toId) :=
  save_fresh List.not_mem_nil rfl List.not_mem_nil 0

theorem findById_save_unchanged :
    ∃ order saved id, Order.create tableUser tableItems = .ok order ∧
      (empty : OrderTables Json).save tableCodec order tableKey tableEvent 0 .committed = (saved, .ok id) ∧
      saved.findById id (saved.selectOrderItems id) none = .ok (order.assignId id) := by
  refine ⟨tableOrder tableUser, tablesOf (tableOrder tableUser), tableKey.toId, rfl, save_tableOrder _, ?_⟩
  exact (findById_save tableCodec [] [] (create_tableOrder tableUser) (save_tableOrder (tableOrder tableUser)) rfl (List.Perm.refl _)).mpr
    ⟨by decide +kernel, by decide +kernel, rfl⟩

/-- A user id in upper case comes back in lower case, and two items can come back in the other order. -/
theorem saved_order_changed :
    (∃ order saved id found, Order.create upperCaseUser tableItems = .ok order ∧
      (empty : OrderTables Json).save tableCodec order tableKey tableEvent 0 .committed = (saved, .ok id) ∧
      saved.findById id (saved.selectOrderItems id) none = .ok found ∧ found.userId ≠ order.userId) ∧
    ∃ order saved id itemRows found, Order.create tableUser tableItems = .ok order ∧
      (empty : OrderTables Json).save tableCodec order tableKey tableEvent 0 .committed = (saved, .ok id) ∧
      itemRows.Perm (saved.selectOrderItems id) ∧
      saved.findById id itemRows none = .ok found ∧ found.items ≠ order.items := by
  constructor
  · refine ⟨tableOrder upperCaseUser, tablesOf (tableOrder upperCaseUser), tableKey.toId, _, rfl, save_tableOrder _,
      findById_saved List.not_mem_nil (tableOrder upperCaseUser) _ (tableOrder upperCaseUser).nonempty, ?_⟩
    exact mt Uuid.toId_ofId.mp (by decide +kernel)
  · refine ⟨tableOrder tableUser, tablesOf (tableOrder tableUser), tableKey.toId,
      tableItems.reverse.map (itemRow tableKey), _, rfl, save_tableOrder _, ?_,
      findById_saved List.not_mem_nil (tableOrder tableUser) _ (by decide), ?_⟩
    · have hholds : (tablesOf (tableOrder tableUser)).Holds tableKey.toId [Uuid.ofId tableUser]
          (tableItems.map (itemRow tableKey)) := holds_save consistent_empty List.not_mem_nil _ _
      rw [hholds.2.2]
      exact (List.reverse_perm tableItems).map (itemRow tableKey)
    · decide +kernel

end OrderTables

end LiquidPetProject.Repository
