import LiquidPetProject.Order
import LiquidPetProject.RepositoryOutcome
import LiquidPetProject.Uuid

namespace LiquidPetProject.Repository

open Models

/-- The column is a uuid: two spellings of one id are one key. -/
def orderKey (o : Order) : Option Uuid := o.orderId.map Uuid.ofId

def orderKeys (orders : List Order) : List Uuid := orders.filterMap orderKey

def selectOrder (orders : List Order) (id : OrderId) : Option Order :=
  orders.find? (fun o => orderKey o = some (Uuid.ofId id))

def withStatus (o : Order) (status : OrderStatus) : Order := { o with status := status }

/-- `UPDATE orders SET status = $1 WHERE order_id = $2 AND status = $3`. -/
def updateOrderStatus (toStatus : OrderStatus) (id : OrderId) (fromStatus : OrderStatus) (orders : List Order) :
    List Order :=
  orders.map (fun o => if orderKey o = some (Uuid.ofId id) ∧ o.status = fromStatus then withStatus o toStatus else o)

def affectedRows (id : OrderId) (fromStatus : OrderStatus) (orders : List Order) : ℕ :=
  orders.countP (fun o => orderKey o = some (Uuid.ofId id) ∧ o.status = fromStatus)

def findById (orders : List Order) (id : OrderId) (failure : Option PqxxException) : Except ErrorCode Order :=
  match failure with
  | some e => .error (mapPqxxException e)
  | none =>
    match selectOrder orders id with
    | none => .error (.repository .notFound)
    | some order => .ok order

def changeStatus (orders : List Order) (id : OrderId) (fromStatus toStatus : OrderStatus) :
    CommitOutcome → List Order × Except ErrorCode Bool
  | .committed => (updateOrderStatus toStatus id fromStatus orders, .ok (0 < affectedRows id fromStatus orders))
  | .failed e => (orders, .error (mapPqxxException e))
  | .inDoubt e => (updateOrderStatus toStatus id fromStatus orders, .error (mapPqxxException e))

def Keyed (orders : List Order) : Prop := (orders.map orderKey).Nodup ∧ ∀ o ∈ orders, o.orderId.isSome = true

theorem orderKey_congr {a b : Order} (h : a.orderId = b.orderId) : orderKey a = orderKey b :=
  congrArg (Option.map Uuid.ofId) h

theorem orderKey_of_orderId {o : Order} {id : OrderId} (h : o.orderId = some id) :
    orderKey o = some (Uuid.ofId id) := by
  unfold orderKey
  rw [h, Option.map_some]

theorem map_orderKey {before after : List Order} (h : after.map Order.orderId = before.map Order.orderId) :
    after.map orderKey = before.map orderKey := by
  have hkeys := congrArg (List.map (Option.map Uuid.ofId)) h
  rwa [List.map_map, List.map_map] at hkeys

theorem mem_orderKeys {orders : List Order} {key : Uuid} : key ∈ orderKeys orders ↔ some key ∈ orders.map orderKey := by
  unfold orderKeys
  rw [List.mem_filterMap, List.mem_map]

theorem selectOrder_some {orders : List Order} {id : OrderId} {o : Order} (h : selectOrder orders id = some o) :
    o ∈ orders ∧ orderKey o = some (Uuid.ofId id) :=
  ⟨List.mem_of_find?_eq_some h, by simpa using List.find?_some h⟩

theorem selectOrder_congr {id key : OrderId} (h : Uuid.ofId id = Uuid.ofId key) (orders : List Order) :
    selectOrder orders id = selectOrder orders key := by
  unfold selectOrder
  rw [h]

theorem selectOrder_map {orders : List Order} {f : Order → Order} (hf : ∀ o, (f o).orderId = o.orderId)
    (id : OrderId) : selectOrder (orders.map f) id = (selectOrder orders id).map f := by
  unfold selectOrder
  rw [List.find?_map]
  congr 2
  funext o
  simp only [Function.comp_apply, orderKey_congr (hf o)]

theorem selectOrder_updateOrderStatus (toStatus fromStatus : OrderStatus) (id key : OrderId) (orders : List Order) :
    selectOrder (updateOrderStatus toStatus id fromStatus orders) key =
      (selectOrder orders key).map
        (fun o => if orderKey o = some (Uuid.ofId id) ∧ o.status = fromStatus then withStatus o toStatus else o) := by
  apply selectOrder_map
  intro o
  split_ifs <;> rfl

theorem affectedRows_pos {id : OrderId} {fromStatus : OrderStatus} {orders : List Order} :
    0 < affectedRows id fromStatus orders ↔
      ∃ o ∈ orders, orderKey o = some (Uuid.ofId id) ∧ o.status = fromStatus := by
  unfold affectedRows
  rw [List.countP_pos_iff]
  simp only [decide_eq_true_eq]

end LiquidPetProject.Repository
