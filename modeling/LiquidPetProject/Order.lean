import LiquidPetProject.FixedWidth
import LiquidPetProject.StrongID

namespace LiquidPetProject.Models

open FixedWidth

structure Currency where
  code : String
  minorDigits : IntegerType.int8.Value
  nonnegative : 0 ≤ minorDigits.val
  nonempty : code.isEmpty = false
  deriving DecidableEq

structure Money where
  minorUnits : IntegerType.int64.Value
  currency : Currency
  nonnegative : 0 ≤ minorUnits.val
  deriving DecidableEq

structure OrderItem where
  productId : ProductId
  quantity : IntegerType.int.Value
  priceAtOrderTime : Money
  positive : 0 < quantity.val
  deriving DecidableEq

inductive OrderStatus
  | created | reserved | shipped | cancelled
  deriving DecidableEq, Repr

structure Order where
  userId : UserId
  orderId : Option OrderId
  items : List OrderItem
  status : OrderStatus
  nonempty : items ≠ []
  deriving DecidableEq

namespace Currency

def create (code : String) (minorDigits : IntegerType.int8.Value) : Except ErrorCode Currency :=
  if hd : minorDigits.val < 0 then .error (.currency .negativeAmount)
  else if hc : code.isEmpty = true then .error (.currency .emptyCurrency)
  else .ok ⟨code, minorDigits, by omega, nonempty_of_not_isEmpty hc⟩

theorem create_fields {code : String} {minorDigits : IntegerType.int8.Value} {currency : Currency}
    (h : create code minorDigits = .ok currency) :
    currency.code = code ∧ currency.minorDigits = minorDigits := by
  unfold create at h
  split_ifs at h
  obtain rfl := Except.ok.inj h
  exact ⟨rfl, rfl⟩

end Currency

namespace Money

def create (minorUnits : IntegerType.int64.Value) (currency : Currency) : Except ErrorCode Money :=
  if h : minorUnits.val < 0 then .error (.money .negativeAmount)
  else .ok ⟨minorUnits, currency, by omega⟩

theorem create_fields {minorUnits : IntegerType.int64.Value} {currency : Currency} {money : Money}
    (h : create minorUnits currency = .ok money) :
    money.minorUnits = minorUnits ∧ money.currency = currency := by
  unfold create at h
  split_ifs at h
  obtain rfl := Except.ok.inj h
  exact ⟨rfl, rfl⟩

end Money

namespace OrderItem

def create (productId : ProductId) (quantity : IntegerType.int.Value) (priceAtOrderTime : Money) :
    Except ErrorCode OrderItem :=
  if h : quantity.val ≤ 0 then .error (.orderItem .invalidQuantity)
  else .ok ⟨productId, quantity, priceAtOrderTime, by omega⟩

theorem create_fields {productId : ProductId} {quantity : IntegerType.int.Value} {price : Money}
    {item : OrderItem} (h : create productId quantity price = .ok item) :
    item.productId = productId ∧ item.quantity = quantity ∧ item.priceAtOrderTime = price := by
  unfold create at h
  split_ifs at h
  obtain rfl := Except.ok.inj h
  exact ⟨rfl, rfl, rfl⟩

end OrderItem

namespace Order

def create (userId : UserId) (items : List OrderItem) : Except ErrorCode Order :=
  if h : items = [] then .error (.order .emptyItems)
  else .ok ⟨userId, none, items, .created, h⟩

def restore (userId : UserId) (orderId : OrderId) (items : List OrderItem) (status : OrderStatus) :
    Except ErrorCode Order :=
  if h : items = [] then .error (.order .emptyItems)
  else .ok ⟨userId, some orderId, items, status, h⟩

def assignId (order : Order) (id : OrderId) : Order := { order with orderId := some id }

def markReserved (order : Order) : Except ErrorCode Order :=
  if order.status ≠ .created then .error (.order .invalidStatusTransition)
  else .ok { order with status := .reserved }

theorem create_fields {userId : UserId} {items : List OrderItem} {order : Order}
    (h : create userId items = .ok order) :
    order.userId = userId ∧ order.orderId = none ∧ order.items = items ∧ order.status = .created := by
  unfold create at h
  split_ifs at h
  obtain rfl := Except.ok.inj h
  exact ⟨rfl, rfl, rfl, rfl⟩

theorem markReserved_ok {order reserved : Order} (h : order.markReserved = .ok reserved) :
    order.status = .created ∧ reserved = { order with status := .reserved } := by
  unfold markReserved at h
  split_ifs at h with hs
  exact ⟨of_not_not hs, (Except.ok.inj h).symm⟩

end Order

namespace OrderStatusMapper

def toString : OrderStatus → String
  | .created => "Created"
  | .reserved => "Reserved"
  | .shipped => "Shipped"
  | .cancelled => "Cancelled"

def fromString (value : String) : Except ErrorCode OrderStatus :=
  if value = "Created" then .ok .created
  else if value = "Reserved" then .ok .reserved
  else if value = "Shipped" then .ok .shipped
  else if value = "Cancelled" then .ok .cancelled
  else .error (.order .unknownStatus)

theorem fromString_toString (status : OrderStatus) : fromString (toString status) = .ok status := by
  cases status <;> rfl

end OrderStatusMapper

end LiquidPetProject.Models
