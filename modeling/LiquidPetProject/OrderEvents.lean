import LiquidPetProject.Json
import LiquidPetProject.StrongID

namespace LiquidPetProject.Events

open FixedWidth Models JsonHelper

inductive ParseException
  | parseError | outOfRange
  deriving DecidableEq, Repr

structure OrderCreatedItem where
  productId : ProductId
  quantity : IntegerType.int.Value
  deriving DecidableEq

structure OrderCreatedEvent where
  orderId : OrderId
  userId : UserId
  items : List OrderCreatedItem
  deriving DecidableEq

structure OrderReservedEvent where
  orderId : OrderId
  deriving DecidableEq

def orderIdKey : String := "orderId"
def userIdKey : String := "userId"
def itemsKey : String := "items"
def productIdKey : String := "productId"
def quantityKey : String := "quantity"

namespace OrderCreatedEventJsonMapper

variable (unrepresentable : UnrepresentableCast)

def parseItem (json : Json) : Except ErrorCode OrderCreatedItem := do
  let text ← getValue Json.getString json productIdKey
  let productId ← StrongID.create text
  let quantity ← getValue (Json.getInteger unrepresentable .int) json quantityKey
  if quantity.val ≤ 0 then .error .invalidArgument else .ok ⟨productId, quantity⟩

def parseItems (json : Json) : Except ErrorCode (List OrderCreatedItem) := do
  match ← getValue Json.getJson json itemsKey with
  | .array elements => elements.mapM (parseItem unrepresentable)
  | _ => .error .invalidArgument

def fromJson (json : Json) : Except ErrorCode OrderCreatedEvent := do
  let orderIdText ← getValue Json.getString json orderIdKey
  let orderId ← StrongID.create orderIdText
  let userIdText ← getValue Json.getString json userIdKey
  let userId ← StrongID.create userIdText
  let items ← parseItems unrepresentable json
  return ⟨orderId, userId, items⟩

end OrderCreatedEventJsonMapper

namespace OrderReservedEventJsonMapper

def toJson (event : OrderReservedEvent) : Json := .object [(orderIdKey, .string event.orderId.value)]

def fromJson (json : Json) : Except ErrorCode OrderReservedEvent := do
  let text ← getValue Json.getString json orderIdKey
  let orderId ← StrongID.create text
  return ⟨orderId⟩

theorem fromJson_toJson (event : OrderReservedEvent) : fromJson (toJson event) = .ok event := by
  have hid : getValue Json.getString (toJson event) orderIdKey = .ok event.orderId.value := by
    rfl
  unfold fromJson
  rw [hid]
  have hcreate : (StrongID.create event.orderId.value : Except ErrorCode OrderId) = .ok event.orderId :=
    StrongID.create_of_value event.orderId
  simp only [bind, Except.bind, hcreate, pure, Except.pure]

end OrderReservedEventJsonMapper

end LiquidPetProject.Events
