import LiquidPetProject.Json
import LiquidPetProject.Order

namespace LiquidPetProject.Models2JsonMapper

open FixedWidth Models JsonHelper

def currencyCode : String := "code"
def currencyMinorDigits : String := "minorDigits"
def moneyMinorUnits : String := "minorUnits"
def moneyCurrency : String := "currency"
def orderId : String := "orderId"
def orderUserId : String := "userId"
def orderItems : String := "items"
def orderStatus : String := "status"
def orderItemProductId : String := "productId"
def orderItemQuantity : String := "quantity"
def orderItemPriceAtOrderTime : String := "priceAtOrderTime"

section

variable (unrepresentable : UnrepresentableCast)

def CurrencyJsonMapper.fromJson (json : Json) : Except ErrorCode Currency := do
  let code ← getValue Json.getString json currencyCode
  let minorDigits ← getValue (Json.getInteger unrepresentable .int8) json currencyMinorDigits
  Currency.create code minorDigits

def MoneyJsonMapper.fromJson (json : Json) : Except ErrorCode Money := do
  let minorUnits ← getValue (Json.getInteger unrepresentable .int64) json moneyMinorUnits
  let currencyJson ← getValue Json.getJson json moneyCurrency
  let currency ← CurrencyJsonMapper.fromJson unrepresentable currencyJson
  Money.create minorUnits currency

def OrderItemJsonMapper.fromJson (json : Json) : Except ErrorCode OrderItem := do
  let text ← getValue Json.getString json orderItemProductId
  let productId ← StrongID.create text
  let priceJson ← getValue Json.getJson json orderItemPriceAtOrderTime
  let price ← MoneyJsonMapper.fromJson unrepresentable priceJson
  let quantity ← getValue (Json.getInteger unrepresentable .int) json orderItemQuantity
  OrderItem.create productId quantity price

def OrderJsonMapper.parseItems (json : Json) : Except ErrorCode (List OrderItem) := do
  match ← getValue Json.getJson json orderItems with
  | .array elements => elements.mapM (OrderItemJsonMapper.fromJson unrepresentable)
  | _ => .error (.order .invalidItems)

def OrderJsonMapper.fromJson (json : Json) : Except ErrorCode Order := do
  let text ← getValue Json.getString json orderUserId
  let userId ← StrongID.create text
  let items ← OrderJsonMapper.parseItems unrepresentable json
  Order.create userId items

end

def CurrencyJsonMapper.toJson (currency : Currency) : Json :=
  .object [(currencyCode, .string currency.code), (currencyMinorDigits, .ofInteger currency.minorDigits)]

def MoneyJsonMapper.toJson (money : Money) : Json :=
  .object [(moneyMinorUnits, .ofInteger money.minorUnits),
    (moneyCurrency, CurrencyJsonMapper.toJson money.currency)]

def OrderItemJsonMapper.toJson (item : OrderItem) : Json :=
  .object [(orderItemProductId, .string item.productId.value), (orderItemQuantity, .ofInteger item.quantity),
    (orderItemPriceAtOrderTime, MoneyJsonMapper.toJson item.priceAtOrderTime)]

def OrderJsonMapper.toJson (order : Order) : Json :=
  .object ((orderUserId, .string order.userId.value) ::
    (order.orderId.toList.map (fun id => (orderId, .string id.value)) ++
      [(orderItems, .array (order.items.map OrderItemJsonMapper.toJson)),
        (orderStatus, .string (OrderStatusMapper.toString order.status))]))

end LiquidPetProject.Models2JsonMapper
