import LiquidPetProject.JsonFields
import LiquidPetProject.OrderJsonMapper

namespace LiquidPetProject.Models2JsonMapper

open FixedWidth Models JsonHelper Fallible Json

def productIdPath : List String := [orderItemProductId]
def quantityPath : List String := [orderItemQuantity]
def minorUnitsPath : List String := [orderItemPriceAtOrderTime, moneyMinorUnits]
def codePath : List String := [orderItemPriceAtOrderTime, moneyCurrency, currencyCode]
def minorDigitsPath : List String := [orderItemPriceAtOrderTime, moneyCurrency, currencyMinorDigits]

def itemsOf (json : Json) : List Json :=
  match json.member orderItems with
  | some (.array elements) => elements
  | _ => []

def ItemAgrees (a b : Json) : Prop :=
  SameAt productIdPath a b ∧ SameAt quantityPath a b ∧ SameAt minorUnitsPath a b ∧
    SameAt codePath a b ∧ SameAt minorDigitsPath a b

instance (a b : Json) : Decidable (ItemAgrees a b) := inferInstanceAs (Decidable (_ ∧ _))

def OrderAgrees (a b : Json) : Prop :=
  SameAt [orderUserId] a b ∧ List.Forall₂ ItemAgrees (itemsOf a) (itemsOf b)

def ItemExact (json : Json) : Prop :=
  HoldsInteger .int quantityPath json ∧ HoldsInteger .int64 minorUnitsPath json ∧
    HoldsInteger .int8 minorDigitsPath json

instance (a b : Json) : Decidable (OrderAgrees a b) := inferInstanceAs (Decidable (_ ∧ _))

def OrderExact (json : Json) : Prop := ∀ item ∈ itemsOf json, ItemExact item

variable {unrepresentable : UnrepresentableCast}

theorem currency_fields {json : Json} {currency : Currency}
    (h : CurrencyJsonMapper.fromJson unrepresentable json = .ok currency) :
    json.scalarAt [currencyCode] = some (.string currency.code) ∧
      (json.scalarAt [currencyMinorDigits] = some (.number currency.minorDigits.val) ↔
        HoldsInteger .int8 [currencyMinorDigits] json) := by
  obtain ⟨code, hcode, h⟩ := bind_ok.mp h
  obtain ⟨minorDigits, hdigits, h⟩ := bind_ok.mp h
  obtain ⟨rfl, rfl⟩ := Currency.create_fields h
  exact ⟨getValue_getString hcode, getValue_getInteger hdigits⟩

theorem money_fields {json : Json} {money : Money}
    (h : MoneyJsonMapper.fromJson unrepresentable json = .ok money) :
    (json.scalarAt [moneyMinorUnits] = some (.number money.minorUnits.val) ↔
        HoldsInteger .int64 [moneyMinorUnits] json) ∧
      json.scalarAt [moneyCurrency, currencyCode] = some (.string money.currency.code) ∧
      (json.scalarAt [moneyCurrency, currencyMinorDigits] = some (.number money.currency.minorDigits.val) ↔
        HoldsInteger .int8 [moneyCurrency, currencyMinorDigits] json) := by
  obtain ⟨minorUnits, hunits, h⟩ := bind_ok.mp h
  obtain ⟨currencyJson, hjson, h⟩ := bind_ok.mp h
  obtain ⟨currency, hcurrency, h⟩ := bind_ok.mp h
  obtain ⟨rfl, rfl⟩ := Money.create_fields h
  obtain ⟨hcode, hdigits⟩ := currency_fields hcurrency
  have hmember := getValue_getJson hjson
  rw [scalarAt_cons hmember, scalarAt_cons hmember, holdsInteger_cons hmember]
  exact ⟨getValue_getInteger hunits, hcode, hdigits⟩

theorem item_fields {json : Json} {item : OrderItem}
    (h : OrderItemJsonMapper.fromJson unrepresentable json = .ok item) :
    json.scalarAt productIdPath = some (.string item.productId.value) ∧
      (json.scalarAt quantityPath = some (.number item.quantity.val) ↔ HoldsInteger .int quantityPath json) ∧
      (json.scalarAt minorUnitsPath = some (.number item.priceAtOrderTime.minorUnits.val) ↔
        HoldsInteger .int64 minorUnitsPath json) ∧
      json.scalarAt codePath = some (.string item.priceAtOrderTime.currency.code) ∧
      (json.scalarAt minorDigitsPath = some (.number item.priceAtOrderTime.currency.minorDigits.val) ↔
        HoldsInteger .int8 minorDigitsPath json) := by
  obtain ⟨text, htext, h⟩ := bind_ok.mp h
  obtain ⟨productId, hid, h⟩ := bind_ok.mp h
  obtain ⟨priceJson, hjson, h⟩ := bind_ok.mp h
  obtain ⟨price, hprice, h⟩ := bind_ok.mp h
  obtain ⟨quantity, hquantity, h⟩ := bind_ok.mp h
  obtain ⟨rfl, rfl, rfl⟩ := OrderItem.create_fields h
  obtain ⟨hunits, hcode, hdigits⟩ := money_fields hprice
  have hmember := getValue_getJson hjson
  refine ⟨?_, getValue_getInteger hquantity, ?_, ?_, ?_⟩
  · rw [StrongID.create_value hid]
    exact getValue_getString htext
  · unfold minorUnitsPath
    rw [scalarAt_cons hmember, holdsInteger_cons hmember]
    exact hunits
  · unfold codePath
    rw [scalarAt_cons hmember]
    exact hcode
  · unfold minorDigitsPath
    rw [scalarAt_cons hmember, holdsInteger_cons hmember]
    exact hdigits

theorem itemAgrees_toJson (item : OrderItem) (json : Json) :
    ItemAgrees (OrderItemJsonMapper.toJson item) json ↔
      json.scalarAt productIdPath = some (.string item.productId.value) ∧
        json.scalarAt quantityPath = some (.number item.quantity.val) ∧
        json.scalarAt minorUnitsPath = some (.number item.priceAtOrderTime.minorUnits.val) ∧
        json.scalarAt codePath = some (.string item.priceAtOrderTime.currency.code) ∧
        json.scalarAt minorDigitsPath = some (.number item.priceAtOrderTime.currency.minorDigits.val) := by
  have hquantity : (OrderItemJsonMapper.toJson item).scalarAt quantityPath = some (.number item.quantity.val) :=
    ofInteger_scalarAt item.quantity
  have hunits : (OrderItemJsonMapper.toJson item).scalarAt minorUnitsPath =
      some (.number item.priceAtOrderTime.minorUnits.val) :=
    ofInteger_scalarAt item.priceAtOrderTime.minorUnits
  have hdigits : (OrderItemJsonMapper.toJson item).scalarAt minorDigitsPath =
      some (.number item.priceAtOrderTime.currency.minorDigits.val) :=
    ofInteger_scalarAt item.priceAtOrderTime.currency.minorDigits
  unfold ItemAgrees
  rw [sameAt_iff hquantity, sameAt_iff hunits, sameAt_iff hdigits]
  exact and_congr (sameAt_iff rfl) (and_congr_right' (and_congr_right' (and_congr_left' (sameAt_iff rfl))))

theorem item_agrees_iff_exact {json : Json} {item : OrderItem}
    (h : OrderItemJsonMapper.fromJson unrepresentable json = .ok item) :
    ItemAgrees (OrderItemJsonMapper.toJson item) json ↔ ItemExact json := by
  obtain ⟨hid, hquantity, hunits, hcode, hdigits⟩ := item_fields h
  rw [itemAgrees_toJson, hquantity, hunits, hdigits]
  unfold ItemExact
  constructor
  · rintro ⟨-, hq, hu, -, hd⟩
    exact ⟨hq, hu, hd⟩
  · rintro ⟨hq, hu, hd⟩
    exact ⟨hid, hq, hu, hcode, hd⟩

theorem items_agree_iff_exact {elements : List Json} {items : List OrderItem}
    (h : List.Forall₂ (fun json item => OrderItemJsonMapper.fromJson unrepresentable json = .ok item) elements items) :
    List.Forall₂ ItemAgrees (items.map OrderItemJsonMapper.toJson) elements ↔ ∀ json ∈ elements, ItemExact json := by
  induction h with
  | nil => simp
  | cons hitem _ ih => rw [List.map_cons, List.forall₂_cons, List.forall_mem_cons, ih, item_agrees_iff_exact hitem]

theorem parseItems_ok {json : Json} {items : List OrderItem}
    (h : OrderJsonMapper.parseItems unrepresentable json = .ok items) :
    List.Forall₂ (fun json item => OrderItemJsonMapper.fromJson unrepresentable json = .ok item)
      (itemsOf json) items := by
  obtain ⟨itemsJson, hjson, h⟩ := bind_ok.mp h
  have hmember := getValue_getJson hjson
  cases itemsJson with
  | array elements =>
    unfold itemsOf
    rw [hmember]
    exact mapM_ok.mp h
  | _ => cases h

theorem itemsOf_toJson (order : Order) :
    itemsOf (OrderJsonMapper.toJson order) = order.items.map OrderItemJsonMapper.toJson := by
  obtain ⟨userId, orderId, items, status, hne⟩ := order
  cases orderId <;> rfl

/-- An accepted order is the order that was sent exactly when every number fits the type it is read into. -/
theorem accepted_order_agrees_iff (unrepresentable : UnrepresentableCast) (json : Json) (order : Order)
    (h : OrderJsonMapper.fromJson unrepresentable json = .ok order) :
    OrderAgrees (OrderJsonMapper.toJson order) json ↔ OrderExact json := by
  obtain ⟨text, htext, h⟩ := bind_ok.mp h
  obtain ⟨userId, hid, h⟩ := bind_ok.mp h
  obtain ⟨items, hitems, h⟩ := bind_ok.mp h
  obtain ⟨rfl, -, rfl, -⟩ := Order.create_fields h
  have huser : json.scalarAt [orderUserId] = some (.string order.userId.value) := by
    rw [StrongID.create_value hid]
    exact getValue_getString htext
  unfold OrderAgrees
  rw [sameAt_iff (show (OrderJsonMapper.toJson order).scalarAt [orderUserId] = _ from rfl), itemsOf_toJson]
  rw [items_agree_iff_exact (parseItems_ok hitems)]
  exact and_iff_right huser

def sampleItem (quantity : Json) : Json :=
  .object [(orderItemProductId, .string "550e8400-e29b-41d4-a716-446655440000"),
    (orderItemPriceAtOrderTime, .object [(moneyMinorUnits, .numberUnsigned 1999),
      (moneyCurrency, .object [(currencyCode, .string "EUR"), (currencyMinorDigits, .numberUnsigned 2)])]),
    (orderItemQuantity, quantity)]

def sampleDocument (quantity : Json) : Json :=
  .object [(orderUserId, .string "550e8400-e29b-41d4-a716-446655440001"), (orderItems, .array [sampleItem quantity])]

def sampleOrder : Order where
  userId := ⟨"550e8400-e29b-41d4-a716-446655440001", by decide, by decide⟩
  orderId := none
  items :=
    [{ productId := ⟨"550e8400-e29b-41d4-a716-446655440000", by decide, by decide⟩
       quantity := ⟨1, by decide⟩
       priceAtOrderTime := ⟨⟨1999, by decide⟩, ⟨"EUR", ⟨2, by decide⟩, by decide, by decide⟩, by decide⟩
       positive := by decide }]
  status := .created
  nonempty := List.cons_ne_nil _ _

def zeroCast : UnrepresentableCast := fun T _ => T.cast 0

theorem accepted_order_agrees_one :
    OrderAgrees (OrderJsonMapper.toJson sampleOrder) (sampleDocument (.numberUnsigned 1)) ↔
      OrderExact (sampleDocument (.numberUnsigned 1)) :=
  accepted_order_agrees_iff zeroCast _ sampleOrder (by decide +kernel)

theorem accepted_order_changed :
    (OrderJsonMapper.fromJson zeroCast (sampleDocument (.numberUnsigned 4294967297)) = .ok sampleOrder ∧
      ¬ OrderAgrees (OrderJsonMapper.toJson sampleOrder) (sampleDocument (.numberUnsigned 4294967297))) ∧
    (OrderJsonMapper.fromJson zeroCast (sampleDocument (.numberFloat (3 / 2))) = .ok sampleOrder ∧
      ¬ OrderAgrees (OrderJsonMapper.toJson sampleOrder) (sampleDocument (.numberFloat (3 / 2)))) ∧
    (OrderJsonMapper.fromJson zeroCast (sampleDocument (.boolean true)) = .ok sampleOrder ∧
      ¬ OrderAgrees (OrderJsonMapper.toJson sampleOrder) (sampleDocument (.boolean true))) := by
  refine ⟨⟨?_, ?_⟩, ⟨?_, ?_⟩, ?_, ?_⟩
  all_goals decide +kernel

end LiquidPetProject.Models2JsonMapper
