import LiquidPetProject.JsonValue
import LiquidPetProject.OrderJsonMapper

namespace LiquidPetProject.Models2JsonMapper

open FixedWidth Models JsonHelper Json Fallible

variable (unrepresentable : UnrepresentableCast)

def renewed (order : Order) : Order := ⟨order.userId, none, order.items, .created, order.nonempty⟩

theorem currency_create (currency : Currency) :
    Currency.create currency.code currency.minorDigits = .ok currency := by
  unfold Currency.create
  rw [dif_neg (not_lt.mpr currency.nonnegative), dif_neg (by simp [currency.nonempty])]

theorem money_create (money : Money) : Money.create money.minorUnits money.currency = .ok money := by
  unfold Money.create
  rw [dif_neg (not_lt.mpr money.nonnegative)]

theorem item_create (item : OrderItem) :
    OrderItem.create item.productId item.quantity item.priceAtOrderTime = .ok item := by
  unfold OrderItem.create
  rw [dif_neg (not_le.mpr item.positive)]

theorem order_create (order : Order) : Order.create order.userId order.items = .ok (renewed order) := by
  unfold Order.create
  rw [dif_neg order.nonempty]
  rfl

theorem currency_document {currency : Currency} {json : Json}
    (h : SameValue (CurrencyJsonMapper.toJson currency) json) :
    CurrencyJsonMapper.fromJson unrepresentable json = .ok currency := by
  have hkeys : [currencyCode, currencyMinorDigits].Nodup := by decide
  have hcode : getValue Json.getString json currencyCode = .ok currency.code := by
    apply getValue_sameValue h hkeys rfl
    exact fun _ hv => hv.getString
  have hdigits : getValue (Json.getInteger unrepresentable .int8) json currencyMinorDigits =
      .ok currency.minorDigits := by
    apply getValue_sameValue h hkeys rfl
    exact fun _ hv => hv.getInteger unrepresentable
  unfold CurrencyJsonMapper.fromJson
  rw [hcode, hdigits]
  exact currency_create currency

theorem money_document {money : Money} {json : Json} (h : SameValue (MoneyJsonMapper.toJson money) json) :
    MoneyJsonMapper.fromJson unrepresentable json = .ok money := by
  have hkeys : [moneyMinorUnits, moneyCurrency].Nodup := by decide
  have hunits : getValue (Json.getInteger unrepresentable .int64) json moneyMinorUnits = .ok money.minorUnits := by
    apply getValue_sameValue h hkeys rfl
    exact fun _ hv => hv.getInteger unrepresentable
  obtain ⟨found, hfound, hsame⟩ := h.member hkeys (show lookup _ moneyCurrency = some _ from rfl)
  have hcurrency : getValue Json.getJson json moneyCurrency = .ok found := getValue_ok.mpr ⟨found, hfound, rfl⟩
  have hread := currency_document unrepresentable hsame
  unfold MoneyJsonMapper.fromJson
  simp only [hunits, hcurrency, hread, bind, Except.bind]
  exact money_create money

theorem item_document {item : OrderItem} {json : Json} (h : SameValue (OrderItemJsonMapper.toJson item) json) :
    OrderItemJsonMapper.fromJson unrepresentable json = .ok item := by
  have hkeys : [orderItemProductId, orderItemQuantity, orderItemPriceAtOrderTime].Nodup := by decide
  have hproduct : getValue Json.getString json orderItemProductId = .ok item.productId.value := by
    apply getValue_sameValue h hkeys rfl
    exact fun _ hv => hv.getString
  have hquantity : getValue (Json.getInteger unrepresentable .int) json orderItemQuantity = .ok item.quantity := by
    apply getValue_sameValue h hkeys rfl
    exact fun _ hv => hv.getInteger unrepresentable
  obtain ⟨found, hfound, hsame⟩ := h.member hkeys (show lookup _ orderItemPriceAtOrderTime = some _ from rfl)
  have hprice : getValue Json.getJson json orderItemPriceAtOrderTime = .ok found :=
    getValue_ok.mpr ⟨found, hfound, rfl⟩
  have hid : (StrongID.create item.productId.value : Except ErrorCode ProductId) = .ok item.productId :=
    StrongID.create_of_value item.productId
  have hread := money_document unrepresentable hsame
  unfold OrderItemJsonMapper.fromJson
  simp only [hproduct, hid, hprice, hread, hquantity, bind, Except.bind]
  exact item_create item

theorem items_document {items : List OrderItem} {elements : List Json}
    (h : List.Forall₂ SameValue (items.map OrderItemJsonMapper.toJson) elements) :
    elements.mapM (OrderItemJsonMapper.fromJson unrepresentable) = .ok items := by
  rw [mapM_ok]
  rw [List.forall₂_map_left_iff] at h
  exact (h.imp (fun _ _ hitem => item_document unrepresentable hitem)).flip

theorem toJson_keys (order : Order) :
    ∃ members, OrderJsonMapper.toJson order = .object members ∧ (members.map Prod.fst).Nodup ∧
      lookup members orderUserId = some (.string order.userId.value) ∧
      lookup members orderItems = some (.array (order.items.map OrderItemJsonMapper.toJson)) := by
  refine ⟨_, rfl, ?_⟩
  cases order.orderId with
  | none =>
    have hkeys : [orderUserId, orderItems, orderStatus].Nodup := by decide
    exact ⟨hkeys, rfl, rfl⟩
  | some id =>
    have hkeys : [orderUserId, orderId, orderItems, orderStatus].Nodup := by decide
    exact ⟨hkeys, rfl, rfl⟩

theorem order_document {order : Order} {json : Json} (h : SameValue (OrderJsonMapper.toJson order) json) :
    OrderJsonMapper.fromJson unrepresentable json = .ok (renewed order) := by
  obtain ⟨members, hdocument, hkeys, huserKey, hitemsKey⟩ := toJson_keys order
  rw [hdocument] at h
  have huser : getValue Json.getString json orderUserId = .ok order.userId.value := by
    apply getValue_sameValue h hkeys huserKey
    exact fun _ hv => hv.getString
  have huserId : (StrongID.create order.userId.value : Except ErrorCode UserId) = .ok order.userId :=
    StrongID.create_of_value order.userId
  have hitems : OrderJsonMapper.parseItems unrepresentable json = .ok order.items := by
    obtain ⟨found, hfound, hsame⟩ := h.member hkeys hitemsKey
    obtain ⟨elements, rfl, helements⟩ := hsame.elements
    have harray : getValue Json.getJson json orderItems = .ok (.array elements) :=
      getValue_ok.mpr ⟨_, hfound, rfl⟩
    unfold OrderJsonMapper.parseItems
    simp only [harray, bind, Except.bind]
    exact items_document unrepresentable helements
  unfold OrderJsonMapper.fromJson
  simp only [huser, huserId, hitems, bind, Except.bind]
  exact order_create order

def withId (order : Order) (id : Option OrderId) : Order := { order with orderId := id }

theorem withId_orderId (order : Order) (id : Option OrderId) :
    (OrderJsonMapper.toJson (withId order id)).member orderId = id.map (fun id => .string id.value) := by
  cases id with
  | none => rfl
  | some id => rfl

theorem withId_other (order : Order) (id : Option OrderId) {key : String} (hkey : key ≠ orderId) :
    (OrderJsonMapper.toJson (withId order id)).member key =
      (OrderJsonMapper.toJson (withId order none)).member key := by
  cases id with
  | none => rfl
  | some id =>
    simp only [OrderJsonMapper.toJson, withId, member, lookup, Option.toList, List.map_cons, List.map_nil,
      List.nil_append, List.cons_append, List.find?_cons, hkey.symm, decide_false]

/-- The document of an order is read back as the same order without an id, and its id adds one field to it. -/
theorem order_roundTrip (order : Order) :
    (∃ read, OrderJsonMapper.fromJson unrepresentable (OrderJsonMapper.toJson order) = .ok read ∧
      read.userId = order.userId ∧ read.items = order.items ∧ read.orderId = none ∧ read.status = .created) ∧
    ∀ id : OrderId,
      (OrderJsonMapper.toJson (withId order (some id))).member orderId = some (.string id.value) ∧
      (OrderJsonMapper.toJson (withId order none)).member orderId = none ∧
      ∀ key, key ≠ orderId →
        (OrderJsonMapper.toJson (withId order (some id))).member key =
          (OrderJsonMapper.toJson (withId order none)).member key := by
  constructor
  · exact ⟨renewed order, order_document unrepresentable (SameValue.refl _), rfl, rfl, rfl, rfl⟩
  · intro id
    refine ⟨withId_orderId order (some id), withId_orderId order none, ?_⟩
    intro key hkey
    exact withId_other order (some id) hkey

end LiquidPetProject.Models2JsonMapper
