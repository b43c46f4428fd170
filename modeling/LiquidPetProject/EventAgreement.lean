import LiquidPetProject.JsonValue
import LiquidPetProject.OrderAgreement
import LiquidPetProject.OrderEvents

namespace LiquidPetProject.Events

open FixedWidth Models Models2JsonMapper JsonHelper Json Fallible

def createdItem (item : OrderItem) : OrderCreatedItem := ⟨item.productId, item.quantity⟩

def createdEventOf (order : Order) (id : OrderId) : OrderCreatedEvent :=
  ⟨id, order.userId, order.items.map createdItem⟩

theorem parseItem_toJson (unrepresentable : UnrepresentableCast) (item : OrderItem) {json : Json}
    (h : SameValue (OrderItemJsonMapper.toJson item) json) :
    OrderCreatedEventJsonMapper.parseItem unrepresentable json = .ok (createdItem item) := by
  have hkeys : [orderItemProductId, orderItemQuantity, orderItemPriceAtOrderTime].Nodup := by decide
  have hproduct : getValue Json.getString json productIdKey = .ok item.productId.value :=
    getValue_sameValue h hkeys rfl (fun _ hv => hv.getString)
  have hquantity : getValue (Json.getInteger unrepresentable .int) json quantityKey = .ok item.quantity :=
    getValue_sameValue h hkeys rfl (fun _ hv => hv.getInteger unrepresentable)
  have hid : (StrongID.create item.productId.value : Except ErrorCode ProductId) = .ok item.productId :=
    StrongID.create_of_value item.productId
  have hpositive : ¬ item.quantity.val ≤ 0 := not_le.mpr item.positive
  unfold OrderCreatedEventJsonMapper.parseItem
  simp only [hproduct, hquantity, hid, bind, Except.bind, if_neg hpositive]
  rfl

theorem parseItems_toJson (unrepresentable : UnrepresentableCast) {items : List OrderItem} {elements : List Json}
    (h : List.Forall₂ SameValue (items.map OrderItemJsonMapper.toJson) elements) :
    elements.mapM (OrderCreatedEventJsonMapper.parseItem unrepresentable) = .ok (items.map createdItem) := by
  rw [mapM_ok]
  rw [List.forall₂_map_left_iff] at h
  rw [List.forall₂_map_right_iff]
  exact (h.imp (fun item json hitem => parseItem_toJson unrepresentable item hitem)).flip

theorem toJson_members {order : Order} {id : OrderId} (h : order.orderId = some id) :
    OrderJsonMapper.toJson order =
      .object [(orderUserId, .string order.userId.value), (orderId, .string id.value),
        (orderItems, .array (order.items.map OrderItemJsonMapper.toJson)),
        (orderStatus, .string (OrderStatusMapper.toString order.status))] := by
  unfold OrderJsonMapper.toJson
  rw [h]
  rfl

theorem createdEvent_fromJson (unrepresentable : UnrepresentableCast) {order : Order} {id : OrderId}
    (hid : order.orderId = some id) {document : Json} (h : SameValue (OrderJsonMapper.toJson order) document) :
    OrderCreatedEventJsonMapper.fromJson unrepresentable document = .ok (createdEventOf order id) := by
  rw [toJson_members hid] at h
  have hkeys : [orderUserId, orderId, orderItems, orderStatus].Nodup := by decide
  have horder : getValue Json.getString document orderIdKey = .ok id.value :=
    getValue_sameValue h hkeys rfl (fun _ hv => hv.getString)
  have huser : getValue Json.getString document userIdKey = .ok order.userId.value :=
    getValue_sameValue h hkeys rfl (fun _ hv => hv.getString)
  have horderId : (StrongID.create id.value : Except ErrorCode OrderId) = .ok id := StrongID.create_of_value id
  have huserId : (StrongID.create order.userId.value : Except ErrorCode UserId) = .ok order.userId :=
    StrongID.create_of_value order.userId
  have hitems : OrderCreatedEventJsonMapper.parseItems unrepresentable document = .ok (order.items.map createdItem) := by
    obtain ⟨found, hfound, hsame⟩ := h.member hkeys (show lookup _ itemsKey = some _ from rfl)
    obtain ⟨elements, rfl, helements⟩ := hsame.elements
    have harray : getValue Json.getJson document itemsKey = .ok (.array elements) :=
      getValue_ok.mpr ⟨_, hfound, rfl⟩
    unfold OrderCreatedEventJsonMapper.parseItems
    simp only [harray, bind, Except.bind]
    exact parseItems_toJson unrepresentable helements
  unfold OrderCreatedEventJsonMapper.fromJson
  simp only [horder, huser, horderId, huserId, hitems, bind, Except.bind]
  rfl

theorem reservedEvent_fromJson (event : OrderReservedEvent) {document : Json}
    (h : SameValue (OrderReservedEventJsonMapper.toJson event) document) :
    OrderReservedEventJsonMapper.fromJson document = .ok event := by
  have horder : getValue Json.getString document orderIdKey = .ok event.orderId.value :=
    getValue_sameValue h (List.nodup_singleton orderIdKey) rfl (fun _ hv => hv.getString)
  have hid : (StrongID.create event.orderId.value : Except ErrorCode OrderId) = .ok event.orderId :=
    StrongID.create_of_value event.orderId
  unfold OrderReservedEventJsonMapper.fromJson
  simp only [horder, hid, bind, Except.bind]
  rfl

/-- What one service writes, the other one reads, whatever becomes of the order of the keys. -/
theorem events_agree (unrepresentable : UnrepresentableCast) {order : Order} {id : OrderId}
    (hid : order.orderId = some id) {created reserved : Json} {event : OrderReservedEvent}
    (hcreated : SameValue (OrderJsonMapper.toJson order) created)
    (hreserved : SameValue (OrderReservedEventJsonMapper.toJson event) reserved) :
    OrderCreatedEventJsonMapper.fromJson unrepresentable created = .ok (createdEventOf order id) ∧
      OrderReservedEventJsonMapper.fromJson reserved = .ok event :=
  ⟨createdEvent_fromJson unrepresentable hid hcreated, reservedEvent_fromJson event hreserved⟩

def writtenId : OrderId := ⟨"550e8400-e29b-41d4-a716-446655440050", by decide, by decide⟩

def storedPrice : Json :=
  .object ([(moneyCurrency, .object ([(currencyMinorDigits, .numberUnsigned 2)] ++ [(currencyCode, .string "EUR")]))] ++
    [(moneyMinorUnits, .numberUnsigned 1999)])

def storedItem : Json :=
  .object ([(orderItemQuantity, .numberUnsigned 1), (orderItemPriceAtOrderTime, storedPrice)] ++
    [(orderItemProductId, .string "550e8400-e29b-41d4-a716-446655440000")])

/-- The document of an order as the table may give it back. -/
def storedDocument : Json :=
  .object ([(orderItems, .array [storedItem]), (orderStatus, .string "Created")] ++
    [(orderUserId, .string "550e8400-e29b-41d4-a716-446655440001"), (orderId, .string writtenId.value)])

theorem storedDocument_sameValue :
    SameValue (OrderJsonMapper.toJson (sampleOrder.assignId writtenId)) storedDocument := by
  apply SameValue.rotated
  · rfl
  refine .cons (.scalar rfl rfl) (.cons (.scalar rfl rfl) (.cons (.array (.cons ?_ .nil)) (.cons (.scalar rfl rfl) .nil)))
  apply SameValue.rotated
  · rfl
  refine .cons (.scalar rfl rfl) (.cons (.scalar rfl rfl) (.cons ?_ .nil))
  apply SameValue.rotated
  · rfl
  refine .cons (.scalar rfl rfl) (.cons ?_ .nil)
  apply SameValue.rotated
  · rfl
  exact .cons (.scalar rfl rfl) (.cons (.scalar rfl rfl) .nil)

theorem events_agree_stored :
    OrderCreatedEventJsonMapper.fromJson zeroCast storedDocument =
        .ok (createdEventOf (sampleOrder.assignId writtenId) writtenId) ∧
      OrderReservedEventJsonMapper.fromJson (OrderReservedEventJsonMapper.toJson ⟨writtenId⟩) = .ok ⟨writtenId⟩ := by
  apply events_agree zeroCast rfl storedDocument_sameValue
  exact .object rfl (.cons (.scalar rfl rfl) .nil) (List.Perm.refl [(orderIdKey, Json.string writtenId.value)])

end LiquidPetProject.Events
