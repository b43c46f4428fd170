import Std.Data.String.ToInt
import LiquidPetProject.Fallible
import LiquidPetProject.Order
import LiquidPetProject.RepositoryOutcome
import LiquidPetProject.Uuid

namespace LiquidPetProject.Repository

open FixedWidth Models

structure OrderRow where
  orderId : Uuid
  userId : Uuid
  status : String
  deriving DecidableEq

abbrev SmallInt := {x : ℤ // InRange 16 x}

structure OrderItemRow where
  orderId : Uuid
  productId : Uuid
  quantity : IntegerType.int.Value
  priceMinorUnits : IntegerType.int64.Value
  priceCurrencyCode : String
  priceCurrencyMinorDigits : SmallInt
  deriving DecidableEq

def integerColumn (bits : ℕ) (value : String) : Option {x : ℤ // InRange bits x} :=
  value.toInt?.bind (fun x => if h : InRange bits x then some ⟨x, h⟩ else none)

theorem integerColumn_repr {bits : ℕ} {x : ℤ} (h : InRange bits x) :
    integerColumn bits (Int.repr x) = some ⟨x, h⟩ := by
  unfold integerColumn
  rw [Int.toInt?_repr, Option.bind_some, dif_pos h]

def parameter {α : Type} : Option α → Except PqxxException α
  | none => .error .other
  | some value => .ok value

def storedStatuses : List String := ["Created", "Reserved", "Shipped", "Cancelled"]

/-- `INSERT INTO orders (user_id, status) VALUES ($1, $2) RETURNING order_id`; `keys` are the order ids in the
table, `generated` is the default of the column. -/
def insertOrder (keys : List Uuid) (generated : Uuid) (userId status : String) : Except PqxxException OrderRow := do
  let userId ← parameter (uuidColumn userId)
  if status ∉ storedStatuses then .error .checkViolation
  else if generated ∈ keys then .error .uniqueViolation
  else .ok ⟨generated, userId, status⟩

def insertOrderItem (keys : List Uuid)
    (orderId productId quantity minorUnits currencyCode minorDigits : String) : Except PqxxException OrderItemRow := do
  let orderId ← parameter (uuidColumn orderId)
  let productId ← parameter (uuidColumn productId)
  let quantity ← parameter (integerColumn 32 quantity)
  let minorUnits ← parameter (integerColumn 64 minorUnits)
  let minorDigits ← parameter (integerColumn 16 minorDigits)
  if quantity.val ≤ 0 ∨ minorUnits.val < 0 then .error .checkViolation
  else if orderId ∉ keys then .error .foreignKeyViolation
  else .ok ⟨orderId, productId, quantity, minorUnits, currencyCode, minorDigits⟩

def insertItem (keys : List Uuid) (orderId : String) (item : OrderItem) : Except PqxxException OrderItemRow :=
  insertOrderItem keys orderId item.productId.value (Int.repr item.quantity.val)
    (Int.repr item.priceAtOrderTime.minorUnits.val) item.priceAtOrderTime.currency.code
    (Int.repr item.priceAtOrderTime.currency.minorDigits.val)

namespace OrderItemRowMapper

def fromRow (row : OrderItemRow) : Except ErrorCode OrderItem := do
  let productId ← StrongID.create row.productId.text
  let currency ← Currency.create row.priceCurrencyCode (IntegerType.int8.cast row.priceCurrencyMinorDigits.val)
  let price ← Money.create row.priceMinorUnits currency
  OrderItem.create productId row.quantity price

end OrderItemRowMapper

namespace OrderRowMapper

def fromRows (orderRow : OrderRow) (itemRows : List OrderItemRow) : Except ErrorCode Order := do
  let userId ← StrongID.create orderRow.userId.text
  let orderId ← StrongID.create orderRow.orderId.text
  let status ← OrderStatusMapper.fromString orderRow.status
  let items ← itemRows.mapM OrderItemRowMapper.fromRow
  Order.restore userId orderId items status

end OrderRowMapper

theorem smallInt_of_int8 {x : ℤ} (h : InRange IntegerType.int8.bits x) : InRange 16 x := by
  unfold InRange at h ⊢
  simp only [IntegerType.bits] at h
  omega

def itemRow (orderId : Uuid) (item : OrderItem) : OrderItemRow where
  orderId := orderId
  productId := Uuid.ofId item.productId
  quantity := item.quantity
  priceMinorUnits := item.priceAtOrderTime.minorUnits
  priceCurrencyCode := item.priceAtOrderTime.currency.code
  priceCurrencyMinorDigits := ⟨item.priceAtOrderTime.currency.minorDigits.val,
    smallInt_of_int8 item.priceAtOrderTime.currency.minorDigits.property⟩

def rowItem (item : OrderItem) : OrderItem := { item with productId := (Uuid.ofId item.productId).toId }

theorem insertItem_eq {keys : List Uuid} {orderId : Uuid} (hkey : orderId ∈ keys) (item : OrderItem) :
    insertItem keys orderId.text item = .ok (itemRow orderId item) := by
  have hquantity : integerColumn 32 (Int.repr item.quantity.val) = some item.quantity :=
    integerColumn_repr item.quantity.property
  have hunits : integerColumn 64 (Int.repr item.priceAtOrderTime.minorUnits.val) =
      some item.priceAtOrderTime.minorUnits := integerColumn_repr item.priceAtOrderTime.minorUnits.property
  have hdigits := integerColumn_repr (smallInt_of_int8 item.priceAtOrderTime.currency.minorDigits.property)
  have hpositive := item.positive
  have hnonnegative := item.priceAtOrderTime.nonnegative
  unfold insertItem insertOrderItem
  rw [Uuid.uuidColumn_text, Uuid.uuidColumn_value, hquantity, hunits, hdigits]
  simp only [parameter, bind, Except.bind]
  rw [if_neg (by omega), if_neg (not_not_intro hkey)]
  rfl

theorem insertItems_eq {keys : List Uuid} {orderId : Uuid} (hkey : orderId ∈ keys) (items : List OrderItem) :
    items.mapM (insertItem keys orderId.text) = .ok (items.map (itemRow orderId)) := by
  induction items with
  | nil => rfl
  | cons item items ih =>
    rw [List.mapM_cons, insertItem_eq hkey, ih]
    rfl

theorem toString_mem_storedStatuses (status : OrderStatus) : OrderStatusMapper.toString status ∈ storedStatuses := by
  cases status <;> decide

theorem insertOrder_eq {keys : List Uuid} {generated : Uuid} (hkey : generated ∉ keys) (userId : UserId)
    (status : OrderStatus) :
    insertOrder keys generated userId.value (OrderStatusMapper.toString status) =
      .ok ⟨generated, Uuid.ofId userId, OrderStatusMapper.toString status⟩ := by
  unfold insertOrder
  rw [Uuid.uuidColumn_value]
  simp only [parameter, bind, Except.bind]
  rw [if_neg (not_not_intro (toString_mem_storedStatuses status)), if_neg hkey]

theorem insertOrder_duplicate {keys : List Uuid} {generated : Uuid} (hkey : generated ∈ keys) (userId : UserId)
    (status : OrderStatus) :
    insertOrder keys generated userId.value (OrderStatusMapper.toString status) = .error .uniqueViolation := by
  unfold insertOrder
  rw [Uuid.uuidColumn_value]
  simp only [parameter, bind, Except.bind]
  rw [if_neg (not_not_intro (toString_mem_storedStatuses status)), if_pos hkey]

theorem currency_create (currency : Currency) :
    Currency.create currency.code (IntegerType.int8.cast currency.minorDigits.val) = .ok currency := by
  unfold Currency.create
  rw [IntegerType.cast_val, dif_neg (Int.not_lt.mpr currency.nonnegative), dif_neg (by simp [currency.nonempty])]

theorem money_create (money : Money) : Money.create money.minorUnits money.currency = .ok money := by
  unfold Money.create
  rw [dif_neg (Int.not_lt.mpr money.nonnegative)]

theorem fromRow_itemRow (orderId : Uuid) (item : OrderItem) :
    OrderItemRowMapper.fromRow (itemRow orderId item) = .ok (rowItem item) := by
  unfold OrderItemRowMapper.fromRow
  simp only [itemRow, Uuid.create_text, currency_create, money_create, bind, Except.bind]
  unfold OrderItem.create
  rw [dif_neg (Int.not_le.mpr item.positive)]
  rfl

theorem fromRow_items (orderId : Uuid) (items : List OrderItem) :
    (items.map (itemRow orderId)).mapM OrderItemRowMapper.fromRow = .ok (items.map rowItem) := by
  rw [Fallible.mapM_ok, List.forall₂_map_left_iff, List.forall₂_map_right_iff, List.forall₂_same]
  intro item _
  exact fromRow_itemRow orderId item

theorem rowItem_eq_iff {item : OrderItem} :
    rowItem item = item ↔ canonicalText item.productId.value = item.productId.value := by
  rw [← Uuid.toId_ofId]
  constructor
  · intro h
    exact congrArg OrderItem.productId h
  · intro h
    unfold rowItem
    rw [h]

theorem itemRow_rowItem (orderId : Uuid) (item : OrderItem) : itemRow orderId (rowItem item) = itemRow orderId item := by
  simp only [itemRow, rowItem, Uuid.ofId_toId]

theorem rowItem_canonical (item : OrderItem) :
    canonicalText (rowItem item).productId.value = (rowItem item).productId.value :=
  (Uuid.ofId item.productId).canonical

theorem fromRow_items_iff {orderId : Uuid} {items : List OrderItem} {rows : List OrderItemRow}
    (hrows : ∀ row ∈ rows, ∃ item, row = itemRow orderId item) :
    rows.mapM OrderItemRowMapper.fromRow = .ok items ↔
      (∀ item ∈ items, canonicalText item.productId.value = item.productId.value) ∧
        rows = items.map (itemRow orderId) := by
  rw [Fallible.mapM_ok]
  constructor
  · intro h
    induction h with
    | nil => simp
    | @cons row item rows items hread hrest ih =>
      obtain ⟨original, rfl⟩ := hrows row (by simp)
      obtain ⟨hcanonical, hlist⟩ := ih (fun r hr => hrows r (List.mem_cons_of_mem _ hr))
      rw [fromRow_itemRow] at hread
      obtain rfl := Except.ok.inj hread
      refine ⟨?_, ?_⟩
      · simp only [List.mem_cons, forall_eq_or_imp]
        exact ⟨rowItem_canonical original, hcanonical⟩
      · rw [List.map_cons, itemRow_rowItem, ← hlist]
  · rintro ⟨hcanonical, rfl⟩
    rw [List.forall₂_map_left_iff, List.forall₂_same]
    intro item hitem
    rw [fromRow_itemRow, rowItem_eq_iff.mpr (hcanonical item hitem)]

end LiquidPetProject.Repository
