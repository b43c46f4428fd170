import LiquidPetProject.Order

namespace LiquidPetProject.Models

open FixedWidth

namespace Money

/-- An amount that an operation on `int64_t` gives, none when the operation overflows. -/
def ofArithmetic (x : ℤ) (hx : 0 ≤ x) (currency : Currency) : Option Money :=
  if h : InRange IntegerType.int64.bits x then some ⟨⟨x, h⟩, currency, hx⟩ else none

def add (money other : Money) : Option (Except ErrorCode Money) :=
  if money.currency.code ≠ other.currency.code then some (.error (.money .differentCurrencies))
  else
    (IntegerType.int64.checked (IntegerType.int64.max - other.minorUnits.val)).bind fun room =>
      if money.minorUnits.val > room.val then some (.error (.money .overflow))
      else
        (ofArithmetic (money.minorUnits.val + other.minorUnits.val)
          (Int.add_nonneg money.nonnegative other.nonnegative) money.currency).map .ok

def sub (money other : Money) : Option (Except ErrorCode Money) :=
  if money.currency.code ≠ other.currency.code then some (.error (.money .differentCurrencies))
  else if h : money.minorUnits.val < other.minorUnits.val then some (.error (.money .underflow))
  else
    (ofArithmetic (money.minorUnits.val - other.minorUnits.val) (Int.sub_nonneg_of_le (not_lt.mp h))
      money.currency).map .ok

def mul (money : Money) (quantity : IntegerType.int.Value) : Option (Except ErrorCode Money) :=
  if quantity.val = 0 then (ofArithmetic 0 le_rfl money.currency).map .ok
  else if hq : quantity.val < 0 then some (.error (.money .negativeAmount))
  else
    (IntegerType.int64.checked (IntegerType.int64.max.tdiv quantity.val)).bind fun limit =>
      if money.minorUnits.val > limit.val then some (.error (.money .overflow))
      else
        (ofArithmetic (money.minorUnits.val * quantity.val)
          (Int.mul_nonneg money.nonnegative (not_lt.mp hq)) money.currency).map .ok

theorem ofArithmetic_eq {x : ℤ} (hx : 0 ≤ x) (currency : Currency) (h : InRange IntegerType.int64.bits x) :
    ofArithmetic x hx currency = some ⟨⟨x, h⟩, currency, hx⟩ := dif_pos h

theorem add_differentCurrencies {money other : Money} (h : money.currency.code ≠ other.currency.code) :
    money.add other = some (.error (.money .differentCurrencies)) := if_pos h

theorem checked_room (money : Money) :
    ∃ room, IntegerType.int64.checked (IntegerType.int64.max - money.minorUnits.val) = some room ∧
      room.val = IntegerType.int64.max - money.minorUnits.val := by
  have h0 := money.nonnegative
  have hmax := IntegerType.le_max money.minorUnits
  have hrange : InRange IntegerType.int64.bits (IntegerType.int64.max - money.minorUnits.val) := by
    apply IntegerType.inRange_of_nonneg
    · omega
    · omega
  exact ⟨_, IntegerType.checked_eq hrange, rfl⟩

theorem add_overflow {money other : Money} (hc : money.currency.code = other.currency.code)
    (h : IntegerType.int64.max < money.minorUnits.val + other.minorUnits.val) :
    money.add other = some (.error (.money .overflow)) := by
  obtain ⟨room, hroom, hval⟩ := checked_room other
  unfold add
  rw [if_neg (not_not.mpr hc), hroom, Option.bind_some, if_pos]
  omega

theorem add_ok {money other : Money} (hc : money.currency.code = other.currency.code)
    (h : money.minorUnits.val + other.minorUnits.val ≤ IntegerType.int64.max) :
    ∃ sum, money.add other = some (.ok sum) ∧ sum.currency = money.currency ∧
      sum.minorUnits.val = money.minorUnits.val + other.minorUnits.val := by
  obtain ⟨room, hroom, hval⟩ := checked_room other
  have hpos := Int.add_nonneg money.nonnegative other.nonnegative
  have hrange := IntegerType.inRange_of_nonneg hpos h
  unfold add
  rw [if_neg (not_not.mpr hc), hroom, Option.bind_some, if_neg (by omega), ofArithmetic_eq hpos _ hrange]
  exact ⟨_, rfl, rfl, rfl⟩

theorem sub_differentCurrencies {money other : Money} (h : money.currency.code ≠ other.currency.code) :
    money.sub other = some (.error (.money .differentCurrencies)) := if_pos h

theorem sub_underflow {money other : Money} (hc : money.currency.code = other.currency.code)
    (h : money.minorUnits.val - other.minorUnits.val < 0) :
    money.sub other = some (.error (.money .underflow)) := by
  unfold sub
  rw [if_neg (not_not.mpr hc), dif_pos (by omega)]

theorem sub_ok {money other : Money} (hc : money.currency.code = other.currency.code)
    (h : 0 ≤ money.minorUnits.val - other.minorUnits.val) :
    ∃ difference, money.sub other = some (.ok difference) ∧ difference.currency = money.currency ∧
      difference.minorUnits.val = money.minorUnits.val - other.minorUnits.val := by
  have hmax := IntegerType.le_max money.minorUnits
  have h0 := other.nonnegative
  have hrange : InRange IntegerType.int64.bits (money.minorUnits.val - other.minorUnits.val) := by
    apply IntegerType.inRange_of_nonneg h
    omega
  unfold sub
  rw [if_neg (not_not.mpr hc), dif_neg (by omega), ofArithmetic_eq h _ hrange]
  exact ⟨_, rfl, rfl, rfl⟩

theorem checked_limit {quantity : IntegerType.int.Value} (hq : 0 < quantity.val) :
    ∃ limit, IntegerType.int64.checked (IntegerType.int64.max.tdiv quantity.val) = some limit ∧
      ∀ x : ℤ, x ≤ limit.val ↔ x * quantity.val ≤ IntegerType.int64.max := by
  have hmax : 0 ≤ IntegerType.int64.max := by decide
  have hle : IntegerType.int64.max.tdiv quantity.val ≤ IntegerType.int64.max := Int.tdiv_le_self _ hmax
  have hrange := IntegerType.inRange_of_nonneg (Int.tdiv_nonneg hmax hq.le) hle
  refine ⟨_, IntegerType.checked_eq hrange, ?_⟩
  intro x
  dsimp only
  rw [Int.tdiv_eq_ediv_of_nonneg hmax]
  exact Int.le_ediv_iff_mul_le hq

theorem mul_zero {money : Money} {quantity : IntegerType.int.Value} (hq : quantity.val = 0) :
    ∃ product, money.mul quantity = some (.ok product) ∧ product.currency = money.currency ∧
      product.minorUnits.val = 0 := by
  have hrange : InRange IntegerType.int64.bits 0 := by decide
  unfold mul
  rw [if_pos hq, ofArithmetic_eq le_rfl _ hrange]
  exact ⟨_, rfl, rfl, rfl⟩

theorem mul_negative {money : Money} {quantity : IntegerType.int.Value} (hq : quantity.val < 0) :
    money.mul quantity = some (.error (.money .negativeAmount)) := by
  unfold mul
  rw [if_neg hq.ne, dif_pos hq]

theorem mul_overflow {money : Money} {quantity : IntegerType.int.Value} (hq : 0 < quantity.val)
    (h : IntegerType.int64.max < money.minorUnits.val * quantity.val) :
    money.mul quantity = some (.error (.money .overflow)) := by
  obtain ⟨limit, hlimit, hle⟩ := checked_limit hq
  unfold mul
  rw [if_neg hq.ne', dif_neg (not_lt.mpr hq.le), hlimit, Option.bind_some, if_pos]
  exact not_le.mp (fun hx => absurd ((hle _).mp hx) (not_le.mpr h))

theorem mul_ok {money : Money} {quantity : IntegerType.int.Value} (hq : 0 < quantity.val)
    (h : money.minorUnits.val * quantity.val ≤ IntegerType.int64.max) :
    ∃ product, money.mul quantity = some (.ok product) ∧ product.currency = money.currency ∧
      product.minorUnits.val = money.minorUnits.val * quantity.val := by
  obtain ⟨limit, hlimit, hle⟩ := checked_limit hq
  have hpos := Int.mul_nonneg money.nonnegative hq.le
  have hrange := IntegerType.inRange_of_nonneg hpos h
  unfold mul
  rw [if_neg hq.ne', dif_neg (not_lt.mpr hq.le), hlimit, Option.bind_some,
    if_neg (not_lt.mpr ((hle _).mpr h)), ofArithmetic_eq hpos _ hrange]
  exact ⟨_, rfl, rfl, rfl⟩

end Money

namespace OrderItem

def lineTotal (item : OrderItem) : Option (Except ErrorCode Money) :=
  (item.priceAtOrderTime.mul item.quantity).map fun totalPrice =>
    match totalPrice with
    | .error _ => .error (.orderItem .priceOverflow)
    | .ok total => .ok total

def amount (item : OrderItem) : ℤ := item.priceAtOrderTime.minorUnits.val * item.quantity.val

theorem amount_nonneg (item : OrderItem) : 0 ≤ item.amount :=
  Int.mul_nonneg item.priceAtOrderTime.nonnegative item.positive.le

theorem lineTotal_overflow {item : OrderItem} (h : IntegerType.int64.max < item.amount) :
    item.lineTotal = some (.error (.orderItem .priceOverflow)) := by
  unfold lineTotal
  rw [Money.mul_overflow item.positive h]
  rfl

theorem lineTotal_ok {item : OrderItem} (h : item.amount ≤ IntegerType.int64.max) :
    ∃ total, item.lineTotal = some (.ok total) ∧ total.currency = item.priceAtOrderTime.currency ∧
      total.minorUnits.val = item.amount := by
  obtain ⟨product, hmul, hcurrency, hval⟩ := Money.mul_ok item.positive h
  unfold lineTotal
  rw [hmul]
  exact ⟨product, rfl, hcurrency, hval⟩

end OrderItem

namespace Order

def sumItems : List OrderItem → Except ErrorCode Money → Option (Except ErrorCode Money)
  | [], total => some total
  | _ :: _, .error e => some (.error e)
  | item :: items, .ok total =>
    item.lineTotal.bind fun line =>
      match line with
      | .error e => some (.error e)
      | .ok amount => (total.add amount).bind (sumItems items)

def totalAmount (order : Order) : Option (Except ErrorCode Money) :=
  let currency := (order.items.head order.nonempty).priceAtOrderTime.currency
  sumItems order.items (Money.create (IntegerType.int64.cast 0) currency)

end Order

end LiquidPetProject.Models
