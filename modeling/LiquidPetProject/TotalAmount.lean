import LiquidPetProject.MoneyArithmetic

namespace LiquidPetProject.Models

open FixedWidth

def code (item : OrderItem) : String := item.priceAtOrderTime.currency.code

def totalMinorUnits (items : List OrderItem) : ℤ := (items.map OrderItem.amount).sum

def itemError (currencyCode : String) (sum : ℤ) (item : OrderItem) : Option ErrorCode :=
  if IntegerType.int64.max < item.amount then some (.orderItem .priceOverflow)
  else if code item ≠ currencyCode then some (.money .differentCurrencies)
  else if IntegerType.int64.max < sum + item.amount then some (.money .overflow)
  else none

def firstError (currencyCode : String) : ℤ → List OrderItem → Option ErrorCode
  | _, [] => none
  | sum, item :: items => (itemError currencyCode sum item).or (firstError currencyCode (sum + item.amount) items)

def FailsFirst (currencyCode : String) (items : List OrderItem) (e : ErrorCode) : Prop :=
  ∃ before item after, items = before ++ item :: after ∧
    itemError currencyCode (totalMinorUnits before) item = some e ∧
    ∀ earlier next later, before = earlier ++ next :: later →
      itemError currencyCode (totalMinorUnits earlier) next = none

theorem totalMinorUnits_cons (item : OrderItem) (items : List OrderItem) :
    totalMinorUnits (item :: items) = item.amount + totalMinorUnits items := by
  simp [totalMinorUnits]

theorem totalMinorUnits_nonneg (items : List OrderItem) : 0 ≤ totalMinorUnits items := by
  induction items with
  | nil => exact le_rfl
  | cons item items ih =>
    have hitem := item.amount_nonneg
    rw [totalMinorUnits_cons]
    omega

theorem totalMinorUnits_perm {items items' : List OrderItem} (h : items.Perm items') :
    totalMinorUnits items = totalMinorUnits items' :=
  (h.map OrderItem.amount).sum_eq

theorem itemError_none {currencyCode : String} {sum : ℤ} {item : OrderItem} (hsum : 0 ≤ sum) :
    itemError currencyCode sum item = none ↔
      code item = currencyCode ∧ sum + item.amount ≤ IntegerType.int64.max := by
  unfold itemError
  split_ifs with hprice hcode hover
  · simp only [false_iff, not_and, not_le]
    intro _
    omega
  · simp [hcode]
  · simp only [false_iff, not_and, not_le]
    intro _
    exact hover
  · simp only [true_iff]
    exact ⟨not_not.mp hcode, not_lt.mp hover⟩

theorem firstError_none {currencyCode : String} {sum : ℤ} {items : List OrderItem} (hsum : 0 ≤ sum)
    (hmax : sum ≤ IntegerType.int64.max) :
    firstError currencyCode sum items = none ↔
      (∀ item ∈ items, code item = currencyCode) ∧ sum + totalMinorUnits items ≤ IntegerType.int64.max := by
  induction items generalizing sum with
  | nil => simpa [firstError, totalMinorUnits] using hmax
  | cons item items ih =>
    have hitem := item.amount_nonneg
    have hrest := totalMinorUnits_nonneg items
    rw [firstError, Option.or_eq_none_iff, itemError_none hsum, totalMinorUnits_cons, List.forall_mem_cons]
    constructor
    · rintro ⟨⟨hcode, hle⟩, htail⟩
      obtain ⟨hcodes, htotal⟩ := (ih (by omega) hle).mp htail
      exact ⟨⟨hcode, hcodes⟩, by omega⟩
    · rintro ⟨⟨hcode, hcodes⟩, htotal⟩
      refine ⟨⟨hcode, by omega⟩, (ih (by omega) (by omega)).mpr ⟨hcodes, by omega⟩⟩

theorem firstError_some {currencyCode : String} {sum : ℤ} {items : List OrderItem} {e : ErrorCode}
    (h : firstError currencyCode sum items = some e) :
    ∃ before item after, items = before ++ item :: after ∧
      itemError currencyCode (sum + totalMinorUnits before) item = some e ∧
      ∀ earlier next later, before = earlier ++ next :: later →
        itemError currencyCode (sum + totalMinorUnits earlier) next = none := by
  induction items generalizing sum with
  | nil => cases h
  | cons item items ih =>
    rw [firstError] at h
    cases hitem : itemError currencyCode sum item with
    | some e' =>
      rw [hitem, Option.some_or] at h
      refine ⟨[], item, items, rfl, ?_, ?_⟩
      · rw [← h, ← hitem]
        simp [totalMinorUnits]
      · intro earlier next later hnil
        simp at hnil
    | none =>
      rw [hitem, Option.none_or] at h
      obtain ⟨before, failing, after, rfl, hfail, hearlier⟩ := ih h
      refine ⟨item :: before, failing, after, rfl, ?_, ?_⟩
      · rw [totalMinorUnits_cons, ← add_assoc]
        exact hfail
      · intro earlier next later hsplit
        cases earlier with
        | nil =>
          obtain ⟨rfl, -⟩ := List.cons.inj hsplit
          simpa [totalMinorUnits] using hitem
        | cons first earlier =>
          obtain ⟨rfl, hrest⟩ := List.cons.inj hsplit
          rw [totalMinorUnits_cons, ← add_assoc]
          exact hearlier earlier next later hrest

theorem sumItems_cons (item : OrderItem) (items : List OrderItem) (total : Money) :
    (∃ e, itemError total.currency.code total.minorUnits.val item = some e ∧
      Order.sumItems (item :: items) (.ok total) = some (.error e)) ∨
    (itemError total.currency.code total.minorUnits.val item = none ∧
      ∃ sum, Order.sumItems (item :: items) (.ok total) = Order.sumItems items (.ok sum) ∧
        sum.currency = total.currency ∧ sum.minorUnits.val = total.minorUnits.val + item.amount) := by
  unfold itemError
  split_ifs with hprice hcode hover
  · refine .inl ⟨_, rfl, ?_⟩
    rw [Order.sumItems, OrderItem.lineTotal_overflow hprice]
    rfl
  all_goals obtain ⟨line, hline, hcurrency, hamount⟩ := OrderItem.lineTotal_ok (not_lt.mp hprice)
  · refine .inl ⟨_, rfl, ?_⟩
    have hne : total.currency.code ≠ line.currency.code := by
      rw [hcurrency]
      exact Ne.symm hcode
    rw [Order.sumItems, hline, Option.bind_some]
    dsimp only
    rw [Money.add_differentCurrencies hne, Option.bind_some]
    cases items <;> rfl
  · refine .inl ⟨_, rfl, ?_⟩
    have heq : total.currency.code = line.currency.code := by
      rw [hcurrency]
      exact (not_not.mp hcode).symm
    rw [Order.sumItems, hline, Option.bind_some]
    dsimp only
    rw [Money.add_overflow heq (by omega), Option.bind_some]
    cases items <;> rfl
  · refine .inr ⟨rfl, ?_⟩
    have heq : total.currency.code = line.currency.code := by
      rw [hcurrency]
      exact (not_not.mp hcode).symm
    obtain ⟨sum, hadd, hsumCurrency, hsum⟩ := Money.add_ok heq (by omega)
    refine ⟨sum, ?_, hsumCurrency, by omega⟩
    rw [Order.sumItems, hline, Option.bind_some]
    dsimp only
    rw [hadd, Option.bind_some]

theorem sumItems_spec (items : List OrderItem) (total : Money) :
    match firstError total.currency.code total.minorUnits.val items with
    | some e => Order.sumItems items (.ok total) = some (.error e)
    | none => ∃ sum, Order.sumItems items (.ok total) = some (.ok sum) ∧ sum.currency = total.currency ∧
        sum.minorUnits.val = total.minorUnits.val + totalMinorUnits items := by
  induction items generalizing total with
  | nil => exact ⟨total, rfl, rfl, by simp [totalMinorUnits]⟩
  | cons item items ih =>
    rw [firstError]
    rcases sumItems_cons item items total with
      ⟨e, herror, hstop⟩ | ⟨hnone, sum, hstep, hcurrency, hsum⟩
    · rw [herror, Option.some_or]
      exact hstop
    · have htail := ih sum
      rw [hcurrency, hsum] at htail
      rw [hnone, Option.none_or, hstep]
      cases hrest : firstError total.currency.code (total.minorUnits.val + item.amount) items with
      | some e =>
        rw [hrest] at htail
        exact htail
      | none =>
        rw [hrest] at htail
        obtain ⟨final, hfinal, hfinalCurrency, hfinalSum⟩ := htail
        refine ⟨final, hfinal, hfinalCurrency, ?_⟩
        rw [hfinalSum, totalMinorUnits_cons]
        omega

namespace Order

def firstCurrency (order : Order) : Currency := (order.items.head order.nonempty).priceAtOrderTime.currency

theorem totalAmount_spec (order : Order) :
    match firstError order.firstCurrency.code 0 order.items with
    | some e => order.totalAmount = some (.error e)
    | none => ∃ total, order.totalAmount = some (.ok total) ∧ total.currency = order.firstCurrency ∧
        total.minorUnits.val = totalMinorUnits order.items := by
  have hspec := sumItems_spec order.items ⟨IntegerType.int64.cast 0, order.firstCurrency, le_rfl⟩
  have hzero : (IntegerType.int64.cast 0).val = 0 := rfl
  dsimp only at hspec
  rw [hzero] at hspec
  simp only [zero_add] at hspec
  exact hspec

theorem totalAmount_ok {order : Order} {total : Money} (h : order.totalAmount = some (.ok total)) :
    firstError order.firstCurrency.code 0 order.items = none ∧ total.currency = order.firstCurrency ∧
      total.minorUnits.val = totalMinorUnits order.items := by
  have hspec := order.totalAmount_spec
  cases hfirst : firstError order.firstCurrency.code 0 order.items with
  | some e =>
    rw [hfirst, h] at hspec
    cases hspec
  | none =>
    rw [hfirst] at hspec
    obtain ⟨total', htotal', hcurrency, hsum⟩ := hspec
    rw [h] at htotal'
    cases htotal'
    exact ⟨rfl, hcurrency, hsum⟩

theorem firstError_iff (order : Order) :
    firstError order.firstCurrency.code 0 order.items = none ↔
      (∀ item ∈ order.items, ∀ other ∈ order.items, code item = code other) ∧
        totalMinorUnits order.items ≤ IntegerType.int64.max := by
  have hhead : order.items.head order.nonempty ∈ order.items := List.head_mem order.nonempty
  rw [firstError_none le_rfl (by decide), zero_add]
  constructor
  · rintro ⟨hcodes, htotal⟩
    refine ⟨?_, htotal⟩
    intro item hitem other hother
    rw [hcodes item hitem, hcodes other hother]
  · rintro ⟨hcodes, htotal⟩
    exact ⟨fun item hitem => hcodes item hitem _ hhead, htotal⟩

theorem totalAmount_perm {order other : Order} (hperm : other.items.Perm order.items) {total : Money}
    (h : order.totalAmount = some (.ok total)) :
    ∃ total', other.totalAmount = some (.ok total') ∧ total'.minorUnits = total.minorUnits ∧
      total'.currency.code = total.currency.code ∧ total'.currency = other.firstCurrency := by
  obtain ⟨hnone, hcurrency, hsum⟩ := totalAmount_ok h
  obtain ⟨hcodes, hmax⟩ := order.firstError_iff.mp hnone
  have hnone' : firstError other.firstCurrency.code 0 other.items = none := by
    apply other.firstError_iff.mpr
    rw [totalMinorUnits_perm hperm]
    refine ⟨?_, hmax⟩
    intro item hitem next hnext
    exact hcodes item (hperm.subset hitem) next (hperm.subset hnext)
  have hspec := other.totalAmount_spec
  rw [hnone'] at hspec
  obtain ⟨total', htotal', hcurrency', hsum'⟩ := hspec
  refine ⟨total', htotal', Subtype.ext ?_, ?_, hcurrency'⟩
  · rw [hsum', hsum, totalMinorUnits_perm hperm]
  · rw [hcurrency', hcurrency]
    exact hcodes _ (hperm.subset (List.head_mem other.nonempty)) _ (List.head_mem order.nonempty)

/-- The total is exact, and computed without overflow; it fails at the first item that has an error. -/
theorem totalAmount_exact (order : Order) :
    ∃ result, order.totalAmount = some result ∧
      ((∃ total, result = .ok total) ↔
        (∀ item ∈ order.items, ∀ other ∈ order.items, code item = code other) ∧
          totalMinorUnits order.items ≤ IntegerType.int64.max) ∧
      (∀ total, result = .ok total → total.minorUnits.val = totalMinorUnits order.items ∧
        ∀ item ∈ order.items, total.currency.code = code item) ∧
      (∀ e, result = .error e → FailsFirst order.firstCurrency.code order.items e) ∧
      ∀ other : Order, other.items.Perm order.items →
        ((∃ total, result = .ok total) ↔ ∃ total', other.totalAmount = some (.ok total')) ∧
        ∀ total total', result = .ok total → other.totalAmount = some (.ok total') →
          total'.minorUnits = total.minorUnits ∧ total'.currency.code = total.currency.code := by
  have hspec := order.totalAmount_spec
  cases hfirst : firstError order.firstCurrency.code 0 order.items with
  | some e =>
    rw [hfirst] at hspec
    refine ⟨.error e, hspec, ?_, ?_, ?_, ?_⟩
    · rw [← order.firstError_iff, hfirst]
      simp
    · intro total htotal
      cases htotal
    · intro e' he
      obtain rfl := Except.error.inj he
      obtain ⟨before, item, after, hitems, hitem, hbefore⟩ := firstError_some hfirst
      simp only [zero_add] at hitem hbefore
      exact ⟨before, item, after, hitems, hitem, hbefore⟩
    · intro other hperm
      refine ⟨?_, by simp⟩
      simp only [reduceCtorEq, exists_false, false_iff, not_exists]
      intro total' htotal'
      obtain ⟨total, htotal, -⟩ := totalAmount_perm hperm.symm htotal'
      rw [hspec] at htotal
      cases htotal
  | none =>
    rw [hfirst] at hspec
    obtain ⟨total, htotal, hcurrency, hsum⟩ := hspec
    have hiff := order.firstError_iff.mp hfirst
    refine ⟨.ok total, htotal, by simpa using hiff, ?_, ?_, ?_⟩
    · intro total' heq
      obtain rfl := Except.ok.inj heq
      refine ⟨hsum, ?_⟩
      intro item hitem
      rw [hcurrency]
      exact hiff.1 _ (List.head_mem order.nonempty) item hitem
    · intro e he
      cases he
    · intro other hperm
      obtain ⟨found, hfound, hminor, hcode, -⟩ := totalAmount_perm hperm htotal
      refine ⟨⟨fun _ => ⟨found, hfound⟩, fun _ => ⟨total, rfl⟩⟩, ?_⟩
      intro first second hfirst' hsecond
      obtain rfl := Except.ok.inj hfirst'
      rw [hfound] at hsecond
      obtain rfl := Except.ok.inj (Option.some.inj hsecond)
      exact ⟨hminor, hcode⟩

end Order

section MajorUnits

def minorDigits (item : OrderItem) : ℕ := item.priceAtOrderTime.currency.minorDigits.val.toNat

def Money.majorUnits (money : Money) : ℚ := money.minorUnits.val / 10 ^ money.currency.minorDigits.val.toNat

def majorUnits (items : List OrderItem) : ℚ :=
  (items.map (fun item => (item.quantity.val : ℚ) * item.priceAtOrderTime.majorUnits)).sum

def OneScale (items : List OrderItem) : Prop := ∀ item ∈ items, ∀ other ∈ items, minorDigits item = minorDigits other

theorem item_majorUnits (item : OrderItem) :
    (item.quantity.val : ℚ) * item.priceAtOrderTime.majorUnits = (item.amount : ℚ) / 10 ^ minorDigits item := by
  unfold Money.majorUnits OrderItem.amount minorDigits
  push_cast
  ring

theorem majorUnits_of_scale {items : List OrderItem} {digits : ℕ} (h : ∀ item ∈ items, minorDigits item = digits) :
    majorUnits items = (totalMinorUnits items : ℚ) / 10 ^ digits := by
  induction items with
  | nil => simp [majorUnits, totalMinorUnits]
  | cons item items ih =>
    obtain ⟨hitem, hitems⟩ := List.forall_mem_cons.mp h
    have htail := ih hitems
    unfold majorUnits at htail ⊢
    rw [List.map_cons, List.sum_cons, htail, item_majorUnits, hitem, totalMinorUnits_cons]
    push_cast
    ring

theorem majorUnits_of_free {items : List OrderItem} (h : ∀ item ∈ items, item.priceAtOrderTime.minorUnits.val = 0) :
    majorUnits items = 0 ∧ totalMinorUnits items = 0 := by
  induction items with
  | nil => simp [majorUnits, totalMinorUnits]
  | cons item items ih =>
    obtain ⟨hitem, hitems⟩ := List.forall_mem_cons.mp h
    obtain ⟨hmajor, hminor⟩ := ih hitems
    have hamount : item.amount = 0 := by simp [OrderItem.amount, hitem]
    constructor
    · unfold majorUnits at hmajor ⊢
      rw [List.map_cons, List.sum_cons, hmajor, item_majorUnits, hamount]
      simp
    · rw [totalMinorUnits_cons, hamount, hminor, zero_add]

theorem free_of_total {items : List OrderItem} (h : totalMinorUnits items = 0) :
    ∀ item ∈ items, item.priceAtOrderTime.minorUnits.val = 0 := by
  induction items with
  | nil => simp
  | cons item items ih =>
    have hitem := item.amount_nonneg
    have hitems := totalMinorUnits_nonneg items
    rw [totalMinorUnits_cons] at h
    rw [List.forall_mem_cons]
    refine ⟨?_, ih (by omega)⟩
    have hamount : item.priceAtOrderTime.minorUnits.val * item.quantity.val = 0 := by
      change item.amount = 0
      omega
    rcases Int.mul_eq_zero.mp hamount with hprice | hquantity
    · exact hprice
    · exact absurd hquantity item.positive.ne'

theorem total_majorUnits {order : Order} {total : Money} (h : order.totalAmount = some (.ok total)) :
    total.majorUnits = (totalMinorUnits order.items : ℚ) / 10 ^ minorDigits (order.items.head order.nonempty) := by
  obtain ⟨-, hcurrency, hsum⟩ := Order.totalAmount_ok h
  unfold Money.majorUnits
  rw [hcurrency, hsum]
  rfl

theorem Order.startingWith {order : Order} {item : OrderItem} (h : item ∈ order.items) :
    ∃ other : Order, other.items.Perm order.items ∧ other.items.head other.nonempty = item :=
  ⟨{ order with items := item :: order.items.erase item, nonempty := List.cons_ne_nil _ _ },
    (List.perm_cons_erase h).symm, rfl⟩

theorem totalAmount_majorUnits_iff {order : Order} {total : Money} (h : order.totalAmount = some (.ok total)) :
    (total.majorUnits = majorUnits order.items ∧
        ∀ other : Order, other.items.Perm order.items → ∀ total', other.totalAmount = some (.ok total') →
          total'.majorUnits = total.majorUnits) ↔
      OneScale order.items ∨ ∀ item ∈ order.items, item.priceAtOrderTime.minorUnits.val = 0 := by
  have hhead := List.head_mem order.nonempty
  constructor
  · rintro ⟨-, hperm⟩
    by_cases hzero : totalMinorUnits order.items = 0
    · exact .inr (free_of_total hzero)
    · left
      have hscale : ∀ item ∈ order.items, minorDigits item = minorDigits (order.items.head order.nonempty) := by
        intro item hitem
        obtain ⟨other, hother, hfront⟩ := Order.startingWith hitem
        obtain ⟨total', htotal', -⟩ := Order.totalAmount_perm hother h
        have heq := hperm other hother total' htotal'
        rw [total_majorUnits h, total_majorUnits htotal', hfront, totalMinorUnits_perm hother] at heq
        have hne : (totalMinorUnits order.items : ℚ) ≠ 0 := by exact_mod_cast hzero
        have hpow : (10 : ℚ) ^ minorDigits item = 10 ^ minorDigits (order.items.head order.nonempty) := by
          rw [div_eq_div_iff (by positivity) (by positivity)] at heq
          exact (mul_left_cancel₀ hne heq).symm
        exact pow_right_injective₀ (by norm_num) (by norm_num) hpow
      intro item hitem other hother
      rw [hscale item hitem, hscale other hother]
  · rintro (hscale | hfree)
    · have hvalue := majorUnits_of_scale (fun item hitem => hscale item hitem _ hhead)
      refine ⟨by rw [total_majorUnits h, hvalue], ?_⟩
      intro other hperm total' htotal'
      have hdigits := hscale _ (hperm.subset (List.head_mem other.nonempty)) _ hhead
      rw [total_majorUnits htotal', total_majorUnits h, totalMinorUnits_perm hperm, hdigits]
    · obtain ⟨hmajor, hminor⟩ := majorUnits_of_free hfree
      refine ⟨by rw [total_majorUnits h, hmajor, hminor]; simp, ?_⟩
      intro other hperm total' htotal'
      rw [total_majorUnits htotal', total_majorUnits h, totalMinorUnits_perm hperm, hminor]
      simp

def thousandthsItem : OrderItem where
  productId := ⟨"550e8400-e29b-41d4-a716-446655440040", by decide, by decide⟩
  quantity := ⟨4, by decide⟩
  priceAtOrderTime := ⟨⟨275, by decide⟩, ⟨"KWD", ⟨3, by decide⟩, by decide, by decide⟩, by decide⟩
  positive := by decide

def tenthsItem : OrderItem where
  productId := ⟨"550e8400-e29b-41d4-a716-446655440041", by decide, by decide⟩
  quantity := ⟨4, by decide⟩
  priceAtOrderTime := ⟨⟨25, by decide⟩, ⟨"KWD", ⟨1, by decide⟩, by decide, by decide⟩, by decide⟩
  positive := by decide

def mixedOrder : Order where
  userId := ⟨"550e8400-e29b-41d4-a716-446655440042", by decide, by decide⟩
  orderId := none
  items := [thousandthsItem, tenthsItem]
  status := .created
  nonempty := List.cons_ne_nil _ _

theorem totalAmount_majorUnits_mixed :
    ∃ total, mixedOrder.totalAmount = some (.ok total) ∧
      ((total.majorUnits = majorUnits mixedOrder.items ∧
          ∀ other : Order, other.items.Perm mixedOrder.items → ∀ total', other.totalAmount = some (.ok total') →
            total'.majorUnits = total.majorUnits) ↔
        OneScale mixedOrder.items ∨ ∀ item ∈ mixedOrder.items, item.priceAtOrderTime.minorUnits.val = 0) :=
  ⟨_, rfl, totalAmount_majorUnits_iff rfl⟩

theorem mixed_scales_added :
    ∃ total, mixedOrder.totalAmount = some (.ok total) ∧ total.majorUnits = 6 / 5 ∧
      majorUnits mixedOrder.items = 111 / 10 := by
  refine ⟨_, rfl, ?_, ?_⟩
  · decide +kernel
  · decide +kernel

end MajorUnits

end LiquidPetProject.Models
