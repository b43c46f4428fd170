import LiquidPetProject.MoneyArithmetic

namespace LiquidPetProject.Models

open FixedWidth

inductive MoneyExpression
  | create (minorUnits : IntegerType.int64.Value) (currency : Currency)
  | add (left right : MoneyExpression)
  | sub (left right : MoneyExpression)
  | mul (operand : MoneyExpression) (quantity : IntegerType.int.Value)

namespace Money

def quotient (T : IntegerType) (x y : ℤ) : Option T.Value := if y = 0 then none else T.checked (x.tdiv y)

theorem zero_units : (0 : ℤ) ≤ 0 := le_rfl

theorem product_units (money : Money) {quantity : IntegerType.int.Value} (hq : ¬ quantity.val < 0) :
    0 ≤ money.minorUnits.val * quantity.val :=
  Int.mul_nonneg money.nonnegative (not_lt.mp hq)

def times (money : Money) (quantity : IntegerType.int.Value) : Option (Except ErrorCode Money) :=
  if quantity.val = 0 then (ofArithmetic 0 zero_units money.currency).map .ok
  else if hq : quantity.val < 0 then some (.error (.money .negativeAmount))
  else
    (quotient .int64 IntegerType.int64.max quantity.val).bind fun limit =>
      if money.minorUnits.val > limit.val then some (.error (.money .overflow))
      else
        (ofArithmetic (money.minorUnits.val * quantity.val) (product_units money hq) money.currency).map .ok

theorem times_eq_mul (money : Money) (quantity : IntegerType.int.Value) :
    money.times quantity = money.mul quantity := by
  unfold times mul
  by_cases hq : quantity.val = 0
  · rw [if_pos hq, if_pos hq]
  · rw [if_neg hq, if_neg hq, quotient, if_neg hq]

structure Computes (op : Money → Money → Option (Except ErrorCode Money)) (f : ℤ → ℤ → ℤ) : Prop where
  differentCurrencies : ∀ a b : Money, a.currency.code ≠ b.currency.code →
    op a b = some (.error (.money .differentCurrencies))
  outOfRange : ∀ a b : Money, a.currency.code = b.currency.code →
    f a.minorUnits.val b.minorUnits.val < 0 ∨ IntegerType.int64.max < f a.minorUnits.val b.minorUnits.val →
    ∃ error, op a b = some (.error error)
  inRange : ∀ a b : Money, a.currency.code = b.currency.code → 0 ≤ f a.minorUnits.val b.minorUnits.val →
    f a.minorUnits.val b.minorUnits.val ≤ IntegerType.int64.max →
    ∃ money, op a b = some (.ok money) ∧ money.currency = a.currency ∧
      money.minorUnits.val = f a.minorUnits.val b.minorUnits.val

theorem computes_add : Computes add (· + ·) where
  differentCurrencies a b h := add_differentCurrencies h
  outOfRange a b hc h := by
    have hpos := Int.add_nonneg a.nonnegative b.nonnegative
    exact ⟨_, add_overflow hc (h.resolve_left (not_lt.mpr hpos))⟩
  inRange a b hc _ h := add_ok hc h

theorem computes_sub : Computes sub (· - ·) where
  differentCurrencies a b h := sub_differentCurrencies h
  outOfRange a b hc h := by
    have hmax := IntegerType.le_max a.minorUnits
    have hpos := b.nonnegative
    exact ⟨_, sub_underflow hc (h.resolve_right (by omega))⟩
  inRange a b hc h _ := sub_ok hc h

def andThen (result : Option (Except ErrorCode Money)) (rest : Money → Option (Except ErrorCode Money)) :
    Option (Except ErrorCode Money) :=
  result.bind fun
    | .error e => some (.error e)
    | .ok money => rest money

theorem andThen_ok {money : Money} {rest : Money → Option (Except ErrorCode Money)} :
    andThen (some (.ok money)) rest = rest money := rfl

theorem andThen_error {e : ErrorCode} {rest : Money → Option (Except ErrorCode Money)} :
    andThen (some (.error e)) rest = some (.error e) := rfl

end Money

namespace MoneyExpression

open Money

def eval : MoneyExpression → Option (Except ErrorCode Money)
  | create minorUnits currency => some (Money.create minorUnits currency)
  | add left right => andThen left.eval fun a => andThen right.eval fun b => a.add b
  | sub left right => andThen left.eval fun a => andThen right.eval fun b => a.sub b
  | mul operand quantity => andThen operand.eval fun a => a.times quantity

def value : MoneyExpression → ℤ
  | create minorUnits _ => minorUnits.val
  | add left right => left.value + right.value
  | sub left right => left.value - right.value
  | mul operand quantity => operand.value * quantity.val

def leaves : MoneyExpression → List (IntegerType.int64.Value × Currency)
  | create minorUnits currency => [(minorUnits, currency)]
  | add left right => left.leaves ++ right.leaves
  | sub left right => left.leaves ++ right.leaves
  | mul operand _ => operand.leaves

def nodes : MoneyExpression → List MoneyExpression
  | create minorUnits currency => [create minorUnits currency]
  | add left right => add left right :: (left.nodes ++ right.nodes)
  | sub left right => sub left right :: (left.nodes ++ right.nodes)
  | mul operand quantity => mul operand quantity :: operand.nodes

def DifferentCodes (left right : MoneyExpression) : Prop :=
  ∃ a ∈ left.leaves, ∃ b ∈ right.leaves, a.2.code ≠ b.2.code

def CombinesCurrencies : MoneyExpression → Prop
  | add left right => DifferentCodes left right
  | sub left right => DifferentCodes left right
  | _ => False

def NegativeMultiplier : MoneyExpression → Prop
  | mul _ quantity => quantity.val < 0
  | _ => False

def OutOfRange (e : MoneyExpression) : Prop := e.value < 0 ∨ IntegerType.int64.max < e.value

def Fault (e : MoneyExpression) : Prop := e.CombinesCurrencies ∨ e.NegativeMultiplier ∨ e.OutOfRange

def Faulty (e : MoneyExpression) : Prop := ∃ node ∈ e.nodes, node.Fault

theorem leaves_ne_nil (e : MoneyExpression) : e.leaves ≠ [] := by
  induction e with
  | create minorUnits currency => exact List.cons_ne_nil _ _
  | add left right ihl ihr => exact List.append_ne_nil_of_left_ne_nil ihl _
  | sub left right ihl ihr => exact List.append_ne_nil_of_left_ne_nil ihl _
  | mul operand quantity ih => exact ih

theorem fault_add {left right : MoneyExpression} :
    (add left right).Fault ↔ DifferentCodes left right ∨ (add left right).OutOfRange := by
  change DifferentCodes left right ∨ False ∨ (add left right).OutOfRange ↔ _
  rw [false_or]

theorem fault_sub {left right : MoneyExpression} :
    (sub left right).Fault ↔ DifferentCodes left right ∨ (sub left right).OutOfRange := by
  change DifferentCodes left right ∨ False ∨ (sub left right).OutOfRange ↔ _
  rw [false_or]

theorem fault_mul {operand : MoneyExpression} {quantity : IntegerType.int.Value} :
    (mul operand quantity).Fault ↔ quantity.val < 0 ∨ (mul operand quantity).OutOfRange := by
  change False ∨ quantity.val < 0 ∨ (mul operand quantity).OutOfRange ↔ _
  rw [false_or]

theorem faulty_add {left right : MoneyExpression} :
    (add left right).Faulty ↔ (add left right).Fault ∨ left.Faulty ∨ right.Faulty := by
  simp only [Faulty, nodes, List.mem_cons, List.mem_append, or_and_right, exists_or, exists_eq_left]

theorem faulty_sub {left right : MoneyExpression} :
    (sub left right).Faulty ↔ (sub left right).Fault ∨ left.Faulty ∨ right.Faulty := by
  simp only [Faulty, nodes, List.mem_cons, List.mem_append, or_and_right, exists_or, exists_eq_left]

theorem faulty_mul {operand : MoneyExpression} {quantity : IntegerType.int.Value} :
    (mul operand quantity).Faulty ↔ (mul operand quantity).Fault ∨ operand.Faulty := by
  simp only [Faulty, nodes, List.mem_cons, or_and_right, exists_or, exists_eq_left]

/-- The evaluation of an expression has given an amount, and the amount is the right one. -/
structure Gives (e : MoneyExpression) (money : Money) : Prop where
  eval : e.eval = some (.ok money)
  value : money.minorUnits.val = e.value
  codes : ∀ leaf ∈ e.leaves, leaf.2.code = money.currency.code

def Fails (e : MoneyExpression) : Prop := ∃ error, e.eval = some (.error error)

def Exact (e : MoneyExpression) : Prop := e.Faulty ∧ e.Fails ∨ ¬ e.Faulty ∧ ∃ money, e.Gives money

theorem Gives.nonneg {e : MoneyExpression} {money : Money} (h : e.Gives money) : 0 ≤ e.value := by
  rw [← h.value]
  exact money.nonnegative

theorem Gives.le_max {e : MoneyExpression} {money : Money} (h : e.Gives money) :
    e.value ≤ IntegerType.int64.max := by
  rw [← h.value]
  exact IntegerType.le_max money.minorUnits

theorem differentCodes_iff {left right : MoneyExpression} {a b : Money} (ha : left.Gives a) (hb : right.Gives b) :
    DifferentCodes left right ↔ a.currency.code ≠ b.currency.code := by
  constructor
  · rintro ⟨x, hx, y, hy, hne⟩
    rwa [ha.codes x hx, hb.codes y hy] at hne
  · intro hne
    obtain ⟨x, hx⟩ := List.exists_mem_of_ne_nil _ left.leaves_ne_nil
    obtain ⟨y, hy⟩ := List.exists_mem_of_ne_nil _ right.leaves_ne_nil
    refine ⟨x, hx, y, hy, ?_⟩
    rwa [ha.codes x hx, hb.codes y hy]

theorem exact_create (minorUnits : IntegerType.int64.Value) (currency : Currency) :
    (create minorUnits currency).Exact := by
  have hmax := IntegerType.le_max minorUnits
  have hfaulty : (create minorUnits currency).Faulty ↔ minorUnits.val < 0 := by
    simp only [Faulty, nodes, List.mem_singleton, exists_eq_left, Fault, CombinesCurrencies, NegativeMultiplier,
      OutOfRange, value, false_or]
    omega
  by_cases hneg : minorUnits.val < 0
  · left
    refine ⟨hfaulty.mpr hneg, .money .negativeAmount, ?_⟩
    rw [eval, Money.create, dif_pos hneg]
  · right
    refine ⟨fun h => hneg (hfaulty.mp h), ⟨minorUnits, currency, not_lt.mp hneg⟩, ?_, rfl, ?_⟩
    · rw [eval, Money.create, dif_neg hneg]
    · intro leaf hleaf
      rw [List.mem_singleton.mp hleaf]

theorem exact_binary {op : Money → Money → Option (Except ErrorCode Money)} {f : ℤ → ℤ → ℤ} (hop : Computes op f)
    {e left right : MoneyExpression}
    (heval : e.eval = andThen left.eval fun a => andThen right.eval fun b => op a b)
    (hvalue : e.value = f left.value right.value) (hleaves : e.leaves = left.leaves ++ right.leaves)
    (hfault : e.Fault ↔ DifferentCodes left right ∨ e.OutOfRange)
    (hfaulty : e.Faulty ↔ e.Fault ∨ left.Faulty ∨ right.Faulty) (hl : left.Exact) (hr : right.Exact) : e.Exact := by
  rcases hl with ⟨hbad, error, herror⟩ | ⟨hsound, a, ha⟩
  · left
    refine ⟨hfaulty.mpr (.inr (.inl hbad)), error, ?_⟩
    rw [heval, herror, andThen_error]
  rcases hr with ⟨hbad, error, herror⟩ | ⟨hsound', b, hb⟩
  · left
    refine ⟨hfaulty.mpr (.inr (.inr hbad)), error, ?_⟩
    rw [heval, ha.eval, andThen_ok, herror, andThen_error]
  have hnext : e.eval = op a b := by
    rw [heval, ha.eval, andThen_ok, hb.eval, andThen_ok]
  have hval : e.value = f a.minorUnits.val b.minorUnits.val := by
    rw [hvalue, ha.value, hb.value]
  by_cases hc : a.currency.code = b.currency.code
  · by_cases hout : e.OutOfRange
    · left
      obtain ⟨error, herror⟩ := hop.outOfRange a b hc (by rwa [OutOfRange, hval] at hout)
      exact ⟨hfaulty.mpr (.inl (hfault.mpr (.inr hout))), error, hnext.trans herror⟩
    · right
      have hin : 0 ≤ e.value ∧ e.value ≤ IntegerType.int64.max := by
        unfold OutOfRange at hout
        omega
      rw [hval] at hin
      obtain ⟨money, hmoney, hcurrency, hunits⟩ := hop.inRange a b hc hin.1 hin.2
      constructor
      · rw [hfaulty, hfault, differentCodes_iff ha hb]
        rintro ((hdiff | h) | h | h)
        · exact hdiff hc
        · exact hout h
        · exact hsound h
        · exact hsound' h
      · refine ⟨money, hnext.trans hmoney, hunits.trans hval.symm, ?_⟩
        intro leaf hleaf
        rw [hleaves] at hleaf
        rw [hcurrency]
        rcases List.mem_append.mp hleaf with hleaf | hleaf
        · exact ha.codes leaf hleaf
        · exact (hb.codes leaf hleaf).trans hc.symm
  · left
    have hdiff : DifferentCodes left right := (differentCodes_iff ha hb).mpr hc
    exact ⟨hfaulty.mpr (.inl (hfault.mpr (.inl hdiff))), _, hnext.trans (hop.differentCurrencies a b hc)⟩

theorem exact_mul {operand : MoneyExpression} (quantity : IntegerType.int.Value) (h : operand.Exact) :
    (mul operand quantity).Exact := by
  rcases h with ⟨hbad, error, herror⟩ | ⟨hsound, a, ha⟩
  · left
    refine ⟨faulty_mul.mpr (.inr hbad), error, ?_⟩
    rw [eval, herror, andThen_error]
  have hnext : (mul operand quantity).eval = a.mul quantity := by
    rw [eval, ha.eval, andThen_ok, times_eq_mul]
  have hval : (mul operand quantity).value = a.minorUnits.val * quantity.val := by
    rw [value, ha.value]
  have hsound' (hq : 0 ≤ quantity.val) (hmax : a.minorUnits.val * quantity.val ≤ IntegerType.int64.max) :
      ¬ (mul operand quantity).Faulty := by
    have hpos := Int.mul_nonneg a.nonnegative hq
    rw [faulty_mul, fault_mul, OutOfRange, hval]
    rintro ((h | h | h) | h)
    · omega
    · omega
    · omega
    · exact hsound h
  rcases lt_trichotomy quantity.val 0 with hq | hq | hq
  · left
    exact ⟨faulty_mul.mpr (.inl (.inr (.inl hq))), _, hnext.trans (mul_negative hq)⟩
  · right
    obtain ⟨product, hproduct, hcurrency, hunits⟩ := @mul_zero a _ hq
    have hzero : a.minorUnits.val * quantity.val = 0 := by
      rw [hq, Int.mul_zero]
    refine ⟨hsound' hq.ge (by rw [hzero]; decide), product, hnext.trans hproduct, ?_, ?_⟩
    · rw [hunits, hval, hzero]
    · intro leaf hleaf
      rw [hcurrency]
      exact ha.codes leaf hleaf
  · by_cases hover : IntegerType.int64.max < a.minorUnits.val * quantity.val
    · left
      refine ⟨faulty_mul.mpr (.inl (.inr (.inr (.inr ?_)))), _, hnext.trans (mul_overflow hq hover)⟩
      rwa [hval]
    · right
      obtain ⟨product, hproduct, hcurrency, hunits⟩ := mul_ok hq (not_lt.mp hover)
      refine ⟨hsound' hq.le (not_lt.mp hover), product, hnext.trans hproduct, hunits.trans hval.symm, ?_⟩
      intro leaf hleaf
      rw [hcurrency]
      exact ha.codes leaf hleaf

theorem eval_exact (e : MoneyExpression) : e.Exact := by
  induction e with
  | create minorUnits currency => exact exact_create minorUnits currency
  | add left right ihl ihr => exact exact_binary computes_add rfl rfl rfl fault_add faulty_add ihl ihr
  | sub left right ihl ihr => exact exact_binary computes_sub rfl rfl rfl fault_sub faulty_sub ihl ihr
  | mul operand quantity ih => exact exact_mul quantity ih

theorem leaf_negative {e : MoneyExpression} {leaf : IntegerType.int64.Value × Currency} (hleaf : leaf ∈ e.leaves)
    (hneg : leaf.1.val < 0) : ∃ node ∈ e.nodes, node.OutOfRange := by
  induction e with
  | create minorUnits currency =>
    rw [leaves, List.mem_singleton] at hleaf
    subst hleaf
    exact ⟨_, List.mem_singleton_self _, .inl hneg⟩
  | add left right ihl ihr =>
    rcases List.mem_append.mp hleaf with hleaf | hleaf
    · obtain ⟨node, hnode, hout⟩ := ihl hleaf
      exact ⟨node, List.mem_cons_of_mem _ (List.mem_append_left _ hnode), hout⟩
    · obtain ⟨node, hnode, hout⟩ := ihr hleaf
      exact ⟨node, List.mem_cons_of_mem _ (List.mem_append_right _ hnode), hout⟩
  | sub left right ihl ihr =>
    rcases List.mem_append.mp hleaf with hleaf | hleaf
    · obtain ⟨node, hnode, hout⟩ := ihl hleaf
      exact ⟨node, List.mem_cons_of_mem _ (List.mem_append_left _ hnode), hout⟩
    · obtain ⟨node, hnode, hout⟩ := ihr hleaf
      exact ⟨node, List.mem_cons_of_mem _ (List.mem_append_right _ hnode), hout⟩
  | mul operand quantity ih =>
    obtain ⟨node, hnode, hout⟩ := ih hleaf
    exact ⟨node, List.mem_cons_of_mem _ hnode, hout⟩

theorem faulty_iff (e : MoneyExpression) :
    e.Faulty ↔ (∃ leaf ∈ e.leaves, leaf.1.val < 0) ∨ (∃ node ∈ e.nodes, node.CombinesCurrencies) ∨
      (∃ node ∈ e.nodes, node.NegativeMultiplier) ∨ ∃ node ∈ e.nodes, node.OutOfRange := by
  constructor
  · rintro ⟨node, hnode, hcombines | hnegative | hout⟩
    · exact .inr (.inl ⟨node, hnode, hcombines⟩)
    · exact .inr (.inr (.inl ⟨node, hnode, hnegative⟩))
    · exact .inr (.inr (.inr ⟨node, hnode, hout⟩))
  · rintro (⟨leaf, hleaf, hneg⟩ | ⟨node, hnode, h⟩ | ⟨node, hnode, h⟩ | ⟨node, hnode, h⟩)
    · obtain ⟨node, hnode, hout⟩ := leaf_negative hleaf hneg
      exact ⟨node, hnode, .inr (.inr hout)⟩
    · exact ⟨node, hnode, .inl h⟩
    · exact ⟨node, hnode, .inr (.inl h)⟩
    · exact ⟨node, hnode, .inr (.inr h)⟩

/-- The arithmetic is closed and exact at every nesting: no operation is undefined, an amount that comes
out is the exact one, and an error comes out only when there is none. -/
theorem arithmetic_exact (e : MoneyExpression) :
    (∃ result, e.eval = some result) ∧
    (∀ money, e.eval = some (.ok money) →
      money.minorUnits.val = e.value ∧ 0 ≤ e.value ∧ e.value ≤ 2 ^ 63 - 1 ∧
        ∀ leaf ∈ e.leaves, leaf.2.code = money.currency.code) ∧
    ((∃ error, e.eval = some (.error error)) ↔
      (∃ leaf ∈ e.leaves, leaf.1.val < 0) ∨ (∃ node ∈ e.nodes, node.CombinesCurrencies) ∨
        (∃ node ∈ e.nodes, node.NegativeMultiplier) ∨
          ∃ node ∈ e.nodes, node.value < 0 ∨ 2 ^ 63 - 1 < node.value) := by
  rw [← show IntegerType.int64.max = 2 ^ 63 - 1 from rfl]
  have hfaulty := faulty_iff e
  unfold OutOfRange at hfaulty
  rw [← hfaulty]
  rcases eval_exact e with ⟨hbad, error, herror⟩ | ⟨hsound, a, ha⟩
  · refine ⟨⟨_, herror⟩, ?_, fun _ => hbad, fun _ => ⟨error, herror⟩⟩
    intro money hmoney
    rw [herror] at hmoney
    cases hmoney
  · refine ⟨⟨_, ha.eval⟩, ?_, ?_, fun h => absurd h hsound⟩
    · intro money hmoney
      obtain rfl : a = money := by simpa [ha.eval] using hmoney
      exact ⟨ha.value, ha.nonneg, ha.le_max, ha.codes⟩
    · rintro ⟨error, herror⟩
      rw [ha.eval] at herror
      cases herror

end MoneyExpression

end LiquidPetProject.Models
