import Mathlib.Tactic

namespace LiquidPetProject.FixedWidth

def InRange (bits : ℕ) (x : ℤ) : Prop := -(2 ^ (bits - 1)) ≤ x ∧ x < 2 ^ (bits - 1)

instance (bits : ℕ) (x : ℤ) : Decidable (InRange bits x) := inferInstanceAs (Decidable (_ ∧ _))

def staticCast (bits : ℕ) (x : ℤ) : ℤ := x.bmod (2 ^ bits)

theorem half_width {bits : ℕ} (hb : 0 < bits) : (2 : ℤ) ^ bits = 2 * 2 ^ (bits - 1) := by
  obtain ⟨n, rfl⟩ := Nat.exists_eq_succ_of_ne_zero hb.ne'
  rw [Nat.succ_sub_one, pow_succ]
  ring

theorem staticCast_inRange {bits : ℕ} (hb : 0 < bits) (x : ℤ) : InRange bits (staticCast bits x) := by
  have hw := half_width hb
  have hpos : 0 < 2 ^ bits := Nat.two_pow_pos bits
  have hlo := Int.le_bmod (x := x) hpos
  have hhi := Int.bmod_lt (x := x) hpos
  unfold InRange staticCast
  push_cast at hlo hhi ⊢
  omega

theorem staticCast_of_inRange {bits : ℕ} (hb : 0 < bits) {x : ℤ} (h : InRange bits x) :
    staticCast bits x = x := by
  have hw := half_width hb
  apply Int.bmod_eq_of_le_mul_two
  all_goals
    unfold InRange at h
    push_cast
    omega

theorem staticCast_eq_iff {bits : ℕ} (hb : 0 < bits) {x : ℤ} :
    staticCast bits x = x ↔ InRange bits x :=
  ⟨fun h => h ▸ staticCast_inRange hb x, staticCast_of_inRange hb⟩

inductive IntegerType
  | int8 | int | int64
  deriving DecidableEq, Repr

namespace IntegerType

def bits : IntegerType → ℕ
  | int8 => 8
  | int => 32
  | int64 => 64

theorem bits_pos (T : IntegerType) : 0 < T.bits := by
  cases T <;> decide

abbrev Value (T : IntegerType) := {x : ℤ // InRange T.bits x}

def cast (T : IntegerType) (x : ℤ) : T.Value := ⟨staticCast T.bits x, staticCast_inRange T.bits_pos x⟩

theorem cast_eq_iff (T : IntegerType) (x : ℤ) : (T.cast x).val = x ↔ InRange T.bits x :=
  staticCast_eq_iff T.bits_pos

theorem cast_val {T : IntegerType} (x : T.Value) : T.cast x.val = x :=
  Subtype.ext (staticCast_of_inRange T.bits_pos x.property)

theorem inRange_int64 {T : IntegerType} {x : ℤ} (h : InRange T.bits x) : InRange IntegerType.int64.bits x := by
  unfold InRange at h ⊢
  cases T <;> simp only [bits] at h ⊢ <;> omega

def max (T : IntegerType) : ℤ := 2 ^ (T.bits - 1) - 1

def checked (T : IntegerType) (x : ℤ) : Option T.Value := if h : InRange T.bits x then some ⟨x, h⟩ else none

theorem checked_eq {T : IntegerType} {x : ℤ} (h : InRange T.bits x) : T.checked x = some ⟨x, h⟩ := dif_pos h

theorem le_max {T : IntegerType} (x : T.Value) : x.val ≤ T.max := by
  have hx := x.property.2
  unfold max
  omega

theorem inRange_of_nonneg {T : IntegerType} {x : ℤ} (h0 : 0 ≤ x) (hx : x ≤ T.max) : InRange T.bits x := by
  have hpos : (0 : ℤ) < 2 ^ (T.bits - 1) := by positivity
  unfold max at hx
  unfold InRange
  omega

end IntegerType

/-- The values a conversion of an unrepresentable floating-point number may produce. -/
abbrev UnrepresentableCast := (T : IntegerType) → ℚ → T.Value

def truncate (q : ℚ) : ℤ := if 0 ≤ q then ⌊q⌋ else ⌈q⌉

theorem truncate_intCast (x : ℤ) : truncate x = x := by
  unfold truncate
  rw [Int.floor_intCast, Int.ceil_intCast, ite_self]

/-- The conversion of a floating-point number: towards zero when the result is representable. -/
def castRational (unrepresentable : UnrepresentableCast) (T : IntegerType) (q : ℚ) : T.Value :=
  if h : InRange T.bits (truncate q) then ⟨truncate q, h⟩ else unrepresentable T q

theorem castRational_intCast (unrepresentable : UnrepresentableCast) {T : IntegerType} {x : ℤ}
    (h : InRange T.bits x) : (castRational unrepresentable T x).val = x := by
  unfold castRational
  simp only [truncate_intCast]
  rw [dif_pos h]

end LiquidPetProject.FixedWidth
