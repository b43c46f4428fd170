import LiquidPetProject.ErrorCode

namespace LiquidPetProject.Models

theorem nonempty_of_not_isEmpty {value : String} (h : ¬ value.isEmpty = true) : value.isEmpty = false :=
  Bool.eq_false_of_not_eq_true h

class IdTraits (Tag : Type) where
  isValid : String → Bool

structure StrongID (Tag : Type) [IdTraits Tag] where
  value : String
  nonempty : value.isEmpty = false
  valid : IdTraits.isValid Tag value = true

namespace StrongID

variable {Tag : Type} [IdTraits Tag]

def create (value : String) : Except ErrorCode (StrongID Tag) :=
  if he : value.isEmpty = true then .error (.strongId .emptyId)
  else if hv : IdTraits.isValid Tag value = true then .ok ⟨value, nonempty_of_not_isEmpty he, hv⟩
  else .error (.strongId .invalidFormat)

theorem create_value {value : String} {id : StrongID Tag} (h : create value = .ok id) : id.value = value := by
  unfold create at h
  split_ifs at h
  obtain rfl := Except.ok.inj h
  rfl

theorem create_of_value (id : StrongID Tag) : create id.value = .ok id := by
  unfold create
  rw [dif_neg (by simp [id.nonempty]), dif_pos id.valid]

theorem value_injective {a b : StrongID Tag} (h : a.value = b.value) : a = b := by
  cases a
  cases b
  cases h
  rfl

instance : DecidableEq (StrongID Tag) :=
  fun a b => decidable_of_iff (a.value = b.value) ⟨value_injective, congrArg StrongID.value⟩

instance : LawfulBEq (StrongID Tag) := inferInstance

instance : LawfulBEq (Option (StrongID Tag)) := inferInstance

instance : Repr (StrongID Tag) := ⟨fun id n => reprPrec id.value n⟩

end StrongID

def isHexDigit (c : Char) : Bool := c.isDigit || ('a' ≤ c && c ≤ 'f') || ('A' ≤ c && c ≤ 'F')

def dropHexDigits : ℕ → List Char → Option (List Char)
  | 0, cs => some cs
  | n + 1, c :: cs => if isHexDigit c then dropHexDigits n cs else none
  | _ + 1, [] => none

def matchGroups : List ℕ → List Char → Bool
  | [], cs => cs.isEmpty
  | [n], cs => dropHexDigits n cs == some []
  | n :: ns, cs =>
    match dropHexDigits n cs with
    | some ('-' :: rest) => matchGroups ns rest
    | _ => false

/-- The pattern `^[0-9a-fA-F]{8}-[0-9a-fA-F]{4}-[0-9a-fA-F]{4}-[0-9a-fA-F]{4}-[0-9a-fA-F]{12}$`. -/
def isValidUuid (value : String) : Bool := matchGroups [8, 4, 4, 4, 12] value.toList

structure OrderIdTag
structure UserIdTag
structure ProductIdTag
structure OutboxEventIdTag

instance : IdTraits OrderIdTag := ⟨isValidUuid⟩
instance : IdTraits UserIdTag := ⟨isValidUuid⟩
instance : IdTraits ProductIdTag := ⟨isValidUuid⟩
instance : IdTraits OutboxEventIdTag := ⟨isValidUuid⟩

abbrev OrderId := StrongID OrderIdTag
abbrev UserId := StrongID UserIdTag
abbrev ProductId := StrongID ProductIdTag
abbrev OutboxEventId := StrongID OutboxEventIdTag

example : isValidUuid "550e8400-e29b-41d4-a716-446655440000" = true := by decide

end LiquidPetProject.Models
