import LiquidPetProject.StrongID

namespace LiquidPetProject.Repository

open Models

def lowerHex : Char → Char
  | 'A' => 'a'
  | 'B' => 'b'
  | 'C' => 'c'
  | 'D' => 'd'
  | 'E' => 'e'
  | 'F' => 'f'
  | c => c

/-- The text in which the database returns a uuid that was given in the form of the ids. -/
def canonicalText (value : String) : String := String.ofList (value.toList.map lowerHex)

@[simp] theorem isHexDigit_lowerHex (c : Char) : isHexDigit (lowerHex c) = isHexDigit c := by
  unfold lowerHex
  split <;> rfl

theorem lowerHex_of_notMem {c : Char} (h : c ∉ ['A', 'B', 'C', 'D', 'E', 'F']) : lowerHex c = c := by
  unfold lowerHex
  split <;> simp_all

@[simp] theorem lowerHex_lowerHex (c : Char) : lowerHex (lowerHex c) = lowerHex c := by
  by_cases h : c ∈ ['A', 'B', 'C', 'D', 'E', 'F']
  · simp only [List.mem_cons, List.not_mem_nil, or_false] at h
    rcases h with rfl | rfl | rfl | rfl | rfl | rfl
    all_goals rfl
  · rw [lowerHex_of_notMem h, lowerHex_of_notMem h]

theorem lowerHex_eq_hyphen {c : Char} : lowerHex c = '-' ↔ c = '-' := by
  by_cases h : c ∈ ['A', 'B', 'C', 'D', 'E', 'F']
  · simp only [List.mem_cons, List.not_mem_nil, or_false] at h
    rcases h with rfl | rfl | rfl | rfl | rfl | rfl
    all_goals decide
  · rw [lowerHex_of_notMem h]

theorem dropHexDigits_lowerHex (n : ℕ) (cs : List Char) :
    dropHexDigits n (cs.map lowerHex) = (dropHexDigits n cs).map (List.map lowerHex) := by
  induction n generalizing cs with
  | zero => rfl
  | succ n ih =>
    cases cs with
    | nil => rfl
    | cons c cs =>
      simp only [List.map_cons, dropHexDigits, isHexDigit_lowerHex]
      split_ifs
      · exact ih cs
      · rfl

theorem matchGroups_lowerHex (groups : List ℕ) (cs : List Char) :
    matchGroups groups (cs.map lowerHex) = matchGroups groups cs := by
  induction groups generalizing cs with
  | nil => cases cs <;> rfl
  | cons n groups ih =>
    cases groups with
    | nil =>
      simp only [matchGroups, dropHexDigits_lowerHex]
      cases dropHexDigits n cs with
      | none => rfl
      | some rest => cases rest <;> rfl
    | cons m groups =>
      simp only [matchGroups, dropHexDigits_lowerHex]
      cases hd : dropHexDigits n cs with
      | none => rfl
      | some rest =>
        cases rest with
        | nil => rfl
        | cons c rest =>
          simp only [Option.map_some, List.map_cons]
          by_cases hc : c = '-'
          · subst hc
            exact ih rest
          · have hl : lowerHex c ≠ '-' := fun he => hc (lowerHex_eq_hyphen.mp he)
            split
            · rename_i heq
              exact absurd (List.cons.inj (Option.some.inj heq)).1 hl
            · split
              · rename_i heq
                exact absurd (List.cons.inj (Option.some.inj heq)).1 hc
              · rfl

theorem isValidUuid_canonicalText (value : String) : isValidUuid (canonicalText value) = isValidUuid value := by
  simp only [isValidUuid, canonicalText, String.toList_ofList, matchGroups_lowerHex]

@[simp] theorem canonicalText_canonicalText (value : String) :
    canonicalText (canonicalText value) = canonicalText value := by
  simp only [canonicalText, String.toList_ofList, List.map_map]
  congr 2
  funext c
  exact lowerHex_lowerHex c

theorem nonempty_of_isValidUuid {value : String} (h : isValidUuid value = true) : value.isEmpty = false := by
  rw [Bool.eq_false_iff]
  intro he
  rw [String.isEmpty_iff.mp he] at h
  cases h

structure Uuid where
  text : String
  valid : isValidUuid text = true
  canonical : canonicalText text = text
  deriving DecidableEq

class IsUuid (Tag : Type) [IdTraits Tag] : Prop where
  isValid : ∀ value, IdTraits.isValid Tag value = isValidUuid value

instance : IsUuid OrderIdTag := ⟨fun _ => rfl⟩

instance : IsUuid UserIdTag := ⟨fun _ => rfl⟩

instance : IsUuid ProductIdTag := ⟨fun _ => rfl⟩

instance : IsUuid OutboxEventIdTag := ⟨fun _ => rfl⟩

theorem canonicalText_valid {value : String} (h : isValidUuid value = true) :
    isValidUuid (canonicalText value) = true :=
  (isValidUuid_canonicalText value).trans h

def uuidColumn (value : String) : Option Uuid :=
  if h : isValidUuid value = true then
    some ⟨canonicalText value, canonicalText_valid h, canonicalText_canonicalText value⟩
  else none

namespace Uuid

variable {Tag : Type} [IdTraits Tag] [IsUuid Tag]

theorem valid_id (id : StrongID Tag) : isValidUuid id.value = true :=
  (IsUuid.isValid id.value).symm.trans id.valid

theorem valid_text (u : Uuid) : IdTraits.isValid Tag u.text = true := (IsUuid.isValid u.text).trans u.valid

def ofId (id : StrongID Tag) : Uuid :=
  ⟨canonicalText id.value, canonicalText_valid (valid_id id), canonicalText_canonicalText id.value⟩

def toId (u : Uuid) : StrongID Tag := ⟨u.text, nonempty_of_isValidUuid u.valid, valid_text u⟩

theorem uuidColumn_value (id : StrongID Tag) : uuidColumn id.value = some (ofId id) := dif_pos (valid_id id)

theorem uuidColumn_text (u : Uuid) : uuidColumn u.text = some u := by
  unfold uuidColumn
  rw [dif_pos u.valid]
  simp only [u.canonical]

theorem create_text (u : Uuid) : StrongID.create u.text = .ok (u.toId : StrongID Tag) :=
  StrongID.create_of_value (u.toId : StrongID Tag)

theorem ofId_toId (u : Uuid) : ofId (u.toId : StrongID Tag) = u := by
  cases u
  simp only [ofId, toId, mk.injEq]
  assumption

theorem toId_ofId {id : StrongID Tag} : (ofId id).toId = id ↔ canonicalText id.value = id.value := by
  constructor
  · intro h
    exact congrArg StrongID.value h
  · intro h
    exact StrongID.value_injective h

end Uuid

end LiquidPetProject.Repository
