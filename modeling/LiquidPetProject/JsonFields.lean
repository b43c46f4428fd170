import LiquidPetProject.Fallible
import LiquidPetProject.Json

namespace LiquidPetProject

open FixedWidth Fallible

namespace Json

inductive Scalar
  | null
  | boolean (b : Bool)
  | number (q : ℚ)
  | string (s : String)
  deriving DecidableEq

def scalar : Json → Option Scalar
  | null => some .null
  | boolean b => some (.boolean b)
  | numberUnsigned n => some (.number n.toNat)
  | numberInteger z => some (.number z.toInt)
  | numberFloat q => some (.number q)
  | string s => some (.string s)
  | _ => none

def member : Json → String → Option Json
  | object members, key => lookup members key
  | _, _ => none

def scalarAt : List String → Json → Option Scalar
  | [], json => json.scalar
  | key :: path, json => (json.member key).bind (scalarAt path)

def HoldsInteger (T : IntegerType) (path : List String) (json : Json) : Prop :=
  ∃ x : ℤ, json.scalarAt path = some (.number x) ∧ InRange T.bits x

def SameAt (path : List String) (a b : Json) : Prop :=
  (a.scalarAt path).isSome = true ∧ a.scalarAt path = b.scalarAt path

instance (path : List String) (a b : Json) : Decidable (SameAt path a b) := inferInstanceAs (Decidable (_ ∧ _))

theorem sameAt_iff {path : List String} {a b : Json} {s : Scalar} (h : a.scalarAt path = some s) :
    SameAt path a b ↔ b.scalarAt path = some s := by
  unfold SameAt
  rw [h]
  constructor
  · rintro ⟨-, hb⟩
    exact hb.symm
  · intro hb
    exact ⟨rfl, hb.symm⟩

theorem scalarAt_cons {json value : Json} {key : String} (h : json.member key = some value) (path : List String) :
    json.scalarAt (key :: path) = value.scalarAt path := by
  rw [scalarAt, h, Option.bind_some]

theorem holdsInteger_cons {json value : Json} {key : String} (h : json.member key = some value)
    (T : IntegerType) (path : List String) :
    HoldsInteger T (key :: path) json ↔ HoldsInteger T path value := by
  unfold HoldsInteger
  rw [scalarAt_cons h]

theorem ofInteger_scalarAt {T : IntegerType} (x : T.Value) :
    (ofInteger x).scalarAt [] = some (.number x.val) := by
  obtain ⟨hlo, hhi⟩ := IntegerType.inRange_int64 x.property
  have hx : (Int64.ofInt x.val).toInt = x.val := Int64.toInt_ofInt_of_le hlo hhi
  simp only [ofInteger, scalarAt, scalar, hx]

theorem atKey_ok {json value : Json} {key : String} :
    json.atKey key = .ok value ↔ json.member key = some value := by
  cases json with
  | object members =>
    simp only [atKey, member]
    cases lookup members key with
    | none => simp
    | some found => simp
  | _ => simp [atKey, member]

theorem getInteger_exact {unrepresentable : UnrepresentableCast} {T : IntegerType} {json : Json} {x : T.Value}
    (h : json.getInteger unrepresentable T = .ok x) :
    json.scalarAt [] = some (.number x.val) ↔ HoldsInteger T [] json := by
  constructor
  · intro hx
    exact ⟨x.val, hx, x.property⟩
  · rintro ⟨z, hz, hrange⟩
    rw [hz]
    cases json with
    | numberUnsigned n =>
      obtain rfl := Except.ok.inj h
      have hn : (n.toNat : ℤ) = z := by exact_mod_cast Scalar.number.inj (Option.some.inj hz)
      rw [hn, (T.cast_eq_iff z).mpr hrange]
    | numberInteger m =>
      obtain rfl := Except.ok.inj h
      have hm : m.toInt = z := by exact_mod_cast Scalar.number.inj (Option.some.inj hz)
      rw [hm, (T.cast_eq_iff z).mpr hrange]
    | numberFloat q =>
      obtain rfl := Except.ok.inj h
      have hq : q = z := Scalar.number.inj (Option.some.inj hz)
      rw [hq, castRational_intCast unrepresentable hrange]
    | _ => simp [scalarAt, scalar] at hz

theorem getString_ok {json : Json} {s : String} (h : json.getString = .ok s) :
    json.scalarAt [] = some (.string s) := by
  cases json with
  | string t =>
    obtain rfl := Except.ok.inj h
    rfl
  | _ => cases h

end Json

namespace JsonHelper

theorem getValue_ok {α : Type} {get : Json → Except JsonException α} {json : Json} {key : String} {value : α} :
    getValue get json key = .ok value ↔ ∃ found, json.member key = some found ∧ get found = .ok value := by
  simp only [← Json.atKey_ok]
  rw [← bind_ok]
  unfold getValue
  cases json.atKey key >>= get with
  | ok found => simp
  | error e => cases e <;> simp

theorem getValue_getJson {json value : Json} {key : String} (h : getValue Json.getJson json key = .ok value) :
    json.member key = some value := by
  obtain ⟨found, hfound, hget⟩ := getValue_ok.mp h
  obtain rfl := Except.ok.inj hget
  exact hfound

theorem getValue_getString {json : Json} {key s : String} (h : getValue Json.getString json key = .ok s) :
    json.scalarAt [key] = some (.string s) := by
  obtain ⟨found, hfound, hget⟩ := getValue_ok.mp h
  rw [Json.scalarAt_cons hfound]
  exact Json.getString_ok hget

theorem getValue_getInteger {unrepresentable : UnrepresentableCast} {T : IntegerType} {json : Json} {key : String}
    {x : T.Value} (h : getValue (Json.getInteger unrepresentable T) json key = .ok x) :
    json.scalarAt [key] = some (.number x.val) ↔ Json.HoldsInteger T [key] json := by
  obtain ⟨found, hfound, hget⟩ := getValue_ok.mp h
  rw [Json.scalarAt_cons hfound, Json.holdsInteger_cons hfound]
  exact Json.getInteger_exact hget

end JsonHelper

end LiquidPetProject
