import LiquidPetProject.ErrorCode
import LiquidPetProject.FixedWidth

namespace LiquidPetProject

open FixedWidth

/-- A JSON document, its numbers kept as the three kinds of number the library distinguishes. -/
inductive Json
  | null
  | boolean (b : Bool)
  | numberUnsigned (n : UInt64)
  | numberInteger (z : Int64)
  | numberFloat (q : ℚ)
  | string (s : String)
  | array (elements : List Json)
  | object (members : List (String × Json))

inductive JsonException
  | outOfRange | typeError | other
  deriving DecidableEq, Repr

def lookup (members : List (String × Json)) (key : String) : Option Json :=
  (members.find? (fun m => m.1 = key)).map Prod.snd

namespace Json

def atKey (json : Json) (key : String) : Except JsonException Json :=
  match json with
  | object members =>
    match lookup members key with
    | some value => .ok value
    | none => .error .outOfRange
  | _ => .error .typeError

def getString : Json → Except JsonException String
  | string s => .ok s
  | _ => .error .typeError

def getJson (json : Json) : Except JsonException Json := .ok json

/-- A boolean is accepted for the integer types that are not the library's own. -/
def getInteger (unrepresentable : UnrepresentableCast) (T : IntegerType) : Json → Except JsonException T.Value
  | numberUnsigned n => .ok (T.cast n.toNat)
  | numberInteger z => .ok (T.cast z.toInt)
  | numberFloat q => .ok (castRational unrepresentable T q)
  | boolean b => if T = .int64 then .error .typeError else .ok (T.cast b.toNat)
  | _ => .error .typeError

def ofInteger {T : IntegerType} (x : T.Value) : Json := numberInteger (Int64.ofInt x.val)

end Json

namespace JsonHelper

def getValue {α : Type} (get : Json → Except JsonException α) (object : Json) (key : String) :
    Except ErrorCode α :=
  match object.atKey key >>= get with
  | .ok value => .ok value
  | .error .outOfRange => .error (.jsonParse .keyNotFound)
  | .error .typeError => .error (.jsonParse .invalidFormat)
  | .error .other => .error (.jsonParse .unknownError)

end JsonHelper

end LiquidPetProject
