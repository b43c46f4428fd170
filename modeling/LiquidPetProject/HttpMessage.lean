import Mathlib.Data.Nat.Notation

namespace LiquidPetProject.Models

inductive Method
  | get | post | unknown
  deriving DecidableEq, Repr

/-- The enumeration names some codes only, but a value of it may hold any. -/
structure Status where
  code : UInt16
  deriving DecidableEq, Repr

namespace Status

def ok : Status := ⟨200⟩

def created : Status := ⟨201⟩

def badRequest : Status := ⟨400⟩

def notFound : Status := ⟨404⟩

def methodNotAllowed : Status := ⟨405⟩

def internalServerError : Status := ⟨500⟩

def badGateway : Status := ⟨502⟩

end Status

structure Request where
  method : Method
  path : String
  body : String
  deriving DecidableEq, Repr

structure Response where
  status : Status
  body : String := ""
  deriving DecidableEq, Repr

end LiquidPetProject.Models

namespace LiquidPetProject.Http

open Models

inductive Verb
  | get | post | unknown
  deriving DecidableEq, Repr

structure BeastRequest where
  verb : Verb
  target : String
  body : String
  contentType : String
  host : Option String := none
  keepAlive : Bool := true
  deriving DecidableEq, Repr

structure BeastResponse where
  resultInt : ℕ
  body : String
  keepAlive : Bool
  deriving DecidableEq, Repr

namespace HttpMessageConverter

def toVerb : Method → Verb
  | .get => .get
  | .post => .post
  | .unknown => .unknown

def toHttpMethod : Verb → Method
  | .get => .get
  | .post => .post
  | .unknown => .unknown

def toHttpRequest (request : BeastRequest) : Request where
  method := toHttpMethod request.verb
  path := request.target
  body := request.body

def toBeastRequest (request : Request) : BeastRequest where
  verb := toVerb request.method
  target := request.path
  body := request.body
  contentType := "application/json"

def toHttpResponse (response : BeastResponse) : Response where
  status := ⟨UInt16.ofNat response.resultInt⟩
  body := response.body

def toBeastResponse (response : Response) : BeastResponse where
  resultInt := response.status.code.toNat
  body := response.body
  keepAlive := false

theorem toHttpMethod_toVerb (method : Method) : toHttpMethod (toVerb method) = method := by
  cases method <;> rfl

theorem toHttpRequest_toBeastRequest (request : Request) : toHttpRequest (toBeastRequest request) = request := by
  unfold toHttpRequest toBeastRequest
  rw [toHttpMethod_toVerb]

theorem toHttpResponse_toBeastResponse (response : Response) : toHttpResponse (toBeastResponse response) = response := by
  unfold toHttpResponse toBeastResponse
  rw [UInt16.ofNat_toNat]

end HttpMessageConverter

end LiquidPetProject.Http
