import LiquidPetProject.DatabaseConfiguration
import LiquidPetProject.Json

namespace LiquidPetProject.Configuration

open Models JsonHelper FixedWidth

/-- The literals that `boost::asio::ip::make_address` takes for an address. -/
abbrev MakeAddress := String → Bool

structure NetworkAddress (makeAddress : MakeAddress) where
  value : String
  nonempty : value.isEmpty = false
  valid : makeAddress value = true

def isValidHostnameLabel (label : List Char) : Bool :=
  label ≠ [] && label.length ≤ 63 && label.head? ≠ some '-' && label.getLast? ≠ some '-' &&
    label.all (fun c => c.isAlphanum || c = '-')

def isValidHostname (value : String) : Bool :=
  !value.isEmpty && value.utf8ByteSize ≤ 253 && (value.toList.splitOn '.').all isValidHostnameLabel

structure Host (makeAddress : MakeAddress) where
  value : String
  nonempty : value.isEmpty = false
  valid : makeAddress value = true ∨ isValidHostname value = true

structure NetworkConfiguration (makeAddress : MakeAddress) where
  address : NetworkAddress makeAddress
  port : UInt16

structure UpstreamConfiguration (makeAddress : MakeAddress) where
  host : Host makeAddress
  port : UInt16

abbrev UnrepresentablePort := ℚ → UInt16

section Creation

variable {makeAddress : MakeAddress}

def NetworkAddress.create (value : String) : Except ErrorCode (NetworkAddress makeAddress) :=
  if he : value.isEmpty = true then .error (.networkAddress .emptyAddress)
  else if hv : makeAddress value = true then .ok ⟨value, nonempty_of_not_isEmpty he, hv⟩
  else .error (.networkAddress .invalidFormat)

def Host.create (value : String) : Except ErrorCode (Host makeAddress) :=
  if he : value.isEmpty = true then .error (.host .emptyHost)
  else if ha : makeAddress value = true then .ok ⟨value, nonempty_of_not_isEmpty he, .inl ha⟩
  else if hn : isValidHostname value = true then .ok ⟨value, nonempty_of_not_isEmpty he, .inr hn⟩
  else .error (.host .invalidFormat)

end Creation

/-- `get<uint16_t>`: every kind of number is converted, and so is a boolean. -/
def getPort (unrepresentable : UnrepresentablePort) : Json → Except JsonException UInt16
  | .numberUnsigned n => .ok (UInt16.ofNat n.toNat)
  | .numberInteger z => .ok (UInt16.ofInt z.toInt)
  | .numberFloat q =>
    .ok (if 0 ≤ truncate q ∧ truncate q < 2 ^ 16 then UInt16.ofInt (truncate q) else unrepresentable q)
  | .boolean b => .ok (UInt16.ofNat b.toNat)
  | _ => .error .typeError

def getBoolean : Json → Except JsonException Bool
  | .boolean b => .ok b
  | _ => .error .typeError

def databaseHost : String := "host"
def databasePort : String := "port"
def databaseName : String := "databaseName"
def databaseUser : String := "user"
def databaseUseSsl : String := "useSsl"
def networkConfigurationPort : String := "port"
def networkConfigurationAddress : String := "address"
def upstreamConfigurationPort : String := "port"
def upstreamConfigurationHost : String := "address"

section Mappers

variable (makeAddress : MakeAddress) (unrepresentable : UnrepresentablePort)

def DatabaseConfigurationJsonMapper.fromJson (json : Json) (password : String) :
    Except ErrorCode DatabaseConfiguration := do
  let host ← getValue Json.getString json databaseHost
  let port ← getValue (getPort unrepresentable) json databasePort
  let name ← getValue Json.getString json databaseName
  let user ← getValue Json.getString json databaseUser
  let useSsl ← getValue getBoolean json databaseUseSsl
  DatabaseConfiguration.create host port name user password useSsl

def NetworkConfigurationJsonMapper.fromJson (networkSection : Json) :
    Except ErrorCode (NetworkConfiguration makeAddress) := do
  let port ← getValue (getPort unrepresentable) networkSection networkConfigurationPort
  let text ← getValue Json.getString networkSection networkConfigurationAddress
  let address ← NetworkAddress.create text
  return ⟨address, port⟩

def UpstreamConfigurationJsonMapper.fromJson (upstreamSection : Json) :
    Except ErrorCode (UpstreamConfiguration makeAddress) := do
  let port ← getValue (getPort unrepresentable) upstreamSection upstreamConfigurationPort
  let text ← getValue Json.getString upstreamSection upstreamConfigurationHost
  let host ← Host.create text
  return ⟨host, port⟩

end Mappers

inductive StoulException
  | invalidArgument | outOfRange
  deriving DecidableEq, Repr

def isSpace (c : Char) : Bool := c = ' ' || ('\t' ≤ c && c ≤ '\r')

def numeral (text : String) : Bool × List Char :=
  match text.toList.dropWhile isSpace with
  | '-' :: cs => (true, cs.takeWhile Char.isDigit)
  | '+' :: cs => (false, cs.takeWhile Char.isDigit)
  | cs => (false, cs.takeWhile Char.isDigit)

/-- `std::stoul`; a negative number is taken modulo `2 ^ 64`. -/
def stoul (text : String) : Except StoulException UInt64 :=
  let (negative, digits) := numeral text
  let value := Nat.ofDigitChars 10 digits 0
  if digits = [] then .error .invalidArgument
  else if value < 2 ^ 64 then .ok (if negative then -UInt64.ofNat value else UInt64.ofNat value)
  else .error .outOfRange

def gatewayOrderServiceAddress : String := "GATEWAY_ORDER_SERVICE_ADDRESS"
def gatewayOrderServicePort : String := "GATEWAY_ORDER_SERVICE_PORT"

inductive ExitReason
  | unwrapped (e : ErrorCode)
  | invalidPort (text : String)
  | notSetTogether
  | missingSection
  deriving DecidableEq, Repr

def unwrapOrExit {α : Type} (result : Except ErrorCode α) : Except ExitReason α := result.mapError .unwrapped

/-- The configuration of the order service, from the environment or else from the file, whose section
`services` is the argument. -/
def loadOrderServiceConfiguration (makeAddress : MakeAddress) (unrepresentable : UnrepresentablePort)
    (services : Except ErrorCode Json) (environment : String → Option String) :
    Except ExitReason (UpstreamConfiguration makeAddress) :=
  match environment gatewayOrderServiceAddress, environment gatewayOrderServicePort with
  | some envAddress, some envPortRaw => do
    let host ← unwrapOrExit (Host.create envAddress)
    match stoul envPortRaw with
    | .error _ => .error (.invalidPort envPortRaw)
    | .ok port => .ok ⟨host, port.toUInt16⟩
  | none, none => do
    let servicesSection ← unwrapOrExit services
    match servicesSection.atKey "orderService" with
    | .error _ => .error .missingSection
    | .ok orderService =>
      unwrapOrExit (UpstreamConfigurationJsonMapper.fromJson makeAddress unrepresentable orderService)
  | _, _ => .error .notSetTogether

end LiquidPetProject.Configuration
