import LiquidPetProject.Conninfo
import LiquidPetProject.StrongID

namespace LiquidPetProject.Models

structure DatabaseConfiguration where
  host : String
  port : UInt16
  databaseName : String
  user : String
  password : String
  useSsl : Bool
  hostNonempty : host.isEmpty = false
  databaseNameNonempty : databaseName.isEmpty = false
  userNonempty : user.isEmpty = false
  portNonzero : port ≠ 0

inductive StoiException
  | outOfRange
  deriving DecidableEq, Repr

structure UrlMatch where
  user : List Char
  password : List Char
  host : List Char
  port : List Char
  databaseName : List Char
  sslmode : Option (List Char)
  deriving DecidableEq

namespace UrlMatch

def afterPrefix (start cs : List Char) : Option (List Char) :=
  if start.isPrefixOf cs then some (cs.drop start.length) else none

def group (p : Char → Bool) (cs : List Char) : Option (List Char × List Char) :=
  if cs.takeWhile p = [] then none else some (cs.takeWhile p, cs.dropWhile p)

def isWord (c : Char) : Bool := c.isAlphanum || c = '_'

def optionalSslmode : List Char → Option (Option (List Char))
  | [] => some none
  | cs => do
    let (sslmode, rest) ← (afterPrefix "?sslmode=".toList cs).bind (group isWord)
    if rest = [] then some (some sslmode) else none

/-- The pattern `^postgres(?:ql)?://([^:]+):([^@]*)@([^:/]+):(\d+)/([^?]+)(?:\?sslmode=(\w+))?$`; each
group ends at the first character outside its class. -/
def ofUrl (url : String) : Option UrlMatch := do
  let cs ← (afterPrefix "postgresql://".toList url.toList).or (afterPrefix "postgres://".toList url.toList)
  let (user, cs) ← group (fun c => c ≠ ':') cs
  let cs ← afterPrefix [':'] cs
  let password := cs.takeWhile (fun c => c ≠ '@')
  let cs ← afterPrefix ['@'] (cs.dropWhile (fun c => c ≠ '@'))
  let (host, cs) ← group (fun c => c ≠ ':' && c ≠ '/') cs
  let cs ← afterPrefix [':'] cs
  let (port, cs) ← group Char.isDigit cs
  let cs ← afterPrefix ['/'] cs
  let (databaseName, cs) ← group (fun c => c ≠ '?') cs
  let sslmode ← optionalSslmode cs
  return ⟨user, password, host, port, databaseName, sslmode⟩

end UrlMatch

def stoi (digits : List Char) : Except StoiException ℕ :=
  let value := Nat.ofDigitChars 10 digits 0
  if value < 2 ^ 31 then .ok value else .error .outOfRange

namespace DatabaseConfiguration

def create (host : String) (port : UInt16) (databaseName user password : String) (useSsl : Bool) :
    Except ErrorCode DatabaseConfiguration :=
  if hh : host.isEmpty = true then .error (.databaseConfiguration .emptyHost)
  else if hd : databaseName.isEmpty = true then .error (.databaseConfiguration .emptyDatabaseName)
  else if hu : user.isEmpty = true then .error (.databaseConfiguration .emptyUser)
  else if hp : port = 0 then .error (.databaseConfiguration .invalidPort)
  else .ok ⟨host, port, databaseName, user, password, useSsl, nonempty_of_not_isEmpty hh,
    nonempty_of_not_isEmpty hd, nonempty_of_not_isEmpty hu, hp⟩

def fromUrl (url : String) : Except StoiException (Except ErrorCode DatabaseConfiguration) :=
  match UrlMatch.ofUrl url with
  | none => .ok (.error (.databaseConfiguration .invalidUrl))
  | some parts =>
    (stoi parts.port).map fun port =>
      create (String.ofList parts.host) (UInt16.ofNat port) (String.ofList parts.databaseName)
        (String.ofList parts.user) (String.ofList parts.password)
        (parts.sslmode.any (fun sslmode => sslmode ≠ "disable".toList))

def toConnectionString (config : DatabaseConfiguration) : String :=
  "host=" ++ config.host ++ " port=" ++ Nat.repr config.port.toNat ++ " dbname=" ++ config.databaseName ++
    " user=" ++ config.user ++ " password=" ++ config.password ++ " sslmode=" ++
    (if config.useSsl then "require" else "disable")

theorem create_fields (config : DatabaseConfiguration) :
    create config.host config.port config.databaseName config.user config.password config.useSsl = .ok config := by
  unfold create
  rw [dif_neg (by simp [config.hostNonempty]), dif_neg (by simp [config.databaseNameNonempty]),
    dif_neg (by simp [config.userNonempty]), dif_neg config.portNonzero]

example : (fromUrl "postgres://reader:pw@db.internal:5433/analytics?sslmode=require").toOption.isSome = true := by
  decide

end DatabaseConfiguration

end LiquidPetProject.Models
