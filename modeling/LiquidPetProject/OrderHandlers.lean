import LiquidPetProject.ErrorMessages
import LiquidPetProject.HttpServer
import LiquidPetProject.OrderRoundTrip

namespace LiquidPetProject.OrderService

open FixedWidth Models Http Repository Outbox OrderReservationHandler Models2JsonMapper HttpServer

structure TextCodec extends Codec String where
  dump : Json → String

namespace Paths

def orders : String := "/orders"
def ordersPrefix : String := "/orders/"
def health : String := "/health"

end Paths

/-- What the database and its driver answer to the one call that a handler makes. -/
inductive DatabaseReply
  | save (generated : Uuid) (eventId : OutboxEventId) (createdAt : ℤ) (outcome : CommitOutcome)
  | find (itemRows : List OrderItemRow) (failure : Option PqxxException)
  | unused

namespace CreateOrderHandler

/-- The body of a request that does not parse is answered with the document that was to hold it. -/
def handle (codec : TextCodec) (db : OrderTables String) (request : Request) (generated : Uuid)
    (eventId : OutboxEventId) (createdAt : ℤ) (outcome : CommitOutcome) : OrderTables String × HandlerAnswer :=
  match codec.parse request.body with
  | .error .parseError => (db, .returned ⟨.badRequest, codec.dump .null⟩)
  | .error .outOfRange => (db, .threw)
  | .ok bodyJson =>
    match OrderJsonMapper.fromJson codec.unrepresentable bodyJson with
    | .error e => (db, .returned ⟨.badRequest, e.message⟩)
    | .ok order =>
      match db.save codec.toCodec order generated eventId createdAt outcome with
      | (saved, .error e) => (saved, .returned ⟨.internalServerError, e.message⟩)
      | (saved, .ok id) => (saved, .returned ⟨.created, codec.dump (.object [(orderId, .string id.value)])⟩)

end CreateOrderHandler

namespace GetOrderHandler

def substr (text : String) (n : ℕ) : Option String :=
  if n ≤ text.length then some (String.ofList (text.toList.drop n)) else none

def requestedId (path : String) : Option (Except ErrorCode OrderId) :=
  (substr path Paths.ordersPrefix.length).map StrongID.create

def handle (codec : TextCodec) (db : OrderTables String) (request : Request) (itemRows : List OrderItemRow)
    (failure : Option PqxxException) : HandlerAnswer :=
  match requestedId request.path with
  | none => .threw
  | some (.error e) => .returned ⟨.badRequest, e.message⟩
  | some (.ok id) =>
    match db.findById id itemRows failure with
    | .error e =>
      if e = .repository .notFound then .returned ⟨.notFound, e.message⟩
      else .returned ⟨.internalServerError, e.message⟩
    | .ok order => .returned ⟨.ok, codec.dump (OrderJsonMapper.toJson order)⟩

def rowsFit (db : OrderTables String) (request : Request) (itemRows : List OrderItemRow) : Bool :=
  match requestedId request.path with
  | some (.ok id) => itemRows.isPerm (db.selectOrderItems id)
  | _ => true

end GetOrderHandler

inductive OrderHandler
  | create | get | health
  deriving DecidableEq, Repr

def buildRoutes : List (Route OrderHandler) :=
  [⟨.post, Paths.orders, .create⟩, ⟨.get, Paths.ordersPrefix, .get⟩, ⟨.get, Paths.health, .health⟩]

def OrderHandler.handle (codec : TextCodec) (db : OrderTables String) (request : Request) :
    OrderHandler → DatabaseReply → Option (OrderTables String × HandlerAnswer)
  | .create, .save generated eventId createdAt outcome =>
    some (CreateOrderHandler.handle codec db request generated eventId createdAt outcome)
  | .get, .find itemRows failure =>
    if GetOrderHandler.rowsFit db request itemRows then
      some (db, GetOrderHandler.handle codec db request itemRows failure)
    else none
  | .health, .unused => some (db, .returned ⟨.ok, "OK"⟩)
  | _, _ => none

end LiquidPetProject.OrderService
