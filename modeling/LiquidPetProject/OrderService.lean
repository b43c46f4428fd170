import LiquidPetProject.OrderHandlers
import LiquidPetProject.Transitions

namespace LiquidPetProject.OrderService

open Models Http Repository Outbox Models2JsonMapper HttpServer

/-- A connection that the server has accepted. `sender` is the one whose message was read last; the server does not know it. -/
structure Session where
  pc : SessionPc OrderHandler := .reading
  sender : ℕ := 0

structure Execution where
  session : ℕ
  sender : ℕ
  request : Request
  handler : Option OrderHandler
  before : OrderTables String
  reply : DatabaseReply
  after : OrderTables String
  response : Response

structure ServiceState where
  db : OrderTables String := .empty
  sessions : List Session := []
  executions : List Execution := []

/-- `reserve` is the update that `OrderReservedHandler` asks for. -/
inductive ServiceAction
  | accept
  | read (k sender : ℕ) (message : BeastRequest)
  | handle (k : ℕ) (reply : DatabaseReply)
  | written (k : ℕ)
  | failed (k : ℕ)
  | reserve (id : OrderId) (outcome : CommitOutcome)

def ServiceAction.readsTables : ServiceAction → Bool
  | .handle _ (.save _ _ _ _) => false
  | .reserve _ _ => false
  | _ => true

namespace ServiceState

def setSession (s : ServiceState) (k : ℕ) (session : Session) : ServiceState :=
  { s with sessions := s.sessions.set k session }

def record (s : ServiceState) (db : OrderTables String) (execution : Execution) : ServiceState :=
  { s with db := db, executions := s.executions ++ [execution] }

def readStep (s : ServiceState) (k sender : ℕ) (message : BeastRequest) (session : Session) : Option ServiceState :=
  let request := HttpMessageConverter.toHttpRequest message
  (sessionStep buildRoutes session.pc (.read message)).map (fun pc =>
    match findHandler buildRoutes request.method request.path with
    | none => (s.record s.db ⟨k, sender, request, none, s.db, .unused, s.db, { status := .notFound }⟩).setSession k ⟨pc, sender⟩
    | some _ => s.setSession k ⟨pc, sender⟩)

def handleStep (codec : TextCodec) (s : ServiceState) (k : ℕ) (reply : DatabaseReply) (session : Session) :
    Option ServiceState :=
  match session.pc with
  | .handling message handler =>
    let request := HttpMessageConverter.toHttpRequest message
    (handler.handle codec s.db request reply).bind (fun (db, answer) =>
      (sessionStep buildRoutes session.pc (.handled answer)).map (fun pc =>
        (s.record db ⟨k, session.sender, request, some handler, s.db, reply, db, handlerResponse answer⟩).setSession k
          { session with pc := pc }))
  | _ => none

def moveStep (s : ServiceState) (k : ℕ) (a : SessionAction) (session : Session) : Option ServiceState :=
  (sessionStep buildRoutes session.pc a).map (fun pc => s.setSession k { session with pc := pc })

def step (codec : TextCodec) (s : ServiceState) : ServiceAction → Option ServiceState
  | .accept => some { s with sessions := s.sessions ++ [{}] }
  | .read k sender message => s.sessions[k]?.bind (s.readStep k sender message)
  | .handle k reply => s.sessions[k]?.bind (s.handleStep codec k reply)
  | .written k => s.sessions[k]?.bind (s.moveStep k .written)
  | .failed k => s.sessions[k]?.bind (s.moveStep k .failed)
  | .reserve id outcome => some { s with db := s.db.changeStatus id .created .reserved outcome }

end ServiceState

end LiquidPetProject.OrderService
