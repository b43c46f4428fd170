import LiquidPetProject.OrderSystem

namespace LiquidPetProject.GatewayService

open Models Http HttpServer Gateway OrderService EndToEnd

inductive GatewayHandler
  | health | proxy
  deriving DecidableEq, Repr

def HealthHandler.handle : HandlerAnswer := .returned ⟨.ok, "OK"⟩

def buildRoutes : List (Route GatewayHandler) := [⟨.get, "/health", .health⟩, ⟨.get, "/", .proxy⟩, ⟨.post, "/", .proxy⟩]

/-- `call` is the call of `ProxyHandler` that the message led to, if it led to one. -/
structure ClientMessage where
  session : ℕ
  message : BeastRequest
  call : Option ℕ := none

structure ClientSession where
  pc : SessionPc GatewayHandler := .reading
  current : ℕ := 0
  call : ℕ := 0

/-- `messages` is what has been read on all connections, `told` what has been written, each response with the number of
the message that it answers; both are read by nothing. -/
structure GatewaySystem where
  system : OrderSystem := {}
  sessions : List ClientSession := []
  messages : List ClientMessage := []
  told : List (ℕ × BeastResponse) := []

/-- `handled` ends the call of the handler that the session awaits; `system` is a step behind the server. -/
inductive GatewayAction
  | accept
  | read (j : ℕ) (message : BeastRequest)
  | handled (j : ℕ)
  | written (j : ℕ)
  | failed (j : ℕ)
  | system (a : SystemAction)

def beginsCall : SystemAction → Bool
  | .gateway (.handle _) => true
  | _ => false

namespace GatewaySystem

variable (codec : TextCodec) (services : Services) (s : GatewaySystem)

def setSession (j : ℕ) (session : ClientSession) : GatewaySystem := { s with sessions := s.sessions.set j session }

def readMessage (j : ℕ) (message : BeastRequest) (call : Option ℕ) : GatewaySystem :=
  { s with messages := s.messages ++ [⟨j, message, call⟩] }

def readStep (j : ℕ) (message : BeastRequest) (session : ClientSession) : Option GatewaySystem :=
  let request := HttpMessageConverter.toHttpRequest message
  (sessionStep buildRoutes session.pc (.read message)).bind (fun pc =>
    match findHandler buildRoutes request.method request.path with
    | some .proxy => (s.system.step codec services (.gateway (.handle request))).map (fun system =>
        ({ s with system := system }.readMessage j message (some s.system.gateway.requests.length)).setSession j
          ⟨pc, s.messages.length, s.system.gateway.requests.length⟩)
    | _ => some ((s.readMessage j message none).setSession j { session with pc := pc, current := s.messages.length }))

def handlerAnswer (session : ClientSession) : GatewayHandler → Option HandlerAnswer
  | .health => some HealthHandler.handle
  | .proxy =>
    match s.system.gateway.requests[session.call]? with
    | some (_, .returned response) => some (.returned response)
    | _ => none

def handledStep (j : ℕ) (session : ClientSession) : Option GatewaySystem :=
  match session.pc with
  | .handling _ handler => (s.handlerAnswer session handler).bind (fun answer =>
      (sessionStep buildRoutes session.pc (.handled answer)).map (fun pc => s.setSession j { session with pc := pc }))
  | _ => none

def writtenStep (j : ℕ) (session : ClientSession) : Option GatewaySystem :=
  match session.pc with
  | .writing response => (sessionStep buildRoutes session.pc .written).map (fun pc =>
      { s with told := s.told ++ [(session.current, response)] }.setSession j { session with pc := pc })
  | _ => none

def step : GatewayAction → Option GatewaySystem
  | .accept => some { s with sessions := s.sessions ++ [{}] }
  | .read j message => s.sessions[j]?.bind (s.readStep codec services j message)
  | .handled j => s.sessions[j]?.bind (s.handledStep j)
  | .written j => s.sessions[j]?.bind (s.writtenStep j)
  | .failed j => s.sessions[j]?.bind (fun session =>
      (sessionStep buildRoutes session.pc .failed).map (fun pc => s.setSession j { session with pc := pc }))
  | .system a =>
    if beginsCall a then none else (s.system.step codec services a).map (fun system => { s with system := system })

end GatewaySystem

end LiquidPetProject.GatewayService
