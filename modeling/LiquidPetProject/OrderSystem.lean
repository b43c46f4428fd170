import LiquidPetProject.OrderService
import LiquidPetProject.SocketTurns

namespace LiquidPetProject.EndToEnd

open Models Http Gateway OrderService

/-- What is under way on a connection of the gateway to the order service. Each message is kept with the call of
`ProxyHandler` that it belongs to; neither side knows it. -/
structure Connection where
  requests : List (ℕ × BeastRequest) := []
  responses : List (ℕ × BeastResponse) := []

/-- The calls of the gateway's `ProxyHandler` and the order service: a socket, its session and the connection between them
have one number. -/
structure OrderSystem where
  gateway : ProxyHandler := {}
  service : ServiceState := {}
  connections : List Connection := []

inductive SystemAction
  | gateway (a : ProxyAction)
  | connect (i : ℕ)
  | send (i : ℕ)
  | receive (i : ℕ)
  | read (k : ℕ)
  | handle (k : ℕ) (reply : DatabaseReply)
  | written (k : ℕ)
  | failed (k : ℕ)
  | reserve (id : OrderId) (outcome : Repository.CommitOutcome)

def SystemAction.readsTables : SystemAction → Bool
  | .handle _ (.save _ _ _ _) => false
  | .reserve _ _ => false
  | _ => true

def gatewayServices (config : UpstreamConfiguration) : Services where
  entries := [("/orders", config)]
  nodup := List.nodup_singleton _

namespace OrderSystem

def setConnection (s : OrderSystem) (k : ℕ) (c : Connection) : OrderSystem :=
  { s with connections := s.connections.set k c }

def sendStep (services : Services) (s : OrderSystem) (i : ℕ) : Option OrderSystem :=
  match s.gateway.requests[i]? with
  | some (request, .sending a _ x) =>
    s.connections[x]?.bind (fun c => (s.gateway.step services (.send i)).map (fun gateway =>
      { s with gateway := gateway }.setConnection x
        { c with requests := c.requests ++ [(i, ProxyHandler.exchangeRequest request a.config.host)] }))
  | _ => none

def receiveStep (services : Services) (s : OrderSystem) (i : ℕ) : Option OrderSystem :=
  match s.gateway.requests[i]? with
  | some (_, .reading _ _ x) =>
    s.connections[x]?.bind (fun c =>
      match c.responses with
      | [] => none
      | (_, response) :: rest => (s.gateway.step services (.received i response)).map (fun gateway =>
          { s with gateway := gateway }.setConnection x { c with responses := rest }))
  | _ => none

def readStep (codec : TextCodec) (s : OrderSystem) (k : ℕ) : Option OrderSystem :=
  s.connections[k]?.bind (fun c =>
    match c.requests with
    | [] => none
    | (sender, message) :: rest => (s.service.step codec (.read k sender message)).map (fun service =>
        { s with service := service }.setConnection k { c with requests := rest }))

def writtenStep (codec : TextCodec) (s : OrderSystem) (k : ℕ) : Option OrderSystem :=
  match s.service.sessions[k]? with
  | some ⟨.writing response, sender⟩ =>
    s.connections[k]?.bind (fun c => (s.service.step codec (.written k)).map (fun service =>
      { s with service := service }.setConnection k { c with responses := c.responses ++ [(sender, response)] }))
  | _ => none

def step (codec : TextCodec) (services : Services) (s : OrderSystem) : SystemAction → Option OrderSystem
  | .gateway a =>
    if a.isLocal then (s.gateway.step services a).map (fun gateway => { s with gateway := gateway }) else none
  | .connect i =>
    (s.gateway.step services (.connected i true)).bind (fun gateway =>
      (s.service.step codec .accept).map (fun service =>
        { gateway := gateway, service := service, connections := s.connections ++ [{}] }))
  | .send i => s.sendStep services i
  | .receive i => s.receiveStep services i
  | .read k => s.readStep codec k
  | .handle k reply => (s.service.step codec (.handle k reply)).map (fun service => { s with service := service })
  | .written k => s.writtenStep codec k
  | .failed k => (s.service.step codec (.failed k)).map (fun service => { s with service := service })
  | .reserve id outcome =>
    (s.service.step codec (.reserve id outcome)).map (fun service => { s with service := service })

end OrderSystem

end LiquidPetProject.EndToEnd
