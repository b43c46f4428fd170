import LiquidPetProject.OrderFlow
import LiquidPetProject.OrderSystem

namespace LiquidPetProject.Platform

open Models Repository Outbox Http Gateway OrderService EndToEnd Choreography OrderPipeline

/-- The clients' side and the brokers' side. Both hold the database of the order service, one as its tables,
the other as the orders and events in them. -/
structure OrderPlatform where
  web : OrderSystem := {}
  flow : OrderFlow

/-- `save` and `changeStatus` are the calls that write to the tables of the order service. -/
inductive PlatformAction
  | web (a : SystemAction)
  | flow (a : FlowAction)
  | save (k : ℕ) (generated : Uuid) (eventId : OutboxEventId) (createdAt : ℤ) (outcome : CommitOutcome)
  | changeStatus (i : ℕ) (outcome : CommitOutcome)

def leavesTables : FlowAction → Bool
  | .pipeline (.createOrder _ _ _ _ _) => false
  | .pipeline (.reserve (.change _ _)) => false
  | _ => true

namespace OrderPlatform

variable (codec : TextCodec) (services : Services) (s : OrderPlatform)

def saveStep (k : ℕ) (generated : Uuid) (eventId : OutboxEventId) (createdAt : ℤ) (outcome : CommitOutcome)
    (session : Session) : Option OrderPlatform :=
  match session.pc with
  | .handling message .create =>
    let body := (HttpMessageConverter.toHttpRequest message).body
    (s.web.step codec services (.handle k (.save generated eventId createdAt outcome))).bind (fun web =>
      (s.flow.step codec.toCodec (.pipeline (.createOrder body generated.toId eventId createdAt outcome))).map
        (fun flow => ⟨web, flow⟩))
  | _ => none

def changeStep (i : ℕ) (outcome : CommitOutcome) (r : OrderReservedHandler.RecordCalls String) : Option OrderPlatform :=
  match r.pc with
  | .changing orderId .created .reserved =>
    (s.flow.step codec.toCodec (.pipeline (.reserve (.change i outcome)))).bind (fun flow =>
      (s.web.step codec services (.reserve orderId outcome)).map (fun web => ⟨web, flow⟩))
  | _ => none

def step : PlatformAction → Option OrderPlatform
  | .web a => if a.readsTables then (s.web.step codec services a).map (fun web => { s with web := web }) else none
  | .flow a =>
    if leavesTables a then (s.flow.step codec.toCodec a).map (fun flow => { s with flow := flow }) else none
  | .save k generated eventId createdAt outcome =>
    s.web.service.sessions[k]?.bind (s.saveStep codec services k generated eventId createdAt outcome)
  | .changeStatus i outcome => s.flow.pipeline.orderService.records[i]?.bind (s.changeStep codec services i outcome)

def start (orderPublishers workerPublishers : List Int32) : OrderPlatform where
  flow := .start orderPublishers workerPublishers

end OrderPlatform

end LiquidPetProject.Platform
