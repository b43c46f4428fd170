import LiquidPetProject.OrderPipeline
import LiquidPetProject.ServiceConsumer

namespace LiquidPetProject.Choreography

open Models Events Messaging Outbox OrderReservationHandler OrderPipeline

structure OrderFlow where
  pipeline : PipelineState String
  worker : ServiceConsumer := {}
  orders : ServiceConsumer := {}

inductive FlowAction
  | pipeline (a : OrderPipeline.PipelineAction String)
  | createdStored (f : ℕ) (partition offset : ℤ)
  | reservedStored (f : ℕ) (partition offset : ℤ)
  | worker (a : ConsumerAction)
  | orders (a : ConsumerAction)

def callResult : ReservationPc → Option HandlerResult
  | .returned handled => some (.returned handled)
  | .threw => some .threw
  | _ => none

def reservationHandler (codec : Codec String) : EventHandler (PipelineState String) where
  handle s payload metadata :=
    ({ s with reservations := s.reservations ++ [⟨metadata, beginCall codec payload⟩] }, s.reservations.length)
  result s n := s.reservations[n]?.bind (fun call => callResult call.pc)

def beginReserved (codec : Codec String) (payload : String) : OrderReservedHandler.RecordCalls String :=
  OrderReservedHandler.RecordCalls.advance ⟨payload, .waiting, [], []⟩ [] (OrderReservedHandler.parsePayload codec.parse payload)

def reservedHandler (codec : Codec String) : EventHandler (PipelineState String) where
  handle s payload _ :=
    ({ s with orderService :=
      { s.orderService with records := s.orderService.records ++ [beginReserved codec payload] } },
    s.orderService.records.length)
  result s n := s.orderService.records[n]?.bind (fun r => r.finished.head?.map (fun call => call.reason.result))

/-- What the broker stores, and what begins a call of a handler, is a step of the consumers too. -/
def isLocal : OrderPipeline.PipelineAction String → Bool
  | .orderBroker _ .stored => false
  | .workerBroker _ .stored => false
  | .deliverCreated _ => false
  | .deliverReserved _ => false
  | .reserve (.call _) => false
  | _ => true

def store (futures : List (PublishFuture String)) (group : ConsumerGroup) (f : ℕ) (partition offset : ℤ) :
    Option ConsumerGroup :=
  futures[f]?.bind (fun future =>
    group.step (.produce (KafkaEventPublisher.producerRecord future.request partition offset)))

namespace OrderFlow

def step (codec : Codec String) (s : OrderFlow) : FlowAction → Option OrderFlow
  | .pipeline a =>
    if isLocal a then (s.pipeline.step codec a).map (fun pipeline => { s with pipeline := pipeline }) else none
  | .createdStored f partition offset =>
    (store s.pipeline.orderOutbox.futures s.worker.group f partition offset).bind (fun group =>
      (s.pipeline.step codec (.orderBroker f .stored)).map (fun pipeline =>
        { s with pipeline := pipeline, worker := { s.worker with group := group } }))
  | .reservedStored f partition offset =>
    (store s.pipeline.worker.outbox.futures s.orders.group f partition offset).bind (fun group =>
      (s.pipeline.step codec (.workerBroker f .stored)).map (fun pipeline =>
        { s with pipeline := pipeline, orders := { s.orders with group := group } }))
  | .worker a => (s.worker.step (reservationHandler codec) s.pipeline a).map (fun (pipeline, worker) =>
      { s with pipeline := pipeline, worker := worker })
  | .orders a => (s.orders.step (reservedHandler codec) s.pipeline a).map (fun (pipeline, orders) =>
      { s with pipeline := pipeline, orders := orders })

def start (orderPublishers workerPublishers : List Int32) : OrderFlow where
  pipeline := .start orderPublishers workerPublishers

end OrderFlow

end LiquidPetProject.Choreography
