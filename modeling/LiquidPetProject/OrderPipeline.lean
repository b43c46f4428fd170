import LiquidPetProject.OrderJsonMapper
import LiquidPetProject.OrderReservationHandler
import LiquidPetProject.OrderReservedHandler

namespace LiquidPetProject.OrderPipeline

open Models Repository Events Messaging Outbox OrderReservationHandler Models2JsonMapper

variable {π : Type}

structure PipelineState (π : Type) where
  orderService : OrderReservedHandler.State π
  orderOutbox : OutboxState π
  worker : WorkerDatabase π
  reservations : List ReservationCall

inductive PipelineAction (π : Type)
  | createOrder (body : π) (orderId : OrderId) (eventId : OutboxEventId) (createdAt : ℤ) (outcome : CommitOutcome)
  | orderPublisher (i : ℕ) (event : PublisherEvent)
  | orderBroker (f : ℕ) (event : BrokerEvent)
  | workerPublisher (i : ℕ) (event : PublisherEvent)
  | workerBroker (f : ℕ) (event : BrokerEvent)
  | deliverCreated (k : ℕ)
  | process (i : ℕ) (answer : Except ErrorCode Unit)
  | record (i : ℕ) (rowId : OutboxEventId) (createdAt : ℤ) (outcome : CommitOutcome)
  | deliverReserved (k : ℕ)
  | reserve (a : OrderReservedHandler.Action)

namespace PipelineState

def orders (s : PipelineState π) : List Order := s.orderService.orders

def insertOrder (s : PipelineState π) (order : Order) (orderId : OrderId) (entry : OutboxEntry π) (createdAt : ℤ) :
    PipelineState π :=
  { s with
    orderService := { s.orderService with orders := s.orders ++ [order.assignId orderId] }
    orderOutbox := s.orderOutbox.addRow (insertOutboxEvent entry createdAt) }

def save (codec : Codec π) (s : PipelineState π) (order : Order) (orderId : OrderId) (eventId : OutboxEventId)
    (createdAt : ℤ) (outcome : CommitOutcome) : PipelineState π × Except ErrorCode OrderId :=
  if Uuid.ofId orderId ∈ orderKeys s.orders then (s, .error (mapPqxxException .uniqueViolation))
  else
    match codec.store (OrderJsonMapper.toJson (order.assignId orderId)) with
    | none => (s, .error (mapPqxxException .other))
    | some payload =>
      if Uuid.ofId eventId ∈ rowKeys s.orderOutbox.rows then (s, .error (mapPqxxException .uniqueViolation))
      else
        let saved := s.insertOrder order orderId ⟨eventId, orderId.value, "OrderCreated", payload⟩ createdAt
        match outcome with
        | .committed => (saved, .ok orderId)
        | .failed e => (s, .error (mapPqxxException e))
        | .inDoubt e => (saved, .error (mapPqxxException e))

/-- A request to create an order: a body that is not an order is answered without a transaction. -/
def createOrder (codec : Codec π) (s : PipelineState π) (body : π) (orderId : OrderId) (eventId : OutboxEventId)
    (createdAt : ℤ) (outcome : CommitOutcome) : PipelineState π :=
  match codec.parse body with
  | .error _ => s
  | .ok json =>
    match OrderJsonMapper.fromJson codec.unrepresentable json with
    | .error _ => s
    | .ok order => (s.save codec order orderId eventId createdAt outcome).1

def stepOrderOutbox (s : PipelineState π) (a : OutboxAction π) : Option (PipelineState π) :=
  (s.orderOutbox.step a).map (fun outbox => { s with orderOutbox := outbox })

def stepWorkerOutbox (s : PipelineState π) (a : OutboxAction π) : Option (PipelineState π) :=
  (s.worker.outbox.step a).map (fun outbox => { s with worker := { s.worker with outbox := outbox } })

def setCall (s : PipelineState π) (i : ℕ) (call : ReservationCall) (pc : ReservationPc) : PipelineState π :=
  { s with reservations := s.reservations.set i { call with pc := pc } }

def processStep (s : PipelineState π) (i : ℕ) (call : ReservationCall) (answer : Except ErrorCode Unit) :
    Option (PipelineState π) :=
  match call.pc with
  | .processing event => some (s.setCall i call (afterProcess event answer))
  | _ => none

def recordStep (codec : Codec π) (s : PipelineState π) (i : ℕ) (call : ReservationCall) (rowId : OutboxEventId)
    (createdAt : ℤ) (outcome : CommitOutcome) : Option (PipelineState π) :=
  match call.pc with
  | .recording event =>
    let answer := OrderReservationHandler.record codec s.worker call event rowId createdAt outcome
    some ({ s with worker := answer.1 }.setCall i call answer.2)
  | _ => none

/-- Kafka hands a published message to a worker, whether or not it has done so before. -/
def deliverCreated (codec : Codec π) (s : PipelineState π) (m : PublishRequest π) : PipelineState π :=
  { s with reservations := s.reservations ++ [⟨m.metadata, beginCall codec m.payload⟩] }

def deliverReserved (s : PipelineState π) (m : PublishRequest π) : PipelineState π :=
  { s with orderService :=
    { s.orderService with records := s.orderService.records ++ [⟨m.payload, .waiting, [], []⟩] } }

def reserveStep (codec : Codec π) (s : PipelineState π) (a : OrderReservedHandler.Action) :
    Option (PipelineState π) :=
  if a.isHandler then (s.orderService.step codec.parse a).map (fun service => { s with orderService := service })
  else none

def step (codec : Codec π) (s : PipelineState π) : PipelineAction π → Option (PipelineState π)
  | .createOrder body orderId eventId createdAt outcome =>
    some (s.createOrder codec body orderId eventId createdAt outcome)
  | .orderPublisher i event => s.stepOrderOutbox (.publisher i event)
  | .orderBroker f event => s.stepOrderOutbox (.broker f event)
  | .workerPublisher i event => s.stepWorkerOutbox (.publisher i event)
  | .workerBroker f event => s.stepWorkerOutbox (.broker f event)
  | .deliverCreated k => s.orderOutbox.messages[k]?.map (fun m => s.deliverCreated codec m)
  | .process i answer => s.reservations[i]?.bind (fun call => s.processStep i call answer)
  | .record i rowId createdAt outcome =>
    s.reservations[i]?.bind (fun call => s.recordStep codec i call rowId createdAt outcome)
  | .deliverReserved k => s.worker.outbox.messages[k]?.map (fun m => s.deliverReserved m)
  | .reserve a => s.reserveStep codec a

def start (orderPublishers workerPublishers : List Int32) : PipelineState π where
  orderService := OrderReservedHandler.State.start []
  orderOutbox := OutboxState.start (orderPublishers.map (fun batchSize => ("orders.created", batchSize)))
  worker := ⟨[], OutboxState.start (workerPublishers.map (fun batchSize => ("orders.reserved", batchSize)))⟩
  reservations := []

end PipelineState

end LiquidPetProject.OrderPipeline
