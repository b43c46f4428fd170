import LiquidPetProject.GroupSteps
import LiquidPetProject.OutboxPublisher

namespace LiquidPetProject.Messaging

open Models Outbox

def KafkaEventPublisher.producerRecord (request : PublishRequest String) (partition offset : ℤ) : ConsumerRecord where
  partition := ⟨request.topic, partition⟩
  offset := offset
  value := request.payload
  headers := [("eventId", request.metadata.eventId.value), ("eventType", request.metadata.eventType)]

namespace PublisherDeadLetterSink

def topicSuffix : String := ".dlq"

def publishRequest (record : DeadLetterRecord) : PublishRequest String where
  topic := record.source.topic ++ topicSuffix
  key := record.metadata.eventId.value
  payload := record.payload
  metadata := record.metadata

end PublisherDeadLetterSink

/-- The handler that a service starts its consumer with: what a call does to the service when it begins,
with the number the call gets, and what a call that has ended returned. -/
structure EventHandler (σ : Type) where
  handle : σ → String → MessageMetadata → σ × ℕ
  result : σ → ℕ → Option HandlerResult

inductive Callee
  | handler (item : WorkItem)
  | sink (record : DeadLetterRecord)
  deriving DecidableEq, Repr

def Worker.callee (retry : RetryPolicy) (worker : Worker WorkItem ExecutorPc) : Option Callee :=
  match worker.state with
  | .running item (.handling _) => some (.handler item)
  | .running item .sending => some (.sink (RecordExecutor.deadLetterRecord retry item))
  | _ => none

def KafkaEventConsumer.callee (c : KafkaEventConsumer) (w : ℕ) : Option Callee :=
  c.pipeline.pool.workers[w]?.bind (Worker.callee c.configuration.retry)

def ConsumerGroup.callee (g : ConsumerGroup) (i w : ℕ) : Option Callee :=
  (g.processes i).bind (fun c => c.callee w)

/-- The processes of one consumer group with the calls their threads are in. Of `sink`, only the futures
and the messages of a producer are used. -/
structure ServiceConsumer where
  group : ConsumerGroup := {}
  sink : OutboxState String := .start []
  calls : ℕ → ℕ → Option ℕ := fun _ _ => none
  sends : ℕ → ℕ → Option ℕ := fun _ _ => none

inductive ConsumerAction
  | group (a : GroupAction)
  | handle (i w : ℕ)
  | handled (i w : ℕ)
  | send (i w : ℕ)
  | broker (f : ℕ) (event : BrokerEvent)
  | sent (i w : ℕ)
  | sendTimedOut (i w : ℕ)
  | sendThrew (i w : ℕ)

def GroupAction.ofGroup : GroupAction → Bool
  | .produce _ => false
  | .worker _ (.execute _ reply) => reply = .none
  | _ => true

def setThread (calls : ℕ → ℕ → Option ℕ) (i w : ℕ) (call : Option ℕ) : ℕ → ℕ → Option ℕ :=
  Function.update calls i (Function.update (calls i) w call)

def afterGroup (a : GroupAction) (calls : ℕ → ℕ → Option ℕ) : ℕ → ℕ → Option ℕ :=
  match a with
  | .crash i => Function.update calls i (fun _ => none)
  | _ => calls

namespace ServiceConsumer

variable {σ : Type}

def answer (c : ServiceConsumer) (i w : ℕ) (reply : Reply) : Option ServiceConsumer :=
  (c.group.step (.worker i (.execute w reply))).map (fun group => { c with
    group := group
    calls := setThread c.calls i w none
    sends := setThread c.sends i w none })

def sendStep (c : ServiceConsumer) (i w : ℕ) : Option ServiceConsumer :=
  match c.sends i w, c.group.callee i w with
  | none, some (.sink record) => some { c with
      sink := c.sink.addFuture (PublisherDeadLetterSink.publishRequest record)
      sends := setThread c.sends i w (some c.sink.futures.length) }
  | _, _ => none

def handleStep (handler : EventHandler σ) (s : σ) (c : ServiceConsumer) (i w : ℕ) : Option (σ × ServiceConsumer) :=
  match c.calls i w, c.group.callee i w with
  | none, some (.handler item) =>
    let begun := handler.handle s item.payload item.metadata
    some (begun.1, { c with calls := setThread c.calls i w (some begun.2) })
  | _, _ => none

def step (handler : EventHandler σ) (s : σ) (c : ServiceConsumer) : ConsumerAction → Option (σ × ServiceConsumer)
  | .group a =>
    if a.ofGroup then
      (c.group.step a).map (fun group =>
        (s, { c with group := group, calls := afterGroup a c.calls, sends := afterGroup a c.sends }))
    else none
  | .handle i w => c.handleStep handler s i w
  | .handled i w => (c.calls i w).bind (fun n => (handler.result s n).bind (fun r =>
      (c.answer i w (.handler r)).map (Prod.mk s)))
  | .send i w => (c.sendStep i w).map (Prod.mk s)
  | .broker f event => (c.sink.step (.broker f event)).map (fun sink => (s, { c with sink := sink }))
  | .sent i w => (c.sends i w).bind (fun f => (c.sink.futureResult f).bind (fun r =>
      (c.answer i w (.sink (.returned r))).map (Prod.mk s)))
  | .sendTimedOut i w => (c.sends i w).bind (fun f =>
      if c.sink.futureResult f = none then
        (c.answer i w (.sink (.returned (.error (.eventPublisher .timeout))))).map (Prod.mk s)
      else none)
  | .sendThrew i w => (c.sends i w).bind (fun _ => (c.answer i w (.sink .threw)).map (Prod.mk s))

end ServiceConsumer

end LiquidPetProject.Messaging
