import LiquidPetProject.RecordExecutor
import LiquidPetProject.WorkerPool

namespace LiquidPetProject.Messaging

open Models

structure IncomingRecord where
  partition : PartitionKey
  offset : ℤ
  payload : String
  eventId : Option String
  eventType : String
  deriving DecidableEq, Repr

structure PipelineConfiguration where
  workerThreads : ℕ := 4
  queueCapacity : ℕ := 64
  retry : RetryPolicy := {}
  deriving DecidableEq, Repr

inductive ReaderPc
  | idle
  | ingesting (ticket : RecordTicket) (record : IncomingRecord)
  | revoking (partitions : List PartitionKey)
  | pumping
  | popping
  | stopping (next : ℕ)
  | clearing
  deriving DecidableEq, Repr

structure ConsumerPipeline where
  registry : PartitionRegistry := {}
  backlog : List WorkItem := []
  pool : WorkerPool WorkItem ExecutorPc
  reader : ReaderPc := .idle

inductive PipelineAction
  | onPartitionsAssigned (partitions : List PartitionKey)
  | onPartitionsRevoked (partitions : List PartitionKey)
  | ingest (record : IncomingRecord)
  | pump
  | commitCandidates
  | confirmCommit (position : CommitPosition)
  | stop
  | reader
  | take (i : ℕ)
  | execute (i : ℕ) (reply : Reply)
  | finish (i : ℕ)
  | exit (i : ℕ)
  deriving DecidableEq, Repr

namespace ConsumerPipeline

def create (config : PipelineConfiguration) : ConsumerPipeline where
  pool := WorkerPool.create config.workerThreads config.queueCapacity

/-- The first half of `ingest`: a record that is not registered is dropped. -/
def register (s : ConsumerPipeline) (record : IncomingRecord) : ConsumerPipeline :=
  match s.registry.registerRecord record.partition record.offset with
  | (.ok ticket, reg) => { s with registry := reg, reader := .ingesting ticket record }
  | (.error _, reg) => { s with registry := reg }

/-- The second half of `ingest`: a record without a valid event id is completed at once. -/
def admitRecord (s : ConsumerPipeline) (ticket : RecordTicket) (record : IncomingRecord) : ConsumerPipeline :=
  match StrongID.create (record.eventId.getD "") with
  | .ok eventId => { s with
      backlog := s.backlog ++ [⟨ticket, record.payload, ⟨eventId, record.eventType⟩⟩]
      reader := .idle }
  | .error _ => { s with registry := (s.registry.complete ticket).2, reader := .idle }

def submitFront (s : ConsumerPipeline) : ConsumerPipeline :=
  match s.backlog with
  | [] => { s with reader := .idle }
  | item :: _ =>
    match s.pool.trySubmit item with
    | (true, pool) => { s with pool := pool, reader := .popping }
    | (false, pool) => { s with pool := pool, reader := .idle }

def readerStep (s : ConsumerPipeline) : Option ConsumerPipeline :=
  match s.reader with
  | .idle => none
  | .ingesting ticket record => some (s.admitRecord ticket record)
  | .revoking partitions =>
    some { s with backlog := s.backlog.filter (fun item => item.ticket.partition ∉ partitions), reader := .idle }
  | .pumping => some s.submitFront
  | .popping => some { s with backlog := s.backlog.tail, reader := .pumping }
  | .stopping next =>
    if next < s.pool.workers.length then
      some { s with pool := s.pool.requestStop next, reader := .stopping (next + 1) }
    else if s.pool.joined then some { s with reader := .clearing }
    else none
  | .clearing => some { s with backlog := [], reader := .idle }

def executeStep (config : PipelineConfiguration) (s : ConsumerPipeline) (i : ℕ) (reply : Reply) :
    Option ConsumerPipeline :=
  match s.pool.workers[i]? with
  | some ⟨.running item pc, stop⟩ =>
    (RecordExecutor.step config.retry item stop s.registry pc reply).map
      (fun (_, reg, pc) => { s with registry := reg, pool := s.pool.advance i pc })
  | _ => none

/-- The calls of the reader thread begin between two calls only; the workers move at any time. -/
def step (config : PipelineConfiguration) (s : ConsumerPipeline) : PipelineAction → Option ConsumerPipeline
  | .onPartitionsAssigned partitions =>
    if s.reader = .idle then some { s with registry := s.registry.assign partitions } else none
  | .onPartitionsRevoked partitions =>
    if s.reader = .idle then
      some { s with registry := (s.registry.revoke partitions).2, reader := .revoking partitions }
    else none
  | .ingest record => if s.reader = .idle then some (s.register record) else none
  | .pump => if s.reader = .idle then some { s with reader := .pumping } else none
  | .commitCandidates => if s.reader = .idle then some s else none
  | .confirmCommit position =>
    if s.reader = .idle then some { s with registry := (s.registry.confirmCommit position).2 } else none
  | .stop =>
    if s.reader = .idle then some { s with pool := s.pool.close, reader := .stopping 0 } else none
  | .reader => s.readerStep
  | .take i => (s.pool.take i (RecordExecutor.start config.retry)).map (fun pool => { s with pool := pool })
  | .execute i reply => executeStep config s i reply
  | .finish i => (s.pool.finish i ExecutorPc.ended).map (fun pool => { s with pool := pool })
  | .exit i => (s.pool.exit i).map (fun pool => { s with pool := pool })

theorem submitFront_cases (s : ConsumerPipeline) :
    s.submitFront = { s with reader := .idle } ∨
      ∃ item rest, s.backlog = item :: rest ∧ s.submitFront =
        { s with pool := { s.pool with queue := s.pool.queue ++ [item] }, reader := .popping } := by
  cases hb : s.backlog with
  | nil =>
    left
    simp [submitFront, hb]
  | cons item rest =>
    cases hc : s.pool.stopped || decide (s.pool.queue.length ≥ s.pool.capacity) with
    | true =>
      left
      simp only [submitFront, hb, WorkerPool.trySubmit, hc, if_true]
    | false =>
      right
      refine ⟨item, rest, rfl, ?_⟩
      simp only [submitFront, hb, WorkerPool.trySubmit, hc, Bool.false_eq_true, if_false]

end ConsumerPipeline

end LiquidPetProject.Messaging
