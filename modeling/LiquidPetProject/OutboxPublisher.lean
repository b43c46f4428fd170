import LiquidPetProject.MessageMetadata
import LiquidPetProject.OutboxRepository
import LiquidPetProject.RepositoryOutcome
import LiquidPetProject.Transitions

namespace LiquidPetProject.Outbox

open Models Messaging Repository

variable {π : Type}

structure BatchResult where
  fetched : ℕ := 0
  published : ℕ := 0
  deriving DecidableEq, Repr

def BatchResult.hasMoreWork (result : BatchResult) (batchSize : Int32) : Bool :=
  0 < result.published && batchSize.toInt ≤ result.fetched

structure PublishFuture (π : Type) where
  request : PublishRequest π
  stored : Bool
  result : Option (Except ErrorCode Unit)

/-- Where `processBatch` stands. The transactions of `fetching` and `updating` are open. A pending
entry is kept with the index of its future. -/
inductive PublisherPc (π : Type)
  | idle (last : BatchResult)
  | fetching (rows : List (OutboxEntry π))
  | publishing (todo : List (OutboxEntry π)) (pending : List (OutboxEntry π × ℕ))
  | awaiting (pending : List (OutboxEntry π × ℕ)) (result : BatchResult)
  | marking (entry : OutboxEntry π) (pending : List (OutboxEntry π × ℕ)) (result : BatchResult)
  | updating (entry : OutboxEntry π) (pending : List (OutboxEntry π × ℕ)) (result : BatchResult)

structure OutboxPublisher (π : Type) where
  topic : String
  batchSize : Int32
  pc : PublisherPc π

structure OutboxState (π : Type) where
  rows : List (OutboxRow π)
  inserts : List (OutboxRow π)
  publishers : List (OutboxPublisher π)
  futures : List (PublishFuture π)
  messages : List (PublishRequest π)

inductive PublisherEvent
  | select (rank : OutboxEventId → ℕ)
  | fetchFailed
  | fetchCommitted
  | publish
  | publishFinished
  | timedOut
  | ready
  | update
  | markFailed
  | markFinished (outcome : CommitOutcome)
  | restarted (applied : Bool)

inductive BrokerEvent
  | stored
  | acknowledged
  | rejected (e : ErrorCode)

inductive OutboxAction (π : Type)
  | insert (entry : OutboxEntry π) (createdAt : ℤ)
  | insertCommitted (k : ℕ)
  | insertRolledBack (k : ℕ)
  | publisher (i : ℕ) (event : PublisherEvent)
  | broker (f : ℕ) (event : BrokerEvent)

def OutboxPublisher.publishRequest (publisher : OutboxPublisher π) (entry : OutboxEntry π) : PublishRequest π where
  topic := publisher.topic
  key := entry.aggregateId
  payload := entry.payload
  metadata := ⟨entry.id, entry.eventType⟩

namespace PublisherPc

def inTransaction : PublisherPc π → Bool
  | fetching _ => true
  | updating _ _ _ => true
  | _ => false

def locks : PublisherPc π → List OutboxEventId
  | fetching rows => rows.map OutboxEntry.id
  | updating entry _ _ => [entry.id]
  | _ => []

def next (pending : List (OutboxEntry π × ℕ)) (result : BatchResult) : PublisherPc π :=
  match pending with
  | [] => idle result
  | _ :: _ => awaiting pending result

end PublisherPc

namespace OutboxState

def locked (s : OutboxState π) : List OutboxEventId := s.publishers.flatMap (fun p => p.pc.locks)

def setPc (s : OutboxState π) (i : ℕ) (pc : PublisherPc π) : OutboxState π :=
  { s with publishers := s.publishers.modify i (fun p => { p with pc := pc }) }

def addFuture (s : OutboxState π) (request : PublishRequest π) : OutboxState π :=
  { s with futures := s.futures ++ [⟨request, false, none⟩] }

def addRow (s : OutboxState π) (row : OutboxRow π) : OutboxState π := { s with rows := s.rows ++ [row] }

def markAsPublished (s : OutboxState π) (id : OutboxEventId) : OutboxState π :=
  { s with rows := markOutboxPublished id s.rows }

def selectUnpublished (s : OutboxState π) (i : ℕ) (p : OutboxPublisher π) (rank : OutboxEventId → ℕ) : OutboxState π :=
  if p.batchSize.toInt < 0 then s.setPc i (.idle {})
  else s.setPc i (.fetching (entries (selectUnpublishedOutbox rank s.locked p.batchSize.toInt.toNat s.rows)))

def publishNext (s : OutboxState π) (i : ℕ) (p : OutboxPublisher π) (todo : List (OutboxEntry π))
    (pending : List (OutboxEntry π × ℕ)) : Option (OutboxState π) :=
  match todo with
  | [] => none
  | entry :: todo =>
    some ((s.addFuture (p.publishRequest entry)).setPc i
      (.publishing todo (pending ++ [(entry, s.futures.length)])))

def publishFinished (s : OutboxState π) (i : ℕ) (todo : List (OutboxEntry π))
    (pending : List (OutboxEntry π × ℕ)) : Option (OutboxState π) :=
  if todo.isEmpty then some (s.setPc i (.next pending { fetched := pending.length })) else none

def futureResult (s : OutboxState π) (f : ℕ) : Option (Except ErrorCode Unit) :=
  s.futures[f]?.bind PublishFuture.result

def waitTimedOut (s : OutboxState π) (i : ℕ) (pending : List (OutboxEntry π × ℕ)) (result : BatchResult) :
    Option (OutboxState π) :=
  match pending with
  | [] => none
  | (_, f) :: pending => if s.futureResult f = none then some (s.setPc i (.next pending result)) else none

def waitReady (s : OutboxState π) (i : ℕ) (pending : List (OutboxEntry π × ℕ)) (result : BatchResult) :
    Option (OutboxState π) :=
  match pending with
  | [] => none
  | (entry, f) :: pending =>
    match s.futureResult f with
    | none => none
    | some (.error _) => some (s.setPc i (.next pending result))
    | some (.ok _) => some (s.setPc i (.marking entry pending result))

def updatePublished (s : OutboxState π) (i : ℕ) (entry : OutboxEntry π) (pending : List (OutboxEntry π × ℕ))
    (result : BatchResult) : Option (OutboxState π) :=
  if entry.id ∈ s.locked then none
  else if s.rows.any (fun row => row.id = entry.id) then some (s.setPc i (.updating entry pending result))
  else some (s.setPc i (.next pending result))

def markFinished (s : OutboxState π) (i : ℕ) (entry : OutboxEntry π) (pending : List (OutboxEntry π × ℕ))
    (result : BatchResult) : CommitOutcome → OutboxState π
  | .committed => (s.markAsPublished entry.id).setPc i (.next pending { result with published := result.published + 1 })
  | .failed _ => s.setPc i (.next pending result)
  | .inDoubt _ => (s.markAsPublished entry.id).setPc i (.next pending result)

def restart (s : OutboxState π) (i : ℕ) (pc : PublisherPc π) (applied : Bool) : OutboxState π :=
  match pc with
  | .updating entry _ _ => (if applied then s.markAsPublished entry.id else s).setPc i (.idle {})
  | _ => s.setPc i (.idle {})

/-- One step of `processBatch` of instance `i`; `fetchFailed` is an exception of the query or of its commit. -/
def publisherStep (s : OutboxState π) (i : ℕ) (p : OutboxPublisher π) (event : PublisherEvent) :
    Option (OutboxState π) :=
  match p.pc, event with
  | .idle _, .select rank => some (s.selectUnpublished i p rank)
  | .idle _, .fetchFailed => some (s.setPc i (.idle {}))
  | .fetching _, .fetchFailed => some (s.setPc i (.idle {}))
  | .fetching rows, .fetchCommitted => some (s.setPc i (.publishing rows []))
  | .publishing todo pending, .publish => s.publishNext i p todo pending
  | .publishing todo pending, .publishFinished => s.publishFinished i todo pending
  | .awaiting pending result, .timedOut => s.waitTimedOut i pending result
  | .awaiting pending result, .ready => s.waitReady i pending result
  | .marking _ pending result, .markFailed => some (s.setPc i (.next pending result))
  | .marking entry pending result, .update => s.updatePublished i entry pending result
  | .updating entry pending result, .markFinished outcome => some (s.markFinished i entry pending result outcome)
  | pc, .restarted applied => some (s.restart i pc applied)
  | _, _ => none

def brokerStep (s : OutboxState π) (f : ℕ) (future : PublishFuture π) : BrokerEvent → Option (OutboxState π)
  | .stored => some { s with
      futures := s.futures.set f { future with stored := true }
      messages := s.messages ++ [future.request] }
  | .acknowledged =>
    if future.stored = true ∧ future.result.isNone = true then
      some { s with futures := s.futures.set f { future with result := some (.ok ()) } }
    else none
  | .rejected e =>
    if future.result.isNone = true then
      some { s with futures := s.futures.set f { future with result := some (.error e) } }
    else none

def step (s : OutboxState π) : OutboxAction π → Option (OutboxState π)
  | .insert entry createdAt => some { s with inserts := s.inserts ++ [insertOutboxEvent entry createdAt] }
  | .insertCommitted k =>
    match s.inserts[k]? with
    | none => none
    | some row =>
      if row.id ∈ s.rows.map (fun r => r.id) then none
      else some ({ s with inserts := s.inserts.eraseIdx k }.addRow row)
  | .insertRolledBack k => some { s with inserts := s.inserts.eraseIdx k }
  | .publisher i event =>
    match s.publishers[i]? with
    | none => none
    | some p => s.publisherStep i p event
  | .broker f event =>
    match s.futures[f]? with
    | none => none
    | some future => s.brokerStep f future event

def start (instances : List (String × Int32)) : OutboxState π where
  rows := []
  inserts := []
  publishers := instances.map (fun c => ⟨c.1, c.2, .idle {}⟩)
  futures := []
  messages := []

end OutboxState

end LiquidPetProject.Outbox
