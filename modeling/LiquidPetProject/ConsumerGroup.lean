import LiquidPetProject.ConsumerPipeline

namespace LiquidPetProject.Messaging

open Models

/-- An entry of a poll result. One with `error` set is not a record of its partition. -/
structure ConsumerRecord where
  partition : PartitionKey
  offset : ℤ
  value : String
  headers : List (String × String) := []
  error : Bool := false
  deriving DecidableEq, Repr

def ConsumerRecord.header (r : ConsumerRecord) (key : String) : Option String :=
  (r.headers.reverse.find? (fun h => h.1 = key)).map Prod.snd

def ConsumerRecord.incoming (r : ConsumerRecord) : IncomingRecord where
  partition := r.partition
  offset := r.offset
  payload := r.value
  eventId := r.header "eventId"
  eventType := (r.header "eventType").getD ""

/-- Where the reader thread of a consumer stands. Rebalance callbacks run inside of `subscribe`, `poll`
and the final `close`; `resume` is the place that a nested call returns to. -/
inductive ConsumerPc
  | subscribing
  | looping
  | polling
  | ingesting (rest : List ConsumerRecord)
  | pumping
  | backpressure (drained : Bool)
  | commitReady
  | revoking (positions : List CommitPosition) (resume : ConsumerPc)
  | committing (positions : List CommitPosition) (confirm : Bool) (resume : ConsumerPc)
  | confirming (positions : List CommitPosition) (resume : ConsumerPc)
  | backoff
  | stopping
  | finalCommit
  | closing

def ConsumerPc.runsCallbacks : ConsumerPc → Bool
  | .subscribing => true
  | .polling => true
  | .closing => true
  | _ => false

structure KafkaEventConsumer where
  configuration : PipelineConfiguration
  pipeline : ConsumerPipeline
  assignment : List PartitionKey := []
  position : PartitionKey → ℤ := fun _ => 0
  paused : Bool := false
  stopRequested : Bool := false
  pc : ConsumerPc := .subscribing

inductive Settlement
  | handled (partition : PartitionKey) (offset : ℤ) (payload : String) (metadata : MessageMetadata)
  | deadLettered (record : DeadLetterRecord)
  | skipped (partition : PartitionKey) (offset : ℤ)
  deriving DecidableEq, Repr

namespace KafkaEventConsumer

def create (configuration : PipelineConfiguration) : KafkaEventConsumer where
  configuration := configuration
  pipeline := .create configuration

def settlement (item : WorkItem) : ExecutorEvent → Option Settlement
  | .called payload metadata (.returned true) =>
    some (.handled item.ticket.partition item.ticket.offset payload metadata)
  | .sent record (.returned (.ok ())) => some (.deadLettered record)
  | _ => none

def settlements (c : KafkaEventConsumer) : PipelineAction → List Settlement
  | .execute i reply =>
    match c.pipeline.pool.workers[i]? with
    | some ⟨.running item pc, stop⟩ =>
      match RecordExecutor.step c.configuration.retry item stop c.pipeline.registry pc reply with
      | some (events, _, _) => events.filterMap (settlement item)
      | none => []
    | _ => []
  | .reader =>
    match c.pipeline.reader with
    | .ingesting ticket record =>
      match (StrongID.create (record.eventId.getD "") : Except ErrorCode OutboxEventId) with
      | .ok _ => []
      | .error _ => [.skipped ticket.partition ticket.offset]
    | _ => []
  | _ => []

def pipelineStep (c : KafkaEventConsumer) (a : PipelineAction) : Option (List Settlement × KafkaEventConsumer) :=
  (c.pipeline.step c.configuration a).map (fun pipeline => (c.settlements a, { c with pipeline := pipeline }))

def callPipeline (c : KafkaEventConsumer) (a : PipelineAction) (pc : ConsumerPc) :
    Option (List Settlement × KafkaEventConsumer) :=
  (c.pipelineStep a).map (fun (settled, c) => (settled, { c with pc := pc }))

def commitOffsets (positions : List CommitPosition) (confirm : Bool) (resume : ConsumerPc) : ConsumerPc :=
  if positions.isEmpty then resume else .committing positions confirm resume

/-- The next step of the code of the consumer, between two calls of the pipeline and as far as it does
not depend on Kafka. `due` tells whether the commit interval is over. -/
def runLoop (c : KafkaEventConsumer) (due : Bool) : Option (List Settlement × KafkaEventConsumer) :=
  match c.pc with
  | .subscribing => some ([], { c with pc := .looping })
  | .looping =>
    if c.stopRequested then c.callPipeline .stop .stopping else some ([], { c with pc := .polling })
  | .polling => none
  | .ingesting (r :: rest) =>
    if r.error then some ([], { c with pc := .ingesting rest })
    else c.callPipeline (.ingest r.incoming) (.ingesting rest)
  | .ingesting [] => c.callPipeline .pump .pumping
  | .pumping => some ([], { c with pc := .backpressure c.pipeline.backlog.isEmpty })
  | .backpressure drained => some ([], { c with paused := !drained, pc := .commitReady })
  | .commitReady =>
    if due then
      some ([], { c with pc := commitOffsets c.pipeline.registry.commitCandidates true .looping })
    else some ([], { c with pc := .looping })
  | .revoking positions resume => some ([], { c with pc := commitOffsets positions false resume })
  | .committing _ _ _ => none
  | .confirming (position :: rest) resume =>
    c.callPipeline (.confirmCommit position) (.confirming rest resume)
  | .confirming [] resume => some ([], { c with pc := resume })
  | .backoff => some ([], { c with pc := .looping })
  | .stopping => some ([], { c with pc := .finalCommit })
  | .finalCommit =>
    some ([], { c with pc := commitOffsets c.pipeline.registry.commitCandidates true .closing })
  | .closing => none

def proceed (c : KafkaEventConsumer) (due : Bool) : Option (List Settlement × KafkaEventConsumer) :=
  if c.pipeline.reader = .idle then c.runLoop due else c.pipelineStep .reader

def kafkaError (c : KafkaEventConsumer) : Option KafkaEventConsumer :=
  match c.pc with
  | .polling => if c.pipeline.reader = .idle then some { c with pc := .backoff } else none
  | .backpressure _ => some { c with pc := .backoff }
  | _ => none

def inCallback (c : KafkaEventConsumer) : Bool := c.pipeline.reader = .idle && c.pc.runsCallbacks

def receive (c : KafkaEventConsumer) (batch : List ConsumerRecord) (position : PartitionKey → ℤ) :
    Option KafkaEventConsumer :=
  match c.pc with
  | .polling =>
    if c.pipeline.reader = .idle then some { c with position := position, pc := .ingesting batch } else none
  | _ => none

end KafkaEventConsumer

/-- The topics of the broker, its side of the consumer group, and the processes of the group. The
history records what became of the records; nothing reads it. -/
structure ConsumerGroup where
  log : PartitionKey → List ConsumerRecord := fun _ => []
  committed : PartitionKey → Option ℤ := fun _ => none
  owner : PartitionKey → Option ℕ := fun _ => none
  processes : ℕ → Option KafkaEventConsumer := fun _ => none
  history : List Settlement := []

inductive GroupAction
  | produce (r : ConsumerRecord)
  | loseOwner (p : PartitionKey)
  | spawn (i : ℕ) (configuration : PipelineConfiguration)
  | crash (i : ℕ)
  | requestStop (i : ℕ)
  | assigned (i : ℕ) (ps : List PartitionKey)
  | revoked (i : ℕ) (ps : List PartitionKey)
  | polled (i : ℕ) (batch : List ConsumerRecord)
  | kafkaError (i : ℕ)
  | proceed (i : ℕ) (due : Bool)
  | committed (i : ℕ)
  | commitFailed (i : ℕ) (applied : List CommitPosition)
  | worker (i : ℕ) (a : PipelineAction)

def PipelineAction.ofWorker : PipelineAction → Bool
  | .take _ => true
  | .execute _ _ => true
  | .finish _ => true
  | .exit _ => true
  | _ => false

def logEnd (records : List ConsumerRecord) : ℤ := (records.getLast?.map (fun r => r.offset + 1)).getD 0

namespace ConsumerGroup

/-- Without a committed offset a partition is read from its beginning (`auto.offset.reset`). -/
def startOffset (g : ConsumerGroup) (p : PartitionKey) : ℤ := (g.committed p).getD 0

def recordsOf (batch : List ConsumerRecord) (p : PartitionKey) : List ConsumerRecord :=
  batch.filter (fun r => r.error = false ∧ r.partition = p)

/-- A poll result continues every partition of the assignment where the last one ended. -/
def deliverable (g : ConsumerGroup) (c : KafkaEventConsumer) (batch : List ConsumerRecord) : Bool :=
  batch.all (fun r => r.error || r.partition ∈ c.assignment) &&
    c.assignment.all (fun p =>
      (recordsOf batch p).isPrefixOf ((g.log p).filter (fun r => c.position p ≤ r.offset)))

def positionAfter (c : KafkaEventConsumer) (batch : List ConsumerRecord) (p : PartitionKey) : ℤ :=
  ((recordsOf batch p).getLast?.map (fun r => r.offset + 1)).getD (c.position p)

def setProcess (g : ConsumerGroup) (i : ℕ) (c : KafkaEventConsumer) : ConsumerGroup :=
  { g with processes := Function.update g.processes i (some c) }

theorem setProcess_some {g : ConsumerGroup} {i j : ℕ} {c d : KafkaEventConsumer}
    (h : (g.setProcess i c).processes j = some d) : j = i ∧ d = c ∨ j ≠ i ∧ g.processes j = some d := by
  simp only [setProcess, Function.update_apply] at h
  split_ifs at h with hj
  · exact .inl ⟨hj, (Option.some.inj h).symm⟩
  · exact .inr ⟨hj, h⟩

def storeOffsets (committed : PartitionKey → Option ℤ) : List CommitPosition → PartitionKey → Option ℤ
  | [] => committed
  | c :: positions => storeOffsets (Function.update committed c.partition (some c.offset)) positions

def applyCommit (g : ConsumerGroup) (positions : List CommitPosition) : ConsumerGroup :=
  { g with committed := storeOffsets g.committed positions }

def ownsAll (g : ConsumerGroup) (i : ℕ) (positions : List CommitPosition) : Bool :=
  positions.all (fun c => g.owner c.partition = some i)

def settle (g : ConsumerGroup) (i : ℕ) (next : Option (List Settlement × KafkaEventConsumer)) :
    Option ConsumerGroup :=
  next.map (fun (settled, c) => { g.setProcess i c with history := g.history ++ settled })

def assign (g : ConsumerGroup) (i : ℕ) (c : KafkaEventConsumer) (ps : List PartitionKey) :
    Option ConsumerGroup :=
  if c.inCallback && ps.all (fun p => g.owner p = none || g.owner p = some i) then
    (c.pipeline.step c.configuration (.onPartitionsAssigned ps)).map (fun pipeline =>
      { g.setProcess i { c with
          pipeline := pipeline
          assignment := c.assignment ++ ps
          position := fun p => if p ∈ ps then g.startOffset p else c.position p } with
        owner := fun p => if p ∈ ps then some i else g.owner p })
  else none

def revoke (g : ConsumerGroup) (i : ℕ) (c : KafkaEventConsumer) (ps : List PartitionKey) :
    Option ConsumerGroup :=
  if c.inCallback then
    (c.pipeline.step c.configuration (.onPartitionsRevoked ps)).map (fun pipeline =>
      g.setProcess i { c with
        pipeline := pipeline
        assignment := c.assignment.filter (fun p => p ∉ ps)
        pc := .revoking (c.pipeline.registry.revoke ps).1 c.pc })
  else none

def step (g : ConsumerGroup) : GroupAction → Option ConsumerGroup
  | .produce r =>
    if r.error = false ∧ logEnd (g.log r.partition) ≤ r.offset then
      some { g with log := Function.update g.log r.partition (g.log r.partition ++ [r]) }
    else none
  | .loseOwner p => some { g with owner := Function.update g.owner p none }
  | .spawn i configuration =>
    if (g.processes i).isNone then some (g.setProcess i (.create configuration)) else none
  | .crash i => some { g with processes := Function.update g.processes i none }
  | .requestStop i => (g.processes i).map (fun c => g.setProcess i { c with stopRequested := true })
  | .assigned i ps => (g.processes i).bind (fun c => g.assign i c ps)
  | .revoked i ps => (g.processes i).bind (fun c => g.revoke i c ps)
  | .polled i batch => (g.processes i).bind (fun c =>
    if g.deliverable c batch then (c.receive batch (positionAfter c batch)).map (g.setProcess i) else none)
  | .kafkaError i => (g.processes i).bind (fun c => c.kafkaError.map (g.setProcess i))
  | .proceed i due => (g.processes i).bind (fun c => g.settle i (c.proceed due))
  | .committed i => (g.processes i).bind (fun c =>
    match c.pc with
    | .committing positions confirm resume =>
      if g.ownsAll i positions then
        some ((g.applyCommit positions).setProcess i
          { c with pc := if confirm then .confirming positions resume else resume })
      else none
    | _ => none)
  | .commitFailed i applied => (g.processes i).bind (fun c =>
    match c.pc with
    | .committing positions _ resume =>
      if applied.all (fun c => c ∈ positions) && g.ownsAll i applied then
        some ((g.applyCommit applied).setProcess i { c with pc := resume })
      else none
    | _ => none)
  | .worker i a => (g.processes i).bind (fun c =>
    if a.ofWorker then g.settle i (c.pipelineStep a) else none)

end ConsumerGroup

end LiquidPetProject.Messaging
