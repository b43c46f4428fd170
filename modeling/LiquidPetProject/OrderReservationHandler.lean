import LiquidPetProject.JsonFields
import LiquidPetProject.OrderEvents
import LiquidPetProject.OutboxPublisher

namespace LiquidPetProject.OrderReservationHandler

open FixedWidth Models Repository Events Messaging Outbox

variable {π : Type}

/-- The text functions of the JSON library and of the `jsonb` columns. `store` is the text a document
has once it is in a row; there is none where the document cannot be written. -/
structure Codec (π : Type) where
  parse : π → Except ParseException Json
  store : Json → Option π
  unrepresentable : UnrepresentableCast

/-- A string member of a stored document reads back unchanged. -/
def Codec.KeepsStrings (codec : Codec π) : Prop :=
  ∀ json text json', codec.store json = some text → codec.parse text = .ok json' →
    ∀ key s, json.member key = some (.string s) → json'.member key = some (.string s)

structure ReservationRecord (π : Type) where
  eventId : OutboxEventId
  aggregateId : OrderId
  eventType : String
  payload : π

structure WorkerDatabase (π : Type) where
  processed : List OutboxEventId
  outbox : OutboxState π

def ReservationRecord.entry (record : ReservationRecord π) (rowId : OutboxEventId) : OutboxEntry π :=
  ⟨rowId, record.aggregateId.value, record.eventType, record.payload⟩

def WorkerDatabase.insertReservation (db : WorkerDatabase π) (record : ReservationRecord π) (rowId : OutboxEventId)
    (createdAt : ℤ) : WorkerDatabase π where
  processed := db.processed ++ [record.eventId]
  outbox := db.outbox.addRow (insertOutboxEvent (record.entry rowId) createdAt)

def WorkerDatabase.knows (db : WorkerDatabase π) (eventId : OutboxEventId) : Prop :=
  Uuid.ofId eventId ∈ db.processed.map Uuid.ofId

instance (db : WorkerDatabase π) (eventId : OutboxEventId) : Decidable (db.knows eventId) :=
  inferInstanceAs (Decidable (_ ∈ _))

def WorkerDatabase.recordReservationIfNew (db : WorkerDatabase π) (record : ReservationRecord π)
    (rowId : OutboxEventId) (createdAt : ℤ) (outcome : CommitOutcome) : WorkerDatabase π × Except ErrorCode Bool :=
  match outcome with
  | .failed e => (db, .error (mapPqxxException e))
  | .committed =>
    if db.knows record.eventId then (db, .ok false)
    else if Uuid.ofId rowId ∈ rowKeys db.outbox.rows then (db, .error (mapPqxxException .uniqueViolation))
    else (db.insertReservation record rowId createdAt, .ok true)
  | .inDoubt e =>
    if db.knows record.eventId then (db, .ok false)
    else if Uuid.ofId rowId ∈ rowKeys db.outbox.rows then (db, .error (mapPqxxException .uniqueViolation))
    else (db.insertReservation record rowId createdAt, .error (mapPqxxException e))

inductive ReservationPc
  | processing (event : OrderCreatedEvent)
  | recording (event : OrderCreatedEvent)
  | returned (handled : Bool)
  | threw

structure ReservationCall where
  metadata : MessageMetadata
  pc : ReservationPc

def createdEvent (codec : Codec π) (payload : π) : Option OrderCreatedEvent :=
  match codec.parse payload with
  | .error _ => none
  | .ok json => (OrderCreatedEventJsonMapper.fromJson codec.unrepresentable json).toOption

def beginCall (codec : Codec π) (payload : π) : ReservationPc :=
  match codec.parse payload with
  | .error .parseError => .returned true
  | .error .outOfRange => .threw
  | .ok json =>
    match OrderCreatedEventJsonMapper.fromJson codec.unrepresentable json with
    | .error _ => .returned true
    | .ok event => .processing event

def afterProcess (event : OrderCreatedEvent) : Except ErrorCode Unit → ReservationPc
  | .error _ => .returned false
  | .ok _ => .recording event

def afterRecord : Except ErrorCode Bool → ReservationPc
  | .error _ => .returned false
  | .ok _ => .returned true

def reservationRecord (call : ReservationCall) (event : OrderCreatedEvent) (payload : π) : ReservationRecord π where
  eventId := call.metadata.eventId
  aggregateId := event.orderId
  eventType := "OrderReserved"
  payload := payload

def record (codec : Codec π) (db : WorkerDatabase π) (call : ReservationCall) (event : OrderCreatedEvent)
    (rowId : OutboxEventId) (createdAt : ℤ) (outcome : CommitOutcome) : WorkerDatabase π × ReservationPc :=
  match codec.store (OrderReservedEventJsonMapper.toJson ⟨event.orderId⟩) with
  | none => (db, .threw)
  | some payload =>
    let answer := db.recordReservationIfNew (reservationRecord call event payload) rowId createdAt outcome
    (answer.1, afterRecord answer.2)

theorem createdEvent_some {codec : Codec π} {payload : π} {event : OrderCreatedEvent} :
    createdEvent codec payload = some event ↔ ∃ json, codec.parse payload = .ok json ∧
      OrderCreatedEventJsonMapper.fromJson codec.unrepresentable json = .ok event := by
  unfold createdEvent
  cases codec.parse payload with
  | error e => simp
  | ok json =>
    simp only [Fallible.toOption_some]
    constructor
    · intro h
      exact ⟨json, rfl, h⟩
    · rintro ⟨other, hsame, h⟩
      rwa [Except.ok.inj hsame]

theorem beginCall_cases (codec : Codec π) (payload : π) :
    (createdEvent codec payload = none ∧
        (beginCall codec payload = .returned true ∨ beginCall codec payload = .threw)) ∨
      ∃ event, createdEvent codec payload = some event ∧ beginCall codec payload = .processing event := by
  unfold createdEvent beginCall
  cases codec.parse payload with
  | error e =>
    cases e with
    | parseError => exact .inl ⟨rfl, .inl rfl⟩
    | outOfRange => exact .inl ⟨rfl, .inr rfl⟩
  | ok json =>
    cases hm : OrderCreatedEventJsonMapper.fromJson codec.unrepresentable json with
    | error e =>
      refine .inl ⟨?_, .inl ?_⟩
      all_goals simp only [hm, Except.toOption]
    | ok event =>
      refine .inr ⟨event, ?_, ?_⟩
      all_goals simp only [hm, Except.toOption]

theorem beginCall_event {codec : Codec π} {payload : π} {event : OrderCreatedEvent}
    (h : beginCall codec payload = .processing event) : createdEvent codec payload = some event := by
  rcases beginCall_cases codec payload with ⟨-, hended | hended⟩ | ⟨found, hfound, hbegin⟩
  · cases hended.symm.trans h
  · cases hended.symm.trans h
  · exact ReservationPc.processing.inj (hbegin.symm.trans h) ▸ hfound

theorem beginCall_not_recording {codec : Codec π} {payload : π} {event : OrderCreatedEvent} :
    beginCall codec payload ≠ .recording event := by
  intro h
  rcases beginCall_cases codec payload with ⟨-, hended | hended⟩ | ⟨found, -, hbegin⟩
  · cases hended.symm.trans h
  · cases hended.symm.trans h
  · cases hbegin.symm.trans h

theorem recordReservationIfNew_fst (db : WorkerDatabase π) (record : ReservationRecord π) (rowId : OutboxEventId)
    (createdAt : ℤ) (outcome : CommitOutcome) :
    (db.recordReservationIfNew record rowId createdAt outcome).1 = db ∨
      ¬ db.knows record.eventId ∧ Uuid.ofId rowId ∉ rowKeys db.outbox.rows ∧
        (db.recordReservationIfNew record rowId createdAt outcome).1 = db.insertReservation record rowId createdAt := by
  unfold WorkerDatabase.recordReservationIfNew
  cases outcome with
  | failed e => exact .inl rfl
  | committed | inDoubt e =>
    split_ifs with hknown hrow
    · exact .inl rfl
    · exact .inl rfl
    · exact .inr ⟨hknown, hrow, rfl⟩

theorem record_fst (codec : Codec π) (db : WorkerDatabase π) (call : ReservationCall) (event : OrderCreatedEvent)
    (rowId : OutboxEventId) (createdAt : ℤ) (outcome : CommitOutcome) :
    (record codec db call event rowId createdAt outcome).1 = db ∨
      ∃ payload, codec.store (OrderReservedEventJsonMapper.toJson ⟨event.orderId⟩) = some payload ∧
        ¬ db.knows call.metadata.eventId ∧ Uuid.ofId rowId ∉ rowKeys db.outbox.rows ∧
        (record codec db call event rowId createdAt outcome).1 =
          db.insertReservation (reservationRecord call event payload) rowId createdAt := by
  unfold record
  cases hs : codec.store (OrderReservedEventJsonMapper.toJson ⟨event.orderId⟩) with
  | none => exact .inl rfl
  | some payload =>
    obtain hsame | ⟨hnew, hrow, hinsert⟩ :=
      recordReservationIfNew_fst db (reservationRecord call event payload) rowId createdAt outcome
    · exact .inl hsame
    · exact .inr ⟨payload, rfl, hnew, hrow, hinsert⟩

theorem record_returns (codec : Codec π) (db : WorkerDatabase π) (call : ReservationCall) (event : OrderCreatedEvent)
    (rowId : OutboxEventId) (createdAt : ℤ) (outcome : CommitOutcome) :
    (record codec db call event rowId createdAt outcome).2 = .threw ∨
      ∃ handled, (record codec db call event rowId createdAt outcome).2 = .returned handled := by
  unfold record
  cases codec.store (OrderReservedEventJsonMapper.toJson ⟨event.orderId⟩) with
  | none => exact .inl rfl
  | some payload =>
    dsimp only
    cases (db.recordReservationIfNew (reservationRecord call event payload) rowId createdAt outcome).2 with
    | error e => exact .inr ⟨false, rfl⟩
    | ok isNew => exact .inr ⟨true, rfl⟩

end LiquidPetProject.OrderReservationHandler
