import LiquidPetProject.Fallible
import LiquidPetProject.OrderEvents
import LiquidPetProject.OrderTable
import LiquidPetProject.RecordExecutor

namespace LiquidPetProject.OrderReservedHandler

open Models Repository Events Messaging

variable {π : Type}

inductive CallEnd
  | malformed | unparsable | threw | notFound | loadFailed | alreadyReserved | conflict | changeFailed | changedConcurrently
  | reserved
  deriving DecidableEq, Repr

def CallEnd.result : CallEnd → HandlerResult
  | malformed => .returned true
  | unparsable => .returned true
  | threw => .threw
  | notFound => .returned true
  | loadFailed => .returned false
  | alreadyReserved => .returned true
  | conflict => .returned true
  | changeFailed => .returned false
  | changedConcurrently => .returned false
  | reserved => .returned true

inductive HandlerPc
  | waiting
  | finding (orderId : OrderId)
  | changing (orderId : OrderId) (previousStatus newStatus : OrderStatus)
  deriving DecidableEq

inductive Progress
  | next (pc : HandlerPc)
  | ended (reason : CallEnd)
  deriving DecidableEq

def eventOf (parse : π → Except ParseException Json) (payload : π) : Option OrderReservedEvent :=
  match parse payload with
  | .error _ => none
  | .ok json => (OrderReservedEventJsonMapper.fromJson json).toOption

def parsePayload (parse : π → Except ParseException Json) (payload : π) : Progress :=
  match parse payload with
  | .error .parseError => .ended .malformed
  | .error .outOfRange => .ended .threw
  | .ok json =>
    match OrderReservedEventJsonMapper.fromJson json with
    | .error _ => .ended .unparsable
    | .ok event => .next (.finding event.orderId)

theorem eventOf_some {parse : π → Except ParseException Json} {payload : π} {event : OrderReservedEvent} :
    eventOf parse payload = some event ↔
      ∃ json, parse payload = .ok json ∧ OrderReservedEventJsonMapper.fromJson json = .ok event := by
  unfold eventOf
  cases parse payload with
  | error e => simp
  | ok json =>
    simp only [Fallible.toOption_some]
    constructor
    · intro h
      exact ⟨json, rfl, h⟩
    · rintro ⟨other, hsame, h⟩
      rwa [Except.ok.inj hsame]

theorem parsePayload_cases (parse : π → Except ParseException Json) (payload : π) :
    (∃ reason, parsePayload parse payload = .ended reason ∧ reason ≠ .changedConcurrently ∧
        eventOf parse payload = none) ∨
      ∃ event, parsePayload parse payload = .next (.finding event.orderId) ∧ eventOf parse payload = some event := by
  unfold parsePayload eventOf
  cases parse payload with
  | error e =>
    cases e with
    | parseError => exact .inl ⟨.malformed, rfl, by decide, rfl⟩
    | outOfRange => exact .inl ⟨.threw, rfl, by decide, rfl⟩
  | ok json =>
    cases hm : OrderReservedEventJsonMapper.fromJson json with
    | error e =>
      refine .inl ⟨.unparsable, ?_, by decide, ?_⟩
      all_goals simp only [hm, Except.toOption]
    | ok event =>
      refine .inr ⟨event, ?_, ?_⟩
      all_goals simp only [hm, Except.toOption]

def afterFind (orderId : OrderId) : Except ErrorCode Order → Progress
  | .error e => if e = .repository .notFound then .ended .notFound else .ended .loadFailed
  | .ok order =>
    if order.status = .reserved then .ended .alreadyReserved
    else
      match order.markReserved with
      | .error _ => .ended .conflict
      | .ok marked => .next (.changing orderId order.status marked.status)

def afterChange : Except ErrorCode Bool → Progress
  | .error _ => .ended .changeFailed
  | .ok false => .ended .changedConcurrently
  | .ok true => .ended .reserved

structure StatusChange where
  orderId : Option Uuid
  before : OrderStatus
  after : OrderStatus
  deriving DecidableEq

def statusChanges (before after : List Order) : List StatusChange :=
  (before.zip after).filterMap
    (fun o => if o.1.status = o.2.status then none else some ⟨orderKey o.1, o.1.status, o.2.status⟩)

structure FinishedCall where
  reason : CallEnd
  written : List StatusChange
  deriving DecidableEq

/-- The successive calls of `handle` for one record; only the parser looks into its payload. -/
structure RecordCalls (π : Type) where
  payload : π
  pc : HandlerPc
  written : List StatusChange
  finished : List FinishedCall

def RecordCalls.advance (r : RecordCalls π) (changes : List StatusChange) : Progress → RecordCalls π
  | .next pc => { r with pc := pc, written := r.written ++ changes }
  | .ended reason =>
    { r with pc := .waiting, written := [], finished := r.finished ++ [⟨reason, r.written ++ changes⟩] }

structure State (π : Type) where
  orders : List Order
  records : List (RecordCalls π)

inductive Action
  | call (i : ℕ)
  | find (i : ℕ) (failure : Option PqxxException)
  | change (i : ℕ) (outcome : CommitOutcome)
  | written (orderId : OrderId) (status : OrderStatus)
  | inserted (order : Order) (orderId : OrderId)

def Action.isHandler : Action → Bool
  | .call _ => true
  | .find _ _ => true
  | .change _ _ => true
  | _ => false

namespace State

def advance (s : State π) (i : ℕ) (r : RecordCalls π) (orders : List Order) (progress : Progress) : State π where
  orders := orders
  records := s.records.set i (r.advance (statusChanges s.orders orders) progress)

def handlerStep (parse : π → Except ParseException Json) (s : State π) (i : ℕ) (r : RecordCalls π) :
    Action → Option (State π)
  | .call _ => if r.pc = .waiting then some (s.advance i r s.orders (parsePayload parse r.payload)) else none
  | .find _ failure =>
    match r.pc with
    | .finding orderId => some (s.advance i r s.orders (afterFind orderId (findById s.orders orderId failure)))
    | _ => none
  | .change _ outcome =>
    match r.pc with
    | .changing orderId previousStatus newStatus =>
      let answer := changeStatus s.orders orderId previousStatus newStatus outcome
      some (s.advance i r answer.1 (afterChange answer.2))
    | _ => none
  | _ => none

def writeStatus (s : State π) (orderId : OrderId) (status : OrderStatus) : State π :=
  { s with orders := s.orders.map (fun o => if orderKey o = some (Uuid.ofId orderId) then withStatus o status else o) }

def insertOrder (s : State π) (order : Order) (orderId : OrderId) : Option (State π) :=
  if Uuid.ofId orderId ∈ orderKeys s.orders then none
  else some { s with orders := s.orders ++ [order.assignId orderId] }

def step (parse : π → Except ParseException Json) (s : State π) (a : Action) : Option (State π) :=
  match a with
  | .written orderId status => some (s.writeStatus orderId status)
  | .inserted order orderId => s.insertOrder order orderId
  | .call i | .find i _ | .change i _ =>
    match s.records[i]? with
    | none => none
    | some r => s.handlerStep parse i r a

def start (payloads : List π) : State π where
  orders := []
  records := payloads.map (fun payload => ⟨payload, .waiting, [], []⟩)

end State

end LiquidPetProject.OrderReservedHandler
