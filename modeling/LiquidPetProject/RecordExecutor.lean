import LiquidPetProject.MessageMetadata
import LiquidPetProject.RegistryCalls

namespace LiquidPetProject.Messaging

open Models

structure WorkItem where
  ticket : RecordTicket
  payload : String
  metadata : MessageMetadata
  deriving DecidableEq, Repr

structure DeadLetterRecord where
  source : PartitionKey
  offset : ℤ
  attempts : Int32
  payload : String
  metadata : MessageMetadata
  deriving DecidableEq, Repr

inductive RecordOutcome
  | succeeded | deadLettered | abandoned
  deriving DecidableEq, Repr

structure RetryPolicy where
  maxAttempts : Int32 := 5
  deriving DecidableEq, Repr

def RetryPolicy.effectiveMaxAttempts (policy : RetryPolicy) : Int32 := max 1 policy.maxAttempts

inductive HandlerResult
  | returned (handled : Bool)
  | threw
  deriving DecidableEq, Repr

inductive SinkResult
  | returned (sent : Except ErrorCode Unit)
  | threw
  deriving DecidableEq, Repr

inductive Reply
  | none
  | handler (r : HandlerResult)
  | sink (r : SinkResult)
  deriving DecidableEq, Repr

/-- Where a call of `execute` stands. The two operands of `shouldAbandon` are separate steps, and
`escaped` is an exception that leaves the call. -/
inductive ExecutorPc
  | stopCheck (attempt : Int32)
  | currentCheck (attempt : Int32)
  | handling (attempt : Int32)
  | sleeping (attempt : Int32)
  | deadLetterStopCheck
  | deadLetterCurrentCheck
  | sending
  | sendSleeping
  | finishing (outcome : RecordOutcome)
  | returned (outcome : RecordOutcome)
  | escaped
  deriving DecidableEq, Repr

def ExecutorPc.ended : ExecutorPc → Bool
  | .returned _ => true
  | .escaped => true
  | _ => false

inductive ExecutorEvent
  | called (payload : String) (metadata : MessageMetadata) (r : HandlerResult)
  | sent (record : DeadLetterRecord) (r : SinkResult)
  | completed (ticket : RecordTicket) (r : Except ErrorCode CompletionResult)
  | sawStop
  | sawStale
  deriving DecidableEq, Repr

namespace RecordExecutor

def deadLetterRecord (policy : RetryPolicy) (item : WorkItem) : DeadLetterRecord where
  source := item.ticket.partition
  offset := item.ticket.offset
  attempts := policy.effectiveMaxAttempts
  payload := item.payload
  metadata := item.metadata

def loopTest (policy : RetryPolicy) (attempt : Int32) : ExecutorPc :=
  if attempt ≤ policy.effectiveMaxAttempts then .stopCheck attempt else .deadLetterStopCheck

def start (policy : RetryPolicy) : ExecutorPc := loopTest policy 1

def invokeHandler : HandlerResult → Bool
  | .returned handled => handled
  | .threw => false

/-- The attempts are counted by an `int`: `++attempt` wraps around at its end. -/
def afterFailure (policy : RetryPolicy) (attempt : Int32) : ExecutorPc :=
  if attempt < policy.effectiveMaxAttempts then .sleeping attempt else loopTest policy (attempt + 1)

def step (policy : RetryPolicy) (item : WorkItem) (stopRequested : Bool) (reg : PartitionRegistry) :
    ExecutorPc → Reply → Option (List ExecutorEvent × PartitionRegistry × ExecutorPc)
  | .stopCheck attempt, .none =>
    if stopRequested then some ([.sawStop], reg, .returned .abandoned)
    else some ([], reg, .currentCheck attempt)
  | .currentCheck attempt, .none =>
    if reg.isCurrent item.ticket then some ([], reg, .handling attempt)
    else some ([.sawStale], reg, .returned .abandoned)
  | .handling attempt, .handler r =>
    some ([.called item.payload item.metadata r], reg,
      if invokeHandler r then .finishing .succeeded else afterFailure policy attempt)
  | .sleeping attempt, .none =>
    if stopRequested then some ([.sawStop], reg, .returned .abandoned)
    else some ([], reg, loopTest policy (attempt + 1))
  | .deadLetterStopCheck, .none =>
    if stopRequested then some ([.sawStop], reg, .returned .abandoned)
    else some ([], reg, .deadLetterCurrentCheck)
  | .deadLetterCurrentCheck, .none =>
    if reg.isCurrent item.ticket then some ([], reg, .sending)
    else some ([.sawStale], reg, .returned .abandoned)
  | .sending, .sink r =>
    some ([.sent (deadLetterRecord policy item) r], reg,
      match r with
      | .returned (.ok ()) => .finishing .deadLettered
      | .returned (.error _) => .sendSleeping
      | .threw => .escaped)
  | .sendSleeping, .none =>
    if stopRequested then some ([.sawStop], reg, .returned .abandoned)
    else some ([], reg, .deadLetterStopCheck)
  | .finishing outcome, .none =>
    some ([.completed item.ticket (reg.complete item.ticket).1], (reg.complete item.ticket).2, .returned outcome)
  | _, _ => none

variable {policy : RetryPolicy} {item : WorkItem} {stop : Bool} {reg reg' : PartitionRegistry}
  {pc pc' : ExecutorPc} {reply : Reply} {events : List ExecutorEvent}

@[simp] theorem step_stopCheck (attempt : Int32) :
    step policy item stop reg (.stopCheck attempt) .none =
      if stop then some ([.sawStop], reg, .returned .abandoned)
      else some ([], reg, .currentCheck attempt) := rfl

@[simp] theorem step_currentCheck (attempt : Int32) :
    step policy item stop reg (.currentCheck attempt) .none =
      if reg.isCurrent item.ticket then some ([], reg, .handling attempt)
      else some ([.sawStale], reg, .returned .abandoned) := rfl

@[simp] theorem step_handling (attempt : Int32) (r : HandlerResult) :
    step policy item stop reg (.handling attempt) (.handler r) =
      some ([.called item.payload item.metadata r], reg,
        if invokeHandler r then .finishing .succeeded else afterFailure policy attempt) := rfl

@[simp] theorem step_sleeping (attempt : Int32) :
    step policy item stop reg (.sleeping attempt) .none =
      if stop then some ([.sawStop], reg, .returned .abandoned)
      else some ([], reg, loopTest policy (attempt + 1)) := rfl

@[simp] theorem step_deadLetterStopCheck :
    step policy item stop reg .deadLetterStopCheck .none =
      if stop then some ([.sawStop], reg, .returned .abandoned)
      else some ([], reg, .deadLetterCurrentCheck) := rfl

@[simp] theorem step_deadLetterCurrentCheck :
    step policy item stop reg .deadLetterCurrentCheck .none =
      if reg.isCurrent item.ticket then some ([], reg, .sending)
      else some ([.sawStale], reg, .returned .abandoned) := rfl

@[simp] theorem step_sending (r : SinkResult) :
    step policy item stop reg .sending (.sink r) =
      some ([.sent (deadLetterRecord policy item) r], reg,
        match r with
        | .returned (.ok ()) => .finishing .deadLettered
        | .returned (.error _) => .sendSleeping
        | .threw => .escaped) := rfl

@[simp] theorem step_sendSleeping :
    step policy item stop reg .sendSleeping .none =
      if stop then some ([.sawStop], reg, .returned .abandoned)
      else some ([], reg, .deadLetterStopCheck) := rfl

@[simp] theorem step_complete (outcome : RecordOutcome) :
    step policy item stop reg (.finishing outcome) .none =
      some ([.completed item.ticket (reg.complete item.ticket).1], (reg.complete item.ticket).2,
        .returned outcome) := rfl

@[simp] theorem loopTest_ended (policy : RetryPolicy) (attempt : Int32) :
    (loopTest policy attempt).ended = false := by
  unfold loopTest
  split_ifs <;> rfl

@[simp] theorem afterFailure_ended (policy : RetryPolicy) (attempt : Int32) :
    (afterFailure policy attempt).ended = false := by
  unfold afterFailure
  split_ifs
  · rfl
  · exact loopTest_ended policy _

theorem loopTest_ne_finishing (policy : RetryPolicy) (attempt : Int32) (o : RecordOutcome) :
    loopTest policy attempt ≠ .finishing o := by
  unfold loopTest
  split_ifs <;> simp

theorem afterFailure_ne_finishing (policy : RetryPolicy) (attempt : Int32) (o : RecordOutcome) :
    afterFailure policy attempt ≠ .finishing o := by
  unfold afterFailure
  split_ifs
  · exact ExecutorPc.noConfusion
  · exact loopTest_ne_finishing policy _ o

theorem step_cases (h : step policy item stop reg pc reply = some (events, reg', pc')) :
    (∃ o, pc = .finishing o ∧ pc' = .returned o ∧ reg' = (reg.complete item.ticket).2 ∧
        events = [.completed item.ticket (reg.complete item.ticket).1]) ∨
      reg' = reg ∧
        ((∃ a r, pc = .handling a ∧ events = [.called item.payload item.metadata r] ∧
            pc' = if invokeHandler r then .finishing .succeeded else afterFailure policy a) ∨
          (∃ r, pc = .sending ∧ reply = .sink r ∧ events = [.sent (deadLetterRecord policy item) r] ∧
            (pc' = .finishing .deadLettered ∧ r = .returned (.ok ()) ∨ pc' = .sendSleeping ∨
              pc' = .escaped ∧ r = .threw)) ∨
          (pc.ended = false ∧ (∀ t r, .completed t r ∉ events) ∧ (∀ o, pc' ≠ .finishing o) ∧
            (pc'.ended = true → stop = true ∨ reg.isCurrent item.ticket = false))) := by
  cases pc with
  | finishing o =>
    cases reply with
    | none =>
      obtain ⟨rfl, rfl, rfl⟩ := by simpa using h
      exact .inl ⟨o, rfl, rfl, rfl, rfl⟩
    | _ => cases h
  | handling a =>
    cases reply with
    | handler r =>
      obtain ⟨rfl, rfl, rfl⟩ := by simpa using h
      exact .inr ⟨rfl, .inl ⟨a, r, rfl, rfl, rfl⟩⟩
    | _ => cases h
  | sending =>
    cases reply with
    | sink r =>
      obtain ⟨rfl, rfl, rfl⟩ := by simpa using h
      refine .inr ⟨rfl, .inr (.inl ⟨r, rfl, rfl, rfl, ?_⟩)⟩
      cases r with
      | threw => exact .inr (.inr ⟨rfl, rfl⟩)
      | returned sent =>
        cases sent with
        | error e => exact .inr (.inl rfl)
        | ok u => exact .inl ⟨rfl, rfl⟩
    | _ => cases h
  | returned o => cases reply <;> cases h
  | escaped => cases reply <;> cases h
  | _ =>
    cases reply with
    | none =>
      simp only [step_stopCheck, step_currentCheck, step_sleeping, step_deadLetterStopCheck,
        step_deadLetterCurrentCheck, step_sendSleeping] at h
      split_ifs at h with hc
      all_goals
        obtain ⟨rfl, rfl, rfl⟩ := by simpa using h
        refine .inr ⟨rfl, .inr (.inr ⟨rfl, by simp, by simp [loopTest_ne_finishing], ?_⟩)⟩
        intro he
        first
          | exact .inl hc
          | exact .inr (by simpa using hc)
          | cases he
          | exact absurd he (by simp)
    | _ => cases h

theorem step_registry (h : step policy item stop reg pc reply = some (events, reg', pc')) :
    (reg' = reg ∧ ∀ t r, .completed t r ∉ events) ∨
      (reg' = (reg.complete item.ticket).2 ∧
        events = [.completed item.ticket (reg.complete item.ticket).1] ∧ ∃ o, pc = .finishing o) := by
  rcases step_cases h with
    ⟨o, rfl, -, rfl, rfl⟩ | ⟨rfl, ⟨a, r, -, rfl, -⟩ | ⟨r, -, -, rfl, -⟩ | ⟨-, hquiet, -⟩⟩
  · exact .inr ⟨rfl, rfl, o, rfl⟩
  · exact .inl ⟨rfl, by simp⟩
  · exact .inl ⟨rfl, by simp⟩
  · exact .inl ⟨rfl, hquiet⟩

theorem step_running (h : step policy item stop reg pc reply = some (events, reg', pc')) :
    pc.ended = false := by
  rcases step_cases h with ⟨o, rfl, -⟩ | ⟨-, ⟨a, r, rfl, -⟩ | ⟨r, rfl, -⟩ | ⟨hrunning, -⟩⟩
  · rfl
  · rfl
  · rfl
  · exact hrunning

theorem step_ended (h : step policy item stop reg pc reply = some (events, reg', pc'))
    (he : pc'.ended = true) :
    stop = true ∨ reg.isCurrent item.ticket = false ∨ reg' = (reg.complete item.ticket).2 ∨
      (pc = .sending ∧ reply = .sink .threw) := by
  rcases step_cases h with
    ⟨o, -, -, rfl, -⟩ | ⟨-, ⟨a, r, -, -, rfl⟩ | ⟨r, rfl, rfl, -, hsent⟩ | ⟨-, -, -, hended⟩⟩
  · exact .inr (.inr (.inl rfl))
  · split_ifs at he
    · cases he
    · simp at he
  · rcases hsent with ⟨rfl, -⟩ | rfl | ⟨-, rfl⟩
    · cases he
    · cases he
    · exact .inr (.inr (.inr ⟨rfl, rfl⟩))
  · exact (hended he).imp_right .inl

theorem step_finishing {o : RecordOutcome}
    (h : step policy item stop reg pc reply = some (events, reg', .finishing o)) :
    events = [.called item.payload item.metadata (.returned true)] ∨
      events = [.sent (deadLetterRecord policy item) (.returned (.ok ()))] := by
  rcases step_cases h with
    ⟨o, -, hreturned, -⟩ | ⟨-, ⟨a, r, -, rfl, hpc⟩ | ⟨r, -, -, rfl, hsent⟩ | ⟨-, -, hnot, -⟩⟩
  · cases hreturned
  · split_ifs at hpc with hr
    · cases r with
      | returned handled =>
        obtain rfl : handled = true := hr
        exact .inl rfl
      | threw => cases hr
    · exact absurd hpc.symm (afterFailure_ne_finishing policy a _)
  · rcases hsent with ⟨-, rfl⟩ | hsleep | ⟨hescaped, -⟩
    · exact .inr rfl
    · cases hsleep
    · cases hescaped
  · exact absurd rfl (hnot o)

end RecordExecutor

end LiquidPetProject.Messaging
