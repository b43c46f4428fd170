import LiquidPetProject.RecordExecutor

namespace LiquidPetProject.Messaging

open Transitions

namespace RetryPolicy

theorem effectiveMaxAttempts_eq (policy : RetryPolicy) :
    policy.effectiveMaxAttempts = if 1 ≤ policy.maxAttempts then policy.maxAttempts else 1 := rfl

theorem one_le_effectiveMaxAttempts (policy : RetryPolicy) : 1 ≤ policy.effectiveMaxAttempts.toInt := by
  rw [effectiveMaxAttempts_eq]
  split_ifs with h
  · exact Int32.le_iff_toInt_le.mp h
  · decide

theorem effectiveMaxAttempts_eq_maxValue (policy : RetryPolicy) :
    policy.effectiveMaxAttempts = Int32.maxValue ↔ policy.maxAttempts = Int32.maxValue := by
  rw [effectiveMaxAttempts_eq]
  split_ifs with h
  · rfl
  · constructor
    · intro h1
      exact absurd h1 (by decide)
    · intro hm
      rw [hm] at h
      exact absurd (by decide) h

theorem effectiveMaxAttempts_lt (policy : RetryPolicy) (h : policy.maxAttempts ≠ Int32.maxValue) :
    policy.effectiveMaxAttempts.toInt < Int32.maxValue.toInt := by
  have hle := Int32.toInt_le policy.effectiveMaxAttempts
  have hne : policy.effectiveMaxAttempts.toInt ≠ Int32.maxValue.toInt :=
    fun he => h (policy.effectiveMaxAttempts_eq_maxValue.mp (Int32.toInt_inj.mp he))
  omega

end RetryPolicy

theorem attempt_succ_toInt {a : Int32} (h : a.toInt < Int32.maxValue.toInt) :
    (a + 1).toInt = a.toInt + 1 := by
  have hlo := Int32.le_toInt a
  rw [Int32.toInt_maxValue] at h
  rw [Int32.toInt_add, Int32.toInt_one]
  apply Int.bmod_eq_of_le_mul_two
  all_goals omega

inductive LogEntry
  | executor (e : ExecutorEvent)
  | environment (c : RegistryCall)
  deriving DecidableEq, Repr

namespace LogEntry

def handlerResult : LogEntry → Option HandlerResult
  | executor (.called _ _ r) => some r
  | _ => none

def sinkResult : LogEntry → Option SinkResult
  | executor (.sent _ r) => some r
  | _ => none

def completion : LogEntry → Option RecordTicket
  | executor (.completed t _) => some t
  | _ => none

def abort : LogEntry → Option Unit
  | executor .sawStop => some ()
  | executor .sawStale => some ()
  | _ => none

def environmentCall : LogEntry → Option RegistryCall
  | environment c => some c
  | _ => none

def registryCall : LogEntry → Option RegistryCall
  | environment c => some c
  | executor (.completed t _) => some (.complete t)
  | _ => none

end LogEntry

structure Execution where
  registry : PartitionRegistry
  stopRequested : Bool := false
  pc : ExecutorPc
  log : List LogEntry := []

inductive ExecutionAction
  | proceed
  | handler (r : HandlerResult)
  | sink (sent : Except ErrorCode Unit)
  | requestStop
  | registry (c : RegistryCall)
  deriving DecidableEq, Repr

namespace Execution

def start (policy : RetryPolicy) (reg : PartitionRegistry) : Execution where
  registry := reg
  pc := RecordExecutor.start policy

def executorStep (policy : RetryPolicy) (item : WorkItem) (s : Execution) (reply : Reply) :
    Option Execution :=
  (RecordExecutor.step policy item s.stopRequested s.registry s.pc reply).map
    (fun (events, reg, pc) => { s with registry := reg, pc := pc, log := s.log ++ events.map .executor })

def step (policy : RetryPolicy) (item : WorkItem) (s : Execution) : ExecutionAction → Option Execution
  | .proceed => executorStep policy item s .none
  | .handler r => executorStep policy item s (.handler r)
  | .sink sent => executorStep policy item s (.sink (.returned sent))
  | .requestStop => some { s with stopRequested := true }
  | .registry c => some { s with registry := (s.registry.call c).2, log := s.log ++ [.environment c] }

def handlerResults (log : List LogEntry) : List HandlerResult := log.filterMap LogEntry.handlerResult

def sinkResults (log : List LogEntry) : List SinkResult := log.filterMap LogEntry.sinkResult

def completions (log : List LogEntry) : List RecordTicket := log.filterMap LogEntry.completion

def aborts (log : List LogEntry) : List Unit := log.filterMap LogEntry.abort

def environmentCalls (log : List LogEntry) : List RegistryCall := log.filterMap LogEntry.environmentCall

def registryCalls (log : List LogEntry) : List RegistryCall := log.filterMap LogEntry.registryCall

def Permitted (policy : RetryPolicy) (item : WorkItem) (before : List LogEntry) : ExecutorEvent → Prop
  | .called payload metadata _ =>
    payload = item.payload ∧ metadata = item.metadata ∧
      (handlerResults before).length < policy.effectiveMaxAttempts.toInt ∧
      .returned true ∉ handlerResults before ∧ aborts before = [] ∧ sinkResults before = []
  | .sent record _ =>
    record = RecordExecutor.deadLetterRecord policy item ∧
      (handlerResults before).length = policy.effectiveMaxAttempts.toInt ∧
      .returned true ∉ handlerResults before ∧ aborts before = [] ∧
      .returned (.ok ()) ∉ sinkResults before
  | .completed ticket r =>
    ticket = item.ticket ∧ completions before = [] ∧ aborts before = [] ∧
      (r = .ok .applied ∨ r = .ok .stale)
  | .sawStop => True
  | .sawStale => True

/-- The retry and dead-letter protocol of one call of `execute` that began with the registry `reg`. -/
structure FollowsProtocol (policy : RetryPolicy) (item : WorkItem) (reg : PartitionRegistry)
    (s : Execution) : Prop where
  permitted : Throughout (fun before entry => ∀ e, entry = .executor e → Permitted policy item before e) s.log
  attempts : (handlerResults s.log).length ≤ policy.effectiveMaxAttempts.toInt
  contained : s.pc ≠ .escaped
  succeeded : ∀ o, s.pc = .returned o →
    (o = .succeeded ↔ (handlerResults s.log).getLast? = some (.returned true))
  deadLettered : ∀ o, s.pc = .returned o →
    (o = .deadLettered ↔ (sinkResults s.log).getLast? = some (.returned (.ok ())))
  registry : s.registry = (trace PartitionRegistry.call reg (registryCalls s.log)).2
  untouched : s.pc = .returned .abandoned →
    s.registry = (trace PartitionRegistry.call reg (environmentCalls s.log)).2
  completed : ∀ o, s.pc = .returned o → o ≠ .abandoned →
    completions s.log = [item.ticket] ∧ s.registry.Settled item.ticket

structure Tally where
  handlers : List HandlerResult
  sends : List SinkResult
  completions : List RecordTicket
  aborts : List Unit

def tally (log : List LogEntry) : Tally :=
  ⟨handlerResults log, sinkResults log, completions log, aborts log⟩

theorem tally_append (a b : List LogEntry) : tally (a ++ b) =
    ⟨(tally a).handlers ++ (tally b).handlers, (tally a).sends ++ (tally b).sends,
      (tally a).completions ++ (tally b).completions, (tally a).aborts ++ (tally b).aborts⟩ := by
  simp only [tally, handlerResults, sinkResults, completions, aborts, List.filterMap_append]

@[simp] theorem tally_environment (log : List LogEntry) (c : RegistryCall) :
    tally (log ++ [.environment c]) = tally log := by
  have hentry : tally [.environment c] = ⟨[], [], [], []⟩ := rfl
  rw [tally_append, hentry]
  simp only [List.append_nil]

theorem tally_called (log : List LogEntry) (payload : String) (metadata : MessageMetadata)
    (r : HandlerResult) : tally (log ++ [.executor (.called payload metadata r)]) =
      { tally log with handlers := (tally log).handlers ++ [r] } := by
  have hentry : tally [.executor (.called payload metadata r)] = ⟨[r], [], [], []⟩ := rfl
  rw [tally_append, hentry]
  simp only [List.append_nil]

theorem tally_sent (log : List LogEntry) (record : DeadLetterRecord) (r : SinkResult) :
    tally (log ++ [.executor (.sent record r)]) =
      { tally log with sends := (tally log).sends ++ [r] } := by
  have hentry : tally [.executor (.sent record r)] = ⟨[], [r], [], []⟩ := rfl
  rw [tally_append, hentry]
  simp only [List.append_nil]

theorem tally_completed (log : List LogEntry) (t : RecordTicket) (r : Except ErrorCode CompletionResult) :
    tally (log ++ [.executor (.completed t r)]) =
      { tally log with completions := (tally log).completions ++ [t] } := by
  have hentry : tally [.executor (.completed t r)] = ⟨[], [], [t], []⟩ := rfl
  rw [tally_append, hentry]
  simp only [List.append_nil]

theorem tally_abort (log : List LogEntry) {e : ExecutorEvent} (he : e = .sawStop ∨ e = .sawStale) :
    tally (log ++ [.executor e]) = { tally log with aborts := (tally log).aborts ++ [()] } := by
  have hentry : tally [.executor e] = ⟨[], [], [], [()]⟩ := by
    rcases he with rfl | rfl
    all_goals rfl
  rw [tally_append, hentry]
  simp only [List.append_nil]

structure Failing (n : ℤ) (t : Tally) : Prop where
  attempts : t.handlers.length = n
  failed : .returned true ∉ t.handlers
  unsent : .returned (.ok ()) ∉ t.sends
  incomplete : t.completions = []
  running : t.aborts = []

def Resolved (policy : RetryPolicy) (t : Tally) : RecordOutcome → Prop
  | .succeeded => t.handlers.length ≤ policy.effectiveMaxAttempts.toInt ∧
      t.handlers.getLast? = some (.returned true) ∧ t.sends = []
  | .deadLettered => t.handlers.length ≤ policy.effectiveMaxAttempts.toInt ∧
      .returned true ∉ t.handlers ∧ t.sends.getLast? = some (.returned (.ok ()))
  | .abandoned => t.handlers.length ≤ policy.effectiveMaxAttempts.toInt ∧
      .returned true ∉ t.handlers ∧ .returned (.ok ()) ∉ t.sends

def AtPc (policy : RetryPolicy) (item : WorkItem) (t : Tally) : ExecutorPc → Prop
  | .stopCheck a => 1 ≤ a.toInt ∧ a.toInt ≤ policy.effectiveMaxAttempts.toInt ∧
      Failing (a.toInt - 1) t ∧ t.sends = []
  | .currentCheck a => 1 ≤ a.toInt ∧ a.toInt ≤ policy.effectiveMaxAttempts.toInt ∧
      Failing (a.toInt - 1) t ∧ t.sends = []
  | .handling a => 1 ≤ a.toInt ∧ a.toInt ≤ policy.effectiveMaxAttempts.toInt ∧
      Failing (a.toInt - 1) t ∧ t.sends = []
  | .sleeping a => 1 ≤ a.toInt ∧ a.toInt < policy.effectiveMaxAttempts.toInt ∧
      Failing a.toInt t ∧ t.sends = []
  | .deadLetterStopCheck => Failing policy.effectiveMaxAttempts.toInt t
  | .deadLetterCurrentCheck => Failing policy.effectiveMaxAttempts.toInt t
  | .sending => Failing policy.effectiveMaxAttempts.toInt t
  | .sendSleeping => Failing policy.effectiveMaxAttempts.toInt t
  | .finishing o => o ≠ .abandoned ∧ Resolved policy t o ∧ t.completions = [] ∧ t.aborts = []
  | .returned o => Resolved policy t o ∧ t.completions = if o = .abandoned then [] else [item.ticket]
  | .escaped => False

variable {policy : RetryPolicy} {item : WorkItem}

theorem Failing.abandoned {n : ℤ} {t : Tally} (h : Failing n t)
    (hn : n ≤ policy.effectiveMaxAttempts.toInt) (log : List LogEntry) (ht : tally log = t)
    {e : ExecutorEvent} (he : e = .sawStop ∨ e = .sawStale) :
    AtPc policy item (tally (log ++ [.executor e])) (.returned .abandoned) := by
  rw [tally_abort log he, ht]
  exact ⟨⟨h.attempts.trans_le hn, h.failed, h.unsent⟩, h.incomplete⟩

theorem loopTest_atPc {a : Int32} {t : Tally} (h1 : 1 ≤ a.toInt)
    (ha : a.toInt ≤ policy.effectiveMaxAttempts.toInt + 1) (h : Failing (a.toInt - 1) t)
    (hs : t.sends = []) : AtPc policy item t (RecordExecutor.loopTest policy a) := by
  unfold RecordExecutor.loopTest
  split_ifs with hle
  · exact ⟨h1, Int32.le_iff_toInt_le.mp hle, h, hs⟩
  · rw [Int32.le_iff_toInt_le] at hle
    obtain hm : a.toInt - 1 = policy.effectiveMaxAttempts.toInt := by omega
    rw [hm] at h
    exact h

theorem nextAttempt_atPc (hm : policy.maxAttempts ≠ Int32.maxValue) {a : Int32} {t : Tally}
    (h1 : 1 ≤ a.toInt) (ha : a.toInt ≤ policy.effectiveMaxAttempts.toInt) (h : Failing a.toInt t)
    (hs : t.sends = []) : AtPc policy item t (RecordExecutor.loopTest policy (a + 1)) := by
  have hlt := policy.effectiveMaxAttempts_lt hm
  have hsucc := attempt_succ_toInt (a := a) (by omega)
  apply loopTest_atPc
  · omega
  · omega
  · rw [hsucc, add_sub_cancel_right]
    exact h
  · exact hs

theorem check_step {c : Prop} [Decidable c] {reg reg' : PartitionRegistry} {pc pc' : ExecutorPc}
    {e : ExecutorEvent} {events : List ExecutorEvent} {log : List LogEntry} {n : ℤ}
    (h : (if c then some ([e], reg, .returned .abandoned) else some ([], reg, pc)) =
      some (events, reg', pc')) (he : e = .sawStop ∨ e = .sawStale) (hf : Failing n (tally log))
    (hn : n ≤ policy.effectiveMaxAttempts.toInt) (hpc : AtPc policy item (tally log) pc) :
    AtPc policy item (tally (log ++ events.map .executor)) pc' ∧
      (events = [] ∨ ∃ e, events = [e] ∧ Permitted policy item log e) := by
  split_ifs at h with hb
  · obtain ⟨rfl, rfl, rfl⟩ : [e] = events ∧ reg = reg' ∧ .returned .abandoned = pc' := by simpa using h
    refine ⟨hf.abandoned hn log rfl he, .inr ⟨e, rfl, ?_⟩⟩
    rcases he with rfl | rfl <;> trivial
  · obtain ⟨rfl, rfl, rfl⟩ : [] = events ∧ reg = reg' ∧ pc = pc' := by simpa using h
    rw [List.map_nil, List.append_nil]
    exact ⟨hpc, .inl rfl⟩

theorem handling_step (hm : policy.maxAttempts ≠ Int32.maxValue) {a : Int32} {log : List LogEntry}
    (hpc : AtPc policy item (tally log) (.handling a)) (r : HandlerResult) :
    AtPc policy item (tally (log ++ [.executor (.called item.payload item.metadata r)]))
        (if RecordExecutor.invokeHandler r then .finishing .succeeded
          else RecordExecutor.afterFailure policy a) ∧
      Permitted policy item log (.called item.payload item.metadata r) := by
  obtain ⟨h1, ha, hf, hs⟩ := hpc
  have hlen : ((tally log).handlers.length : ℤ) = a.toInt - 1 := hf.attempts
  constructor
  · rw [tally_called]
    split_ifs with hr
    · have hrt : r = .returned true := by
        cases r with
        | returned b => simpa [RecordExecutor.invokeHandler] using hr
        | threw => cases hr
      refine ⟨by simp, ⟨?_, by simp [hrt], hs⟩, hf.incomplete, hf.running⟩
      simp only [List.length_append, List.length_singleton, Nat.cast_add, Nat.cast_one]
      omega
    · have hrt : r ≠ .returned true := by
        rintro rfl
        exact hr rfl
      have hf' : Failing a.toInt { tally log with handlers := (tally log).handlers ++ [r] } := by
        refine ⟨?_, ?_, hf.unsent, hf.incomplete, hf.running⟩
        · simp only [List.length_append, List.length_singleton, Nat.cast_add, Nat.cast_one]
          omega
        · simpa [hf.failed] using Ne.symm hrt
      unfold RecordExecutor.afterFailure
      split_ifs with hlt
      · exact ⟨h1, Int32.lt_iff_toInt_lt.mp hlt, hf', hs⟩
      · exact nextAttempt_atPc hm h1 ha hf' hs
  · refine ⟨rfl, rfl, ?_, hf.failed, hf.running, hs⟩
    change ((tally log).handlers.length : ℤ) < _
    omega

theorem sending_step {log : List LogEntry} (hpc : Failing policy.effectiveMaxAttempts.toInt (tally log))
    (r : Except ErrorCode Unit) :
    AtPc policy item
        (tally (log ++ [.executor (.sent (RecordExecutor.deadLetterRecord policy item) (.returned r))]))
        (match r with
          | .ok () => .finishing .deadLettered
          | .error _ => .sendSleeping) ∧
      Permitted policy item log (.sent (RecordExecutor.deadLetterRecord policy item) (.returned r)) := by
  refine ⟨?_, rfl, hpc.attempts, hpc.failed, hpc.running, hpc.unsent⟩
  rw [tally_sent]
  cases r with
  | ok u =>
    refine ⟨by simp, ⟨hpc.attempts.le, hpc.failed, ?_⟩, hpc.incomplete, hpc.running⟩
    simp
  | error e =>
    refine ⟨hpc.attempts, hpc.failed, ?_, hpc.incomplete, hpc.running⟩
    simpa using hpc.unsent

theorem finishing_step {reg : PartitionRegistry} {log : List LogEntry} {o : RecordOutcome}
    (hv : reg.Valid) (hi : reg.Issued item.ticket) (hpc : AtPc policy item (tally log) (.finishing o)) :
    AtPc policy item (tally (log ++ [.executor (.completed item.ticket (reg.complete item.ticket).1)]))
        (.returned o) ∧
      Permitted policy item log (.completed item.ticket (reg.complete item.ticket).1) := by
  obtain ⟨ho, hres, hc, ha⟩ := hpc
  constructor
  · rw [tally_completed, hc]
    refine ⟨?_, by simp [ho]⟩
    cases o <;> exact hres
  · refine ⟨rfl, hc, ha, ?_⟩
    rw [(PartitionRegistry.complete_issued hv hi).1]
    cases reg.isCurrent item.ticket
    · exact .inr rfl
    · exact .inl rfl

theorem executor_step (hm : policy.maxAttempts ≠ Int32.maxValue) {stop : Bool}
    {reg reg' : PartitionRegistry} {pc pc' : ExecutorPc} {reply : Reply} {events : List ExecutorEvent}
    {log : List LogEntry} (hr : reply ≠ .sink .threw) (hv : reg.Valid) (hi : reg.Issued item.ticket)
    (hpc : AtPc policy item (tally log) pc)
    (h : RecordExecutor.step policy item stop reg pc reply = some (events, reg', pc')) :
    AtPc policy item (tally (log ++ events.map .executor)) pc' ∧
      (events = [] ∨ ∃ e, events = [e] ∧ Permitted policy item log e) := by
  cases pc with
  | stopCheck a =>
    obtain ⟨-, ha, hf, -⟩ := id hpc
    cases reply with
    | none => exact check_step h (.inl rfl) hf (by omega) hpc
    | _ => cases h
  | currentCheck a =>
    obtain ⟨-, ha, hf, -⟩ := id hpc
    cases reply with
    | none =>
      rw [RecordExecutor.step_currentCheck, ← ite_not] at h
      exact check_step h (.inr rfl) hf (by omega) hpc
    | _ => cases h
  | handling a =>
    cases reply with
    | handler r =>
      obtain ⟨hat, hp⟩ := handling_step hm hpc r
      obtain ⟨rfl, rfl, rfl⟩ := by simpa using h
      exact ⟨hat, .inr ⟨_, rfl, hp⟩⟩
    | _ => cases h
  | sleeping a =>
    obtain ⟨h1, ha, hf, hs⟩ := hpc
    cases reply with
    | none => exact check_step h (.inl rfl) hf ha.le (nextAttempt_atPc hm h1 ha.le hf hs)
    | _ => cases h
  | deadLetterStopCheck =>
    cases reply with
    | none => exact check_step h (.inl rfl) hpc le_rfl hpc
    | _ => cases h
  | deadLetterCurrentCheck =>
    cases reply with
    | none =>
      rw [RecordExecutor.step_deadLetterCurrentCheck, ← ite_not] at h
      exact check_step h (.inr rfl) hpc le_rfl hpc
    | _ => cases h
  | sending =>
    cases reply with
    | sink r =>
      cases r with
      | returned sent =>
        obtain ⟨hat, hp⟩ : AtPc policy item _ _ ∧ _ := sending_step hpc sent
        obtain ⟨rfl, rfl, rfl⟩ := by simpa using h
        cases sent <;> exact ⟨hat, .inr ⟨_, rfl, hp⟩⟩
      | threw => exact absurd rfl hr
    | _ => cases h
  | sendSleeping =>
    cases reply with
    | none => exact check_step h (.inl rfl) hpc le_rfl hpc
    | _ => cases h
  | finishing o =>
    cases reply with
    | none =>
      obtain ⟨hat, hp⟩ := finishing_step hv hi hpc
      obtain ⟨rfl, rfl, rfl⟩ := by simpa using h
      exact ⟨hat, .inr ⟨_, rfl, hp⟩⟩
    | _ => cases h
  | returned o => cases reply <;> cases h
  | escaped => cases reply <;> cases h

structure Invariant (policy : RetryPolicy) (item : WorkItem) (reg : PartitionRegistry)
    (s : Execution) : Prop where
  valid : s.registry.Valid
  issued : s.registry.Issued item.ticket
  place : AtPc policy item (tally s.log) s.pc
  permitted : Throughout (fun before entry => ∀ e, entry = .executor e → Permitted policy item before e) s.log
  registry : s.registry = (trace PartitionRegistry.call reg (registryCalls s.log)).2
  settled : completions s.log ≠ [] → s.registry.Settled item.ticket

theorem Invariant.start {reg : PartitionRegistry} (hv : reg.Valid) (hi : reg.Issued item.ticket) :
    Invariant policy item reg (start policy reg) := by
  refine ⟨hv, hi, ?_, Throughout.nil _, rfl, fun h => absurd rfl h⟩
  have h1 := policy.one_le_effectiveMaxAttempts
  apply loopTest_atPc
  · decide
  · rw [Int32.toInt_one]
    omega
  · constructor <;> simp [Execution.start, tally, handlerResults, sinkResults, completions, aborts]
  · rfl

theorem no_completion {events : List ExecutorEvent} (h : ∀ t r, .completed t r ∉ events) :
    registryCalls (events.map .executor) = [] ∧ completions (events.map .executor) = [] := by
  simp only [registryCalls, completions, List.filterMap_eq_nil_iff, List.mem_map, forall_exists_index,
    and_imp, forall_apply_eq_imp_iff₂]
  constructor
  all_goals
    intro e he
    cases e with
    | completed t r => exact absurd he (h t r)
    | _ => rfl

theorem registryCalls_append (a b : List LogEntry) :
    registryCalls (a ++ b) = registryCalls a ++ registryCalls b := List.filterMap_append

theorem completions_append (a b : List LogEntry) :
    completions (a ++ b) = completions a ++ completions b := List.filterMap_append

theorem Invariant.executor (hm : policy.maxAttempts ≠ Int32.maxValue) {reg : PartitionRegistry}
    {s t : Execution} {reply : Reply} (hr : reply ≠ .sink .threw) (hs : Invariant policy item reg s)
    (h : executorStep policy item s reply = some t) : Invariant policy item reg t := by
  obtain ⟨⟨events, reg', pc'⟩, hstep, rfl⟩ := Option.map_eq_some_iff.mp h
  obtain ⟨hat, hp⟩ := executor_step hm hr hs.valid hs.issued hs.place hstep
  have hperm : Throughout (fun before entry => ∀ e, entry = .executor e → Permitted policy item before e)
      (s.log ++ events.map .executor) := by
    rcases hp with rfl | ⟨e, rfl, hp⟩
    · simpa using hs.permitted
    · apply hs.permitted.concat
      rintro f hf
      obtain rfl := LogEntry.executor.inj hf
      exact hp
  rcases RecordExecutor.step_registry hstep with ⟨rfl, hnot⟩ | ⟨rfl, rfl, -⟩
  · obtain ⟨hcalls, hcomp⟩ := no_completion hnot
    refine ⟨hs.valid, hs.issued, hat, hperm, ?_, ?_⟩
    · rw [registryCalls_append, hcalls, List.append_nil]
      exact hs.registry
    · rw [completions_append, hcomp, List.append_nil]
      exact hs.settled
  · refine ⟨hs.valid.call (.complete item.ticket), hs.issued.call hs.valid (.complete item.ticket),
      hat, hperm, ?_, fun _ => (PartitionRegistry.complete_issued hs.valid hs.issued).2⟩
    rw [registryCalls_append, trace_append, ← hs.registry]
    rfl

theorem Invariant.environment {reg : PartitionRegistry} {s : Execution} (hs : Invariant policy item reg s)
    (c : RegistryCall) : Invariant policy item reg
      { s with registry := (s.registry.call c).2, log := s.log ++ [.environment c] } := by
  have hcomp : completions (s.log ++ [.environment c]) = completions s.log := by
    rw [completions_append]
    exact List.append_nil _
  refine ⟨hs.valid.call c, hs.issued.call hs.valid c, ?_, ?_, ?_, ?_⟩
  · rw [tally_environment]
    exact hs.place
  · apply hs.permitted.concat
    intro e he
    cases he
  · rw [registryCalls_append, trace_append, ← hs.registry]
    rfl
  · rw [hcomp]
    exact fun h => (hs.settled h).call hs.valid c

theorem Invariant.step (hm : policy.maxAttempts ≠ Int32.maxValue) {reg : PartitionRegistry}
    {s t : Execution} {a : ExecutionAction} (hs : Invariant policy item reg s)
    (h : step policy item s a = some t) : Invariant policy item reg t := by
  cases a with
  | proceed => exact hs.executor hm (by simp) h
  | handler r => exact hs.executor hm (by simp) h
  | sink sent => exact hs.executor hm (by simp) h
  | requestStop =>
    obtain rfl := Option.some.inj h
    exact ⟨hs.valid, hs.issued, hs.place, hs.permitted, hs.registry, hs.settled⟩
  | registry c =>
    obtain rfl := Option.some.inj h
    exact hs.environment c

theorem calls_of_incomplete {log : List LogEntry} (h : completions log = []) :
    registryCalls log = environmentCalls log := by
  apply List.filterMap_congr
  intro entry hmem
  cases entry with
  | environment c => rfl
  | executor e =>
    cases e with
    | completed t r => exact absurd rfl (List.filterMap_eq_nil_iff.mp h _ hmem ▸ Option.some_ne_none t)
    | _ => rfl

theorem Resolved.attempts {t : Tally} {o : RecordOutcome} (h : Resolved policy t o) :
    t.handlers.length ≤ policy.effectiveMaxAttempts.toInt := by
  cases o <;> exact h.1

theorem Resolved.succeeded_iff {t : Tally} {o : RecordOutcome} (h : Resolved policy t o) :
    o = .succeeded ↔ t.handlers.getLast? = some (.returned true) := by
  cases o with
  | succeeded => exact ⟨fun _ => h.2.1, fun _ => rfl⟩
  | deadLettered => exact ⟨(nomatch ·), fun hl => absurd (List.mem_of_getLast? hl) h.2.1⟩
  | abandoned => exact ⟨(nomatch ·), fun hl => absurd (List.mem_of_getLast? hl) h.2.1⟩

theorem Resolved.deadLettered_iff {t : Tally} {o : RecordOutcome} (h : Resolved policy t o) :
    o = .deadLettered ↔ t.sends.getLast? = some (.returned (.ok ())) := by
  cases o with
  | succeeded =>
    refine ⟨(nomatch ·), fun hl => ?_⟩
    rw [h.2.2] at hl
    cases hl
  | deadLettered => exact ⟨fun _ => h.2.2, fun _ => rfl⟩
  | abandoned => exact ⟨(nomatch ·), fun hl => absurd (List.mem_of_getLast? hl) h.2.2⟩

theorem AtPc.attempts {t : Tally} {pc : ExecutorPc} (h : AtPc policy item t pc) :
    t.handlers.length ≤ policy.effectiveMaxAttempts.toInt := by
  cases pc with
  | finishing o => exact h.2.1.attempts
  | returned o => exact h.1.attempts
  | escaped => exact h.elim
  | stopCheck a => rw [h.2.2.1.attempts]; have := h.2.1; omega
  | currentCheck a => rw [h.2.2.1.attempts]; have := h.2.1; omega
  | handling a => rw [h.2.2.1.attempts]; have := h.2.1; omega
  | sleeping a => rw [h.2.2.1.attempts]; exact h.2.1.le
  | _ => exact le_of_eq (Failing.attempts h)

theorem Invariant.followsProtocol {reg : PartitionRegistry} {s : Execution}
    (hs : Invariant policy item reg s) : FollowsProtocol policy item reg s := by
  have hplace := hs.place
  refine ⟨hs.permitted, hplace.attempts, ?_, ?_, ?_, hs.registry, ?_, ?_⟩
  · intro he
    rw [he] at hplace
    exact hplace
  · intro o he
    rw [he] at hplace
    exact hplace.1.succeeded_iff
  · intro o he
    rw [he] at hplace
    exact hplace.1.deadLettered_iff
  · intro he
    rw [he] at hplace
    rw [← calls_of_incomplete (hplace.2.trans (if_pos rfl))]
    exact hs.registry
  · intro o he ho
    rw [he] at hplace
    have hc : completions s.log = [item.ticket] := hplace.2.trans (if_neg ho)
    exact ⟨hc, hs.settled (by simp [hc])⟩

theorem run_followsProtocol (hm : policy.maxAttempts ≠ Int32.maxValue) {reg : PartitionRegistry}
    (hv : reg.Valid) (hi : reg.Issued item.ticket) {actions : List ExecutionAction} {s : Execution}
    (h : run (step policy item) (start policy reg) actions = some s) : FollowsProtocol policy item reg s :=
  (run_invariant (I := Invariant policy item reg) (fun _ _ _ hs hstep => hs.step hm hstep)
    (Invariant.start hv hi) h).followsProtocol

theorem loopTest_maxValue (hm : policy.maxAttempts = Int32.maxValue) (a : Int32) :
    RecordExecutor.loopTest policy a = .stopCheck a := by
  apply if_pos
  rw [policy.effectiveMaxAttempts_eq_maxValue.mpr hm, Int32.le_iff_toInt_le]
  exact Int32.toInt_le a

structure Retrying (item : WorkItem) (n : ℕ) (s : Execution) : Prop where
  place : ∃ a, s.pc = .stopCheck a
  running : s.stopRequested = false
  current : s.registry.isCurrent item.ticket = true
  attempts : (handlerResults s.log).length = n

theorem Retrying.attempt (hm : policy.maxAttempts = Int32.maxValue) {n : ℕ} {s : Execution}
    (h : Retrying item n s) :
    ∃ actions t, run (step policy item) s actions = some t ∧ Retrying item (n + 1) t := by
  obtain ⟨reg, stop, pc, log⟩ := s
  obtain ⟨⟨a, rfl⟩, rfl, hcur, hlen⟩ := h
  dsimp only at hcur hlen
  let log' := log ++ [.executor (.called item.payload item.metadata (.returned false))]
  have hnext : Retrying item (n + 1) ⟨reg, false, .stopCheck (a + 1), log'⟩ := by
    refine ⟨⟨a + 1, rfl⟩, rfl, hcur, ?_⟩
    simp [log', handlerResults, LogEntry.handlerResult, ← hlen]
  by_cases hlt : a < policy.effectiveMaxAttempts
  · refine ⟨[.proceed, .proceed, .handler (.returned false), .proceed], _, ?_, hnext⟩
    simp [log', step, executorStep, RecordExecutor.invokeHandler,
      RecordExecutor.afterFailure, hcur, hlt, loopTest_maxValue hm]
  · refine ⟨[.proceed, .proceed, .handler (.returned false)], _, ?_, hnext⟩
    simp [log', step, executorStep, RecordExecutor.invokeHandler,
      RecordExecutor.afterFailure, hcur, hlt, loopTest_maxValue hm]

theorem retrying_forever (hm : policy.maxAttempts = Int32.maxValue) {reg : PartitionRegistry}
    (hcur : reg.isCurrent item.ticket = true) (n : ℕ) :
    ∃ actions s, run (step policy item) (start policy reg) actions = some s ∧ Retrying item n s := by
  induction n with
  | zero =>
    refine ⟨[], start policy reg, rfl, ⟨1, ?_⟩, rfl, hcur, rfl⟩
    exact loopTest_maxValue hm 1
  | succ n ih =>
    obtain ⟨as, s, hs, hr⟩ := ih
    obtain ⟨bs, t, ht, hr'⟩ := hr.attempt hm
    exact ⟨as ++ bs, t, by rw [run_append, hs]; exact ht, hr'⟩

def firstRecordCalls : List RegistryCall := [.assign [⟨"orders", 0⟩], .registerRecord ⟨"orders", 0⟩ 0]

def firstRecord : WorkItem where
  ticket := ⟨⟨"orders", 0⟩, 0, 1⟩
  payload := "{}"
  metadata := ⟨⟨"550e8400-e29b-41d4-a716-446655440010", by decide, by decide⟩, "OrderCreated"⟩

theorem firstRecord_issued :
    .ticket (.ok firstRecord.ticket) ∈ (trace PartitionRegistry.call {} firstRecordCalls).1 := by
  decide

theorem firstRecord_current :
    (trace PartitionRegistry.call {} firstRecordCalls).2.isCurrent firstRecord.ticket = true := by
  decide

theorem overlong_run (hm : policy.maxAttempts = Int32.maxValue) :
    ∃ actions s, run (step policy firstRecord)
        (start policy (trace PartitionRegistry.call {} firstRecordCalls).2) actions = some s ∧
      policy.effectiveMaxAttempts.toInt < (handlerResults s.log).length := by
  obtain ⟨actions, s, hs, hr⟩ := retrying_forever hm firstRecord_current (2 ^ 31)
  refine ⟨actions, s, hs, ?_⟩
  rw [hr.attempts, policy.effectiveMaxAttempts_eq_maxValue.mpr hm, Int32.toInt_maxValue]
  norm_num

/-- Every execution of an issued ticket follows the protocol, unless the bound on the attempts is the
largest `int`: the loop over the attempts then never ends. -/
theorem execute_followsProtocol_iff (policy : RetryPolicy) :
    (∀ item calls actions s,
      .ticket (.ok item.ticket) ∈ (trace PartitionRegistry.call {} calls).1 →
      run (step policy item) (start policy (trace PartitionRegistry.call {} calls).2) actions = some s →
      FollowsProtocol policy item (trace PartitionRegistry.call {} calls).2 s) ↔
    policy.maxAttempts ≠ Int32.maxValue := by
  constructor
  · intro h hm
    obtain ⟨actions, s, hs, hlt⟩ := overlong_run hm
    have hle := (h firstRecord firstRecordCalls actions s firstRecord_issued hs).attempts
    omega
  · intro hm item calls actions s hi hs
    exact run_followsProtocol hm (PartitionRegistry.Valid.trace calls)
      (PartitionRegistry.trace_issued PartitionRegistry.Valid.empty hi) hs

theorem execute_exceeds_maxValue_attempts :
    ∃ item calls actions s, .ticket (.ok item.ticket) ∈ (trace PartitionRegistry.call {} calls).1 ∧
      run (step ⟨Int32.maxValue⟩ item) (start ⟨Int32.maxValue⟩ (trace PartitionRegistry.call {} calls).2)
        actions = some s ∧
      (RetryPolicy.mk Int32.maxValue).effectiveMaxAttempts.toInt < (handlerResults s.log).length := by
  obtain ⟨actions, s, hs, hlt⟩ := @overlong_run ⟨Int32.maxValue⟩ rfl
  exact ⟨firstRecord, firstRecordCalls, actions, s, firstRecord_issued, hs, hlt⟩

end Execution

end LiquidPetProject.Messaging
