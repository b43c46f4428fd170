import LiquidPetProject.OrderReservationHandler
import LiquidPetProject.Transitions

namespace LiquidPetProject.OrderReservationHandler

open FixedWidth Models Repository Events Messaging Outbox JsonHelper Transitions

variable {π : Type}

inductive DeliveryEvent (π : Type)
  | began (call : ℕ) (eventId : OutboxEventId) (payload : π)
  | processed (call : ℕ) (event : OrderCreatedEvent)
  | recorded (call : ℕ) (eventId : OutboxEventId) (result : Except ErrorCode Bool)

structure WorkerService (π : Type) where
  database : WorkerDatabase π
  calls : List ReservationCall
  history : List (DeliveryEvent π)

/-- A delivery begins a call, at any time and with any payload; `process` may also throw. -/
inductive DeliveryAction (π : Type)
  | deliver (payload : π) (metadata : MessageMetadata)
  | process (i : ℕ) (result : Except ErrorCode Unit)
  | processThrows (i : ℕ)
  | record (i : ℕ) (rowId : OutboxEventId) (createdAt : ℤ) (outcome : CommitOutcome)

def recordAnswer (codec : Codec π) (db : WorkerDatabase π) (call : ReservationCall) (event : OrderCreatedEvent)
    (rowId : OutboxEventId) (createdAt : ℤ) (outcome : CommitOutcome) : Option (Except ErrorCode Bool) :=
  (codec.store (OrderReservedEventJsonMapper.toJson ⟨event.orderId⟩)).map (fun payload =>
    (db.recordReservationIfNew (reservationRecord call event payload) rowId createdAt outcome).2)

namespace WorkerService

def start (database : WorkerDatabase π) : WorkerService π := ⟨database, [], []⟩

def setCall (s : WorkerService π) (i : ℕ) (call : ReservationCall) (events : List (DeliveryEvent π)) :
    WorkerService π :=
  { s with calls := s.calls.set i call, history := s.history ++ events }

def step (codec : Codec π) (s : WorkerService π) : DeliveryAction π → Option (WorkerService π)
  | .deliver payload metadata => some { s with
      calls := s.calls ++ [⟨metadata, beginCall codec payload⟩]
      history := s.history ++ [.began s.calls.length metadata.eventId payload] }
  | .process i result =>
    match s.calls[i]? with
    | some ⟨metadata, .processing event⟩ =>
      some (s.setCall i ⟨metadata, afterProcess event result⟩ [.processed i event])
    | _ => none
  | .processThrows i =>
    match s.calls[i]? with
    | some ⟨metadata, .processing event⟩ => some (s.setCall i ⟨metadata, .threw⟩ [.processed i event])
    | _ => none
  | .record i rowId createdAt outcome =>
    match s.calls[i]? with
    | some ⟨metadata, .recording event⟩ =>
      let call : ReservationCall := ⟨metadata, .recording event⟩
      let answer := record codec s.database call event rowId createdAt outcome
      some { s.setCall i ⟨metadata, answer.2⟩
          ((recordAnswer codec s.database call event rowId createdAt outcome).toList.map
            (.recorded i metadata.eventId)) with
        database := answer.1 }
    | _ => none

end WorkerService

def DeliveryEvent.reserves : DeliveryEvent π → Option Uuid
  | .recorded _ eventId (.ok true) => some (Uuid.ofId eventId)
  | _ => none

def DeliveryEvent.processes (i : ℕ) : DeliveryEvent π → Bool
  | .processed j _ => j = i
  | _ => false

def reservedKeys (history : List (DeliveryEvent π)) : List Uuid := history.filterMap DeliveryEvent.reserves

def processings (i : ℕ) (history : List (DeliveryEvent π)) : ℕ := history.countP (DeliveryEvent.processes i)

def StartedNew (i : ℕ) (history : List (DeliveryEvent π)) : Prop :=
  Throughout (fun before e => ∀ eventId payload, e = .began i eventId payload →
    Uuid.ofId eventId ∉ reservedKeys before) history

def Idempotent (history : List (DeliveryEvent π)) : Prop :=
  Throughout (fun before e => ∀ i event, e = .processed i event → StartedNew i before) history

def ProcessesFirst (codec : Codec π) (history : List (DeliveryEvent π)) : Prop :=
  Throughout (fun before e =>
    (∀ i event, e = .processed i event → processings i before = 0 ∧
      ∃ eventId payload, .began i eventId payload ∈ before ∧ createdEvent codec payload = some event) ∧
    ∀ i eventId result, e = .recorded i eventId result →
      ∃ payload event, .began i eventId payload ∈ before ∧ createdEvent codec payload = some event ∧
        .processed i event ∈ before) history

def Grown (before after : WorkerDatabase π) : Prop :=
  ∃ ids rows, after.processed = before.processed ++ ids ∧ after.outbox.rows = before.outbox.rows ++ rows ∧
    rows.length = ids.length ∧ (∀ row ∈ rows, row.eventType = "OrderReserved") ∧ (ids.map Uuid.ofId).Nodup ∧
    ∀ id ∈ ids, ¬ before.knows id

/-- What is delivered was not recorded before, or it is no order that could be processed. -/
def newOrMalformed (codec : Codec π) (s : WorkerService π) : DeliveryAction π → Bool
  | .deliver payload metadata =>
    decide (Uuid.ofId metadata.eventId ∉ reservedKeys s.history) || (createdEvent codec payload).isNone
  | _ => true

variable {codec : Codec π} {s s' : WorkerService π}

theorem afterProcess_cases (event : OrderCreatedEvent) (result : Except ErrorCode Unit) :
    afterProcess event result = .returned false ∨ afterProcess event result = .recording event := by
  cases result with
  | error e => exact .inl rfl
  | ok done => exact .inr rfl

inductive Delivers (codec : Codec π) (s : WorkerService π) : DeliveryAction π → WorkerService π → Prop
  | deliver {payload metadata} : Delivers codec s (.deliver payload metadata)
      { s with
        calls := s.calls ++ [⟨metadata, beginCall codec payload⟩]
        history := s.history ++ [.began s.calls.length metadata.eventId payload] }
  | process {i a metadata event pc} (ha : ∀ j rowId createdAt outcome, a ≠ .record j rowId createdAt outcome)
      (hcall : s.calls[i]? = some ⟨metadata, .processing event⟩) (hprocessing : ∀ e, pc ≠ .processing e)
      (hrecording : ∀ e, pc = .recording e → e = event) :
      Delivers codec s a (s.setCall i ⟨metadata, pc⟩ [.processed i event])
  | record {i rowId createdAt outcome metadata event pc} (hcall : s.calls[i]? = some ⟨metadata, .recording event⟩)
      (hprocessing : ∀ e, pc ≠ .processing e) (hrecording : ∀ e, pc ≠ .recording e) :
      Delivers codec s (.record i rowId createdAt outcome)
        { s.setCall i ⟨metadata, pc⟩
            ((recordAnswer codec s.database ⟨metadata, .recording event⟩ event rowId createdAt outcome).toList.map
              (.recorded i metadata.eventId)) with
          database := (record codec s.database ⟨metadata, .recording event⟩ event rowId createdAt outcome).1 }

theorem step_delivers {a : DeliveryAction π} (h : s.step codec a = some s') : Delivers codec s a s' := by
  cases a with
  | deliver payload metadata =>
    obtain rfl := Option.some.inj h
    exact .deliver
  | process i result =>
    simp only [WorkerService.step] at h
    split at h
    · rename_i metadata event hcall
      obtain rfl := Option.some.inj h
      rcases afterProcess_cases event result with hpc | hpc
      · exact .process (by simp) hcall (by simp [hpc]) (by simp [hpc])
      · exact .process (by simp) hcall (by simp [hpc]) (by simp [hpc])
    · cases h
  | processThrows i =>
    simp only [WorkerService.step] at h
    split at h
    · rename_i metadata event hcall
      obtain rfl := Option.some.inj h
      exact .process (by simp) hcall (by simp) (by simp)
    · cases h
  | record i rowId createdAt outcome =>
    simp only [WorkerService.step] at h
    split at h
    · rename_i metadata event hcall
      obtain rfl := Option.some.inj h
      rcases record_returns codec s.database ⟨metadata, .recording event⟩ event rowId createdAt outcome with
        hpc | ⟨handled, hpc⟩
      · exact .record hcall (by simp [hpc]) (by simp [hpc])
      · exact .record hcall (by simp [hpc]) (by simp [hpc])
    · cases h

theorem began_notMem_answer {answer : Option (Except ErrorCode Bool)} {i j : ℕ} {key eventId : OutboxEventId} {payload : π} :
    (.began j eventId payload : DeliveryEvent π) ∉ answer.toList.map (.recorded i key) := by
  intro hmem
  obtain ⟨result, -, heq⟩ := List.mem_map.mp hmem
  cases heq

structure Processes (s : WorkerService π) : Prop where
  begun : ∀ i eventId payload, .began i eventId payload ∈ s.history → i < s.calls.length
  startedNew : ∀ i call event, s.calls[i]? = some call → call.pc = .processing event → StartedNew i s.history
  idempotent : Idempotent s.history

theorem StartedNew.concat_other {i : ℕ} {history : List (DeliveryEvent π)} (h : StartedNew i history)
    {e : DeliveryEvent π} (he : ∀ eventId payload, e ≠ .began i eventId payload) :
    StartedNew i (history ++ [e]) := by
  apply Throughout.concat h
  intro eventId payload hb
  exact absurd hb (he eventId payload)

theorem StartedNew.of_not_began {i : ℕ} {history : List (DeliveryEvent π)}
    (h : ∀ eventId payload, .began i eventId payload ∉ history) : StartedNew i history := by
  rintro before e after hsplit eventId payload rfl
  refine absurd ?_ (h eventId payload)
  simp [hsplit]

theorem Processes.setCall (h : Processes s) {i : ℕ} {metadata : MessageMetadata} {pc : ReservationPc}
    (hpc : ∀ event, pc ≠ .processing event) {database : WorkerDatabase π} {events : List (DeliveryEvent π)}
    (hbegan : ∀ j eventId payload, .began j eventId payload ∉ events)
    (hnew : ∀ j, StartedNew j s.history → StartedNew j (s.history ++ events))
    (hidem : Idempotent (s.history ++ events)) :
    Processes { s.setCall i ⟨metadata, pc⟩ events with database := database } := by
  refine ⟨?_, ?_, hidem⟩
  · intro j eventId payload hm
    rcases List.mem_append.mp hm with hm | hm
    · have := h.begun j eventId payload hm
      simpa [WorkerService.setCall] using this
    · exact absurd hm (hbegan j eventId payload)
  · intro j call event hcall hprocessing
    rcases getElem?_set_some hcall with ⟨-, rfl⟩ | ⟨-, hold⟩
    · exact absurd hprocessing (hpc event)
    · exact hnew j (h.startedNew j call event hold hprocessing)

theorem Processes.deliver (h : Processes s) {payload : π} {metadata : MessageMetadata}
    (hnew : newOrMalformed codec s (.deliver payload metadata) = true) :
    Processes { s with
      calls := s.calls ++ [⟨metadata, beginCall codec payload⟩]
      history := s.history ++ [.began s.calls.length metadata.eventId payload] } := by
  refine ⟨?_, ?_, ?_⟩
  · intro i eventId payload' hm
    simp only [List.length_append, List.length_singleton]
    rcases List.mem_append.mp hm with hm | hm
    · have := h.begun i eventId payload' hm
      omega
    · obtain ⟨rfl, -, -⟩ := DeliveryEvent.began.inj (List.mem_singleton.mp hm)
      omega
  · intro i call event hcall hprocessing
    rcases getElem?_concat_some hcall with hold | ⟨rfl, rfl⟩
    · apply (h.startedNew i call event hold hprocessing).concat_other
      intro eventId payload' he
      have hlt := (List.getElem?_eq_some_iff.mp hold).1
      obtain ⟨hi, -, -⟩ := DeliveryEvent.began.inj he
      omega
    · have hevent := beginCall_event hprocessing
      have hfresh : Uuid.ofId metadata.eventId ∉ reservedKeys s.history := by
        simpa [newOrMalformed, hevent] using hnew
      apply Throughout.concat
      · apply StartedNew.of_not_began
        intro eventId payload' hm
        have := h.begun _ eventId payload' hm
        omega
      · intro eventId payload' he
        obtain ⟨-, rfl, -⟩ := DeliveryEvent.began.inj he
        exact hfresh
  · apply Throughout.concat h.idempotent
    intro i event he
    cases he

theorem Processes.step {action : DeliveryAction π} (h : Processes s)
    (hnew : newOrMalformed codec s action = true) (hstep : s.step codec action = some s') : Processes s' := by
  cases step_delivers hstep with
  | deliver => exact h.deliver hnew
  | process ha hcall hprocessing hrecording =>
    apply h.setCall hprocessing
    · simp
    · intro j hj
      exact hj.concat_other (by simp)
    · apply Throughout.concat h.idempotent
      rintro j event' he
      obtain ⟨rfl, -⟩ := DeliveryEvent.processed.inj he
      exact h.startedNew _ _ _ hcall rfl
  | @record i rowId createdAt outcome metadata event pc hcall hprocessing hrecording =>
    apply h.setCall hprocessing
    · exact fun j eventId payload => began_notMem_answer
    · intro j hj
      cases recordAnswer codec s.database ⟨metadata, .recording event⟩ event rowId createdAt outcome with
      | none => simpa using hj
      | some result => exact hj.concat_other (by simp)
    · cases recordAnswer codec s.database ⟨metadata, .recording event⟩ event rowId createdAt outcome with
      | none => simpa using h.idempotent
      | some result =>
        apply Throughout.concat h.idempotent
        intro j event' he
        cases he

theorem Processes.start (database : WorkerDatabase π) : Processes (WorkerService.start database) := by
  refine ⟨?_, ?_, Throughout.nil _⟩
  · intro i eventId payload hm
    cases hm
  · intro i call event hcall
    simp [WorkerService.start] at hcall

structure InOrder (codec : Codec π) (s : WorkerService π) : Prop where
  began : ∀ i call, s.calls[i]? = some call → ∃ payload, .began i call.metadata.eventId payload ∈ s.history ∧
    ∀ event, call.pc = .processing event ∨ call.pc = .recording event → createdEvent codec payload = some event
  unprocessed : ∀ i call event, s.calls[i]? = some call → call.pc = .processing event → processings i s.history = 0
  processed : ∀ i call event, s.calls[i]? = some call → call.pc = .recording event → .processed i event ∈ s.history
  unseen : ∀ i, s.calls.length ≤ i → processings i s.history = 0
  processesFirst : ProcessesFirst codec s.history

theorem processings_append (i : ℕ) (before after : List (DeliveryEvent π)) :
    processings i (before ++ after) = processings i before + processings i after :=
  List.countP_append

theorem processings_answer (answer : Option (Except ErrorCode Bool)) (i j : ℕ) (eventId : OutboxEventId) :
    processings j (answer.toList.map (.recorded i eventId) : List (DeliveryEvent π)) = 0 := by
  cases answer <;> rfl

theorem processings_other {i j : ℕ} (hij : j ≠ i) (event : OrderCreatedEvent) :
    processings j [(.processed i event : DeliveryEvent π)] = 0 := by
  simp [processings, DeliveryEvent.processes, hij.symm]

theorem InOrder.deliver (h : InOrder codec s) (payload : π) (metadata : MessageMetadata) :
    InOrder codec { s with
      calls := s.calls ++ [⟨metadata, beginCall codec payload⟩]
      history := s.history ++ [.began s.calls.length metadata.eventId payload] } := by
  have hsame (i : ℕ) :
      processings i (s.history ++ [.began s.calls.length metadata.eventId payload]) = processings i s.history := by
    rw [processings_append]
    rfl
  refine ⟨?_, ?_, ?_, ?_, ?_⟩
  · intro i call hcall
    rcases getElem?_concat_some hcall with hold | ⟨rfl, rfl⟩
    · obtain ⟨delivered, hbegan, hevent⟩ := h.began i call hold
      exact ⟨delivered, List.mem_append_left _ hbegan, hevent⟩
    · refine ⟨payload, List.mem_append_right _ (List.mem_singleton_self _), ?_⟩
      rintro event (hpc | hpc)
      · exact beginCall_event hpc
      · exact absurd hpc beginCall_not_recording
  · intro i call event hcall hpc
    rw [hsame]
    rcases getElem?_concat_some hcall with hold | ⟨rfl, rfl⟩
    · exact h.unprocessed i call event hold hpc
    · exact h.unseen _ (Nat.le_refl _)
  · intro i call event hcall hpc
    rcases getElem?_concat_some hcall with hold | ⟨rfl, rfl⟩
    · exact List.mem_append_left _ (h.processed i call event hold hpc)
    · exact absurd hpc beginCall_not_recording
  · intro i hi
    rw [List.length_append, List.length_singleton] at hi
    rw [hsame]
    exact h.unseen i (by omega)
  · apply Throughout.concat h.processesFirst
    exact ⟨fun i event he => (nomatch he), fun i eventId result he => (nomatch he)⟩

theorem InOrder.setCall (h : InOrder codec s) {i : ℕ} {metadata : MessageMetadata} {pc : ReservationPc}
    {old : ReservationCall} (hcall : s.calls[i]? = some old) (hmetadata : old.metadata = metadata)
    {database : WorkerDatabase π} {events : List (DeliveryEvent π)} (hprocessing : ∀ e, pc ≠ .processing e)
    (hrecording : ∀ e, pc = .recording e → old.pc = .processing e ∧ .processed i e ∈ events)
    (hothers : ∀ j, j ≠ i → processings j events = 0) (hfirst : ProcessesFirst codec (s.history ++ events)) :
    InOrder codec { s.setCall i ⟨metadata, pc⟩ events with database := database } := by
  have hlt := (List.getElem?_eq_some_iff.mp hcall).1
  have hsame (j : ℕ) (hj : j ≠ i) : processings j (s.history ++ events) = processings j s.history := by
    rw [processings_append, hothers j hj, Nat.add_zero]
  refine ⟨?_, ?_, ?_, ?_, hfirst⟩
  · intro j call hfound
    rcases getElem?_set_some hfound with ⟨rfl, rfl⟩ | ⟨-, hold⟩
    · obtain ⟨payload, hbegan, hevent⟩ := h.began j old hcall
      rw [hmetadata] at hbegan
      refine ⟨payload, List.mem_append_left _ hbegan, ?_⟩
      rintro event (hpc | hpc)
      · exact absurd hpc (hprocessing event)
      · exact hevent event (.inl (hrecording event hpc).1)
    · obtain ⟨payload, hbegan, hevent⟩ := h.began j call hold
      exact ⟨payload, List.mem_append_left _ hbegan, hevent⟩
  · intro j call event hfound hpc
    rcases getElem?_set_some hfound with ⟨-, rfl⟩ | ⟨hj, hold⟩
    · exact absurd hpc (hprocessing event)
    · exact (hsame j hj).trans (h.unprocessed j call event hold hpc)
  · intro j call event hfound hpc
    rcases getElem?_set_some hfound with ⟨rfl, rfl⟩ | ⟨-, hold⟩
    · exact List.mem_append_right _ (hrecording event hpc).2
    · exact List.mem_append_left _ (h.processed j call event hold hpc)
  · intro j hj
    have hlength : s.calls.length ≤ j := by
      simpa [WorkerService.setCall] using hj
    exact (hsame j (by omega)).trans (h.unseen j hlength)

theorem InOrder.step {action : DeliveryAction π} (h : InOrder codec s) (hstep : s.step codec action = some s') :
    InOrder codec s' := by
  cases step_delivers hstep with
  | deliver => exact h.deliver _ _
  | @process i _ metadata event pc ha hcall hprocessing hrecording =>
    apply h.setCall hcall rfl hprocessing
    · intro e hpc
      obtain rfl := hrecording e hpc
      exact ⟨rfl, List.mem_singleton_self _⟩
    · exact fun j hj => processings_other hj event
    · apply Throughout.concat h.processesFirst
      refine ⟨?_, fun j eventId result he => (nomatch he)⟩
      intro j event' he
      obtain ⟨rfl, rfl⟩ := DeliveryEvent.processed.inj he
      obtain ⟨payload, hbegan, hevent⟩ := h.began _ _ hcall
      exact ⟨h.unprocessed _ _ _ hcall rfl, metadata.eventId, payload, hbegan, hevent _ (.inl rfl)⟩
  | @record i rowId createdAt outcome metadata event pc hcall hprocessing hrecording =>
    apply h.setCall hcall rfl hprocessing
    · exact fun e hpc => absurd hpc (hrecording e)
    · exact fun j _ => processings_answer _ i j _
    · cases recordAnswer codec s.database ⟨metadata, .recording event⟩ event rowId createdAt outcome with
      | none => simpa using h.processesFirst
      | some result =>
        apply Throughout.concat h.processesFirst
        refine ⟨fun j event' he => (nomatch he), ?_⟩
        intro j eventId result' he
        obtain ⟨rfl, rfl, -⟩ := DeliveryEvent.recorded.inj he
        obtain ⟨payload, hbegan, hevent⟩ := h.began _ _ hcall
        exact ⟨payload, event, hbegan, hevent event (.inr rfl), h.processed _ _ _ hcall rfl⟩

theorem InOrder.start (database : WorkerDatabase π) : InOrder codec (WorkerService.start database) := by
  have hnone (i : ℕ) (call : ReservationCall) : (WorkerService.start database).calls[i]? ≠ some call := by
    simp [WorkerService.start]
  refine ⟨?_, ?_, ?_, fun _ _ => rfl, Throughout.nil _⟩
  · exact fun i call hcall => absurd hcall (hnone i call)
  · exact fun i call event hcall => absurd hcall (hnone i call)
  · exact fun i call event hcall => absurd hcall (hnone i call)

theorem record_spec (codec : Codec π) (db : WorkerDatabase π) (call : ReservationCall) (event : OrderCreatedEvent)
    (rowId : OutboxEventId) (createdAt : ℤ) (outcome : CommitOutcome) :
    (record codec db call event rowId createdAt outcome).1 = db ∧
        recordAnswer codec db call event rowId createdAt outcome ≠ some (.ok true) ∨
      ¬ db.knows call.metadata.eventId ∧ ∃ payload, (record codec db call event rowId createdAt outcome).1 =
        db.insertReservation (reservationRecord call event payload) rowId createdAt := by
  unfold record recordAnswer
  cases codec.store (OrderReservedEventJsonMapper.toJson ⟨event.orderId⟩) with
  | none => exact .inl ⟨rfl, by simp⟩
  | some payload =>
    simp only [Option.map_some, Option.some.injEq, ne_eq]
    unfold WorkerDatabase.recordReservationIfNew
    cases outcome with
    | failed e => exact .inl ⟨rfl, by simp⟩
    | committed | inDoubt e =>
      dsimp only
      split_ifs with hknown hrow
      · exact .inl ⟨rfl, by simp⟩
      · exact .inl ⟨rfl, by simp⟩
      · exact .inr ⟨hknown, payload, rfl⟩

theorem Grown.refl (db : WorkerDatabase π) : Grown db db := by
  refine ⟨[], [], (List.append_nil _).symm, (List.append_nil _).symm, rfl, ?_, List.nodup_nil, ?_⟩
  · exact fun row hrow => by cases hrow
  · exact fun id hid => by cases hid

theorem Grown.insert {before after : WorkerDatabase π} (h : Grown before after) {call : ReservationCall}
    (hnew : ¬ after.knows call.metadata.eventId) (event : OrderCreatedEvent) (payload : π) (rowId : OutboxEventId)
    (createdAt : ℤ) :
    Grown before (after.insertReservation (reservationRecord call event payload) rowId createdAt) := by
  obtain ⟨ids, rows, hids, hrows, hlength, htype, hnodup, hfresh⟩ := h
  have hknows (id : OutboxEventId) : after.knows id ↔ before.knows id ∨ Uuid.ofId id ∈ ids.map Uuid.ofId := by
    unfold WorkerDatabase.knows
    rw [hids, List.map_append, List.mem_append]
  rw [hknows, not_or] at hnew
  refine ⟨ids ++ [call.metadata.eventId],
    rows ++ [insertOutboxEvent ((reservationRecord call event payload).entry rowId) createdAt], ?_, ?_, ?_, ?_, ?_, ?_⟩
  · rw [← List.append_assoc, ← hids]
    rfl
  · rw [← List.append_assoc, ← hrows]
    rfl
  · rw [List.length_append, List.length_append, hlength]
    rfl
  · intro row hrow
    rcases List.mem_append.mp hrow with hold | hlast
    · exact htype row hold
    · rw [List.mem_singleton.mp hlast]
      rfl
  · rw [List.map_append, List.map_singleton, ← List.concat_eq_append]
    exact hnodup.concat hnew.2
  · intro id hid
    rcases List.mem_append.mp hid with hold | hlast
    · exact hfresh id hold
    · rw [List.mem_singleton.mp hlast]
      exact hnew.1

theorem reservedKeys_append (before after : List (DeliveryEvent π)) :
    reservedKeys (before ++ after) = reservedKeys before ++ reservedKeys after :=
  List.filterMap_append

theorem reservedKeys_append_none (before : List (DeliveryEvent π)) {after : List (DeliveryEvent π)}
    (h : reservedKeys after = []) : reservedKeys (before ++ after) = reservedKeys before := by
  rw [reservedKeys_append, h, List.append_nil]

theorem reservedKeys_answer (answer : Option (Except ErrorCode Bool)) (i : ℕ) (eventId : OutboxEventId) :
    reservedKeys (answer.toList.map (.recorded i eventId) : List (DeliveryEvent π)) =
      if answer = some (.ok true) then [Uuid.ofId eventId] else [] := by
  cases answer with
  | none => rfl
  | some result =>
    cases result with
    | error e => rfl
    | ok isNew => cases isNew <;> rfl

structure Recorded (database : WorkerDatabase π) (s : WorkerService π) : Prop where
  grown : Grown database s.database
  known : ∀ key ∈ reservedKeys s.history, key ∈ s.database.processed.map Uuid.ofId
  nodup : (reservedKeys s.history).Nodup

theorem Recorded.record {database : WorkerDatabase π} (h : Recorded database s) {i : ℕ} {call : ReservationCall}
    {rowId : OutboxEventId} {createdAt : ℤ} {outcome : CommitOutcome} (hcall : s.calls[i]? = some call)
    (hreserved : Uuid.ofId call.metadata.eventId ∈ reservedKeys s.history)
    (hstep : s.step codec (.record i rowId createdAt outcome) = some s') :
    s'.database = s.database ∧ reservedKeys s'.history = reservedKeys s.history := by
  cases step_delivers hstep with
  | process ha => exact absurd rfl (ha _ _ _ _)
  | @record _ _ _ _ metadata event pc hfound =>
    obtain rfl := Option.some.inj (hfound.symm.trans hcall)
    rcases record_spec codec s.database ⟨metadata, .recording event⟩ event rowId createdAt outcome with
      ⟨hsame, hanswer⟩ | ⟨hnew, -⟩
    · exact ⟨hsame, reservedKeys_append_none s.history ((reservedKeys_answer _ _ _).trans (if_neg hanswer))⟩
    · exact absurd (h.known _ hreserved) hnew

theorem Recorded.frame {database : WorkerDatabase π} (h : Recorded database s) (hdatabase : s'.database = s.database)
    (hkeys : reservedKeys s'.history = reservedKeys s.history) : Recorded database s' := by
  refine ⟨?_, ?_, ?_⟩
  · rw [hdatabase]
    exact h.grown
  · rw [hdatabase, hkeys]
    exact h.known
  · rw [hkeys]
    exact h.nodup

theorem Recorded.step {database : WorkerDatabase π} {action : DeliveryAction π} (h : Recorded database s)
    (hstep : s.step codec action = some s') : Recorded database s' := by
  cases step_delivers hstep with
  | deliver => exact h.frame rfl (reservedKeys_append_none s.history rfl)
  | process => exact h.frame rfl (reservedKeys_append_none s.history rfl)
  | @record i rowId createdAt outcome metadata event pc hcall =>
    have hanswered := reservedKeys_answer (π := π)
      (recordAnswer codec s.database ⟨metadata, .recording event⟩ event rowId createdAt outcome) i metadata.eventId
    rcases record_spec codec s.database ⟨metadata, .recording event⟩ event rowId createdAt outcome with
      ⟨hsame, hanswer⟩ | ⟨hnew, payload, hinsert⟩
    · exact h.frame hsame (reservedKeys_append_none s.history (hanswered.trans (if_neg hanswer)))
    · refine ⟨?_, ?_, ?_⟩
      · change Grown database (OrderReservationHandler.record _ _ _ _ _ _ _).1
        rw [hinsert]
        exact h.grown.insert hnew event payload rowId createdAt
      · change ∀ key ∈ reservedKeys (s.history ++ _),
          key ∈ (OrderReservationHandler.record _ _ _ _ _ _ _).1.processed.map Uuid.ofId
        rw [hinsert, reservedKeys_append, hanswered]
        intro key hkey
        rw [WorkerDatabase.insertReservation, List.map_append]
        rcases List.mem_append.mp hkey with hold | hlast
        · exact List.mem_append_left _ (h.known key hold)
        · split_ifs at hlast
          · exact List.mem_append_right _ hlast
          · cases hlast
      · change (reservedKeys (s.history ++ _)).Nodup
        rw [reservedKeys_append, hanswered]
        split_ifs
        · rw [← List.concat_eq_append]
          exact h.nodup.concat (fun hmem => hnew (h.known _ hmem))
        · rw [List.append_nil]
          exact h.nodup

theorem Recorded.start (database : WorkerDatabase π) : Recorded database (WorkerService.start database) :=
  ⟨Grown.refl database, fun _ hkey => (nomatch hkey), List.nodup_nil⟩

/-- An event is recorded once, whatever is delivered again and however the calls run into each other: each call processes
before it asks whether the event is new, and writes nothing if it is not. -/
theorem reservation_idempotent (codec : Codec π) (database : WorkerDatabase π) (actions : List (DeliveryAction π))
    (s : WorkerService π) (h : run (WorkerService.step codec) (.start database) actions = some s) :
    (reservedKeys s.history).Nodup ∧ Grown database s.database ∧
      (∀ i call rowId createdAt outcome t, s.calls[i]? = some call →
        Uuid.ofId call.metadata.eventId ∈ reservedKeys s.history →
        s.step codec (.record i rowId createdAt outcome) = some t →
          t.database = s.database ∧ reservedKeys t.history = reservedKeys s.history) ∧
      ProcessesFirst codec s.history ∧
      (meets (WorkerService.step codec) (newOrMalformed codec) (.start database) actions = true →
        Idempotent s.history) := by
  have hrecorded : Recorded database s := run_invariant (fun _ _ _ hi hstep => hi.step hstep) (Recorded.start database) h
  have horder : InOrder codec s := run_invariant (fun _ _ _ hi hstep => hi.step hstep) (InOrder.start database) h
  refine ⟨hrecorded.nodup, hrecorded.grown, ?_, horder.processesFirst, ?_⟩
  · intro i call rowId createdAt outcome t hcall hreserved hstep
    exact hrecorded.record hcall hreserved hstep
  · intro hnew
    exact (run_preserves_of_meets (fun _ _ _ hs hm hstep => hs.step hm hstep) (Processes.start database) hnew h).idempotent

theorem beginCall_of_event {payload : π} {event : OrderCreatedEvent} (h : createdEvent codec payload = some event) :
    beginCall codec payload = .processing event := by
  rcases beginCall_cases codec payload with ⟨hnone, -⟩ | ⟨found, hfound, hbegin⟩
  · cases hnone.symm.trans h
  · exact Option.some.inj (hfound.symm.trans h) ▸ hbegin

theorem redelivery_processes_again (s : WorkerService π) {payload : π} {metadata : MessageMetadata}
    {event : OrderCreatedEvent} (hrecorded : Uuid.ofId metadata.eventId ∈ reservedKeys s.history)
    (hevent : createdEvent codec payload = some event) (result : Except ErrorCode Unit) :
    ∃ s', run (WorkerService.step codec) s [.deliver payload metadata, .process s.calls.length result] = some s' ∧
      ¬ Idempotent s'.history := by
  let history := s.history ++ [.began s.calls.length metadata.eventId payload]
  let calls := s.calls ++ [⟨metadata, .processing event⟩]
  let delivered : WorkerService π := ⟨s.database, calls, history⟩
  have hdeliver : s.step codec (.deliver payload metadata) = some delivered := by
    simp [WorkerService.step, beginCall_of_event hevent, delivered, calls, history]
  have hcall : delivered.calls[s.calls.length]? = some ⟨metadata, .processing event⟩ := by
    simp [delivered, calls]
  have hprocess : delivered.step codec (.process s.calls.length result) =
      some (delivered.setCall s.calls.length ⟨metadata, afterProcess event result⟩
        [.processed s.calls.length event]) := by
    simp only [WorkerService.step, hcall]
  refine ⟨_, by rw [run_cons, hdeliver, Option.bind_some, run_cons, hprocess, Option.bind_some, run_nil], ?_⟩
  intro hidem
  have hstarted : StartedNew s.calls.length history :=
    hidem history (.processed s.calls.length event) [] rfl s.calls.length event rfl
  exact hstarted s.history _ [] rfl metadata.eventId payload rfl hrecorded

def plainCodec : Codec Json := ⟨fun json => .ok json, fun json => some json, fun T _ => T.cast 0⟩

def createdPayload : Json :=
  .object [(orderIdKey, .string "550e8400-e29b-41d4-a716-446655440060"),
    (userIdKey, .string "550e8400-e29b-41d4-a716-446655440061"),
    (itemsKey, .array [.object [(productIdKey, .string "550e8400-e29b-41d4-a716-446655440062"),
      (quantityKey, .numberUnsigned 2)]])]

def createdMetadata : MessageMetadata :=
  ⟨⟨"550e8400-e29b-41d4-a716-446655440063", by decide, by decide⟩, "OrderCreated"⟩

def emptyDatabase : WorkerDatabase Json := ⟨[], ⟨[], [], [], [], []⟩⟩

def recordedOnce : List (DeliveryAction Json) :=
  [.deliver createdPayload createdMetadata, .process 0 (.ok ()),
    .record 0 ⟨"550e8400-e29b-41d4-a716-446655440064", by decide, by decide⟩ 0 .committed]

theorem reservation_idempotent_once :
    ∃ s, run (WorkerService.step plainCodec) (.start emptyDatabase) (recordedOnce ++ [.deliver .null createdMetadata]) =
        some s ∧ reservedKeys s.history = [Uuid.ofId createdMetadata.eventId] ∧ Idempotent s.history := by
  have hfacts : (run (WorkerService.step plainCodec) (.start emptyDatabase)
      (recordedOnce ++ [.deliver .null createdMetadata])).map (fun s => reservedKeys s.history) =
        some [Uuid.ofId createdMetadata.eventId] := by decide +kernel
  obtain ⟨s, hs, hrecorded⟩ := Option.map_eq_some_iff.mp hfacts
  refine ⟨s, hs, hrecorded, ?_⟩
  exact (reservation_idempotent plainCodec emptyDatabase (recordedOnce ++ [.deliver .null createdMetadata]) s
    hs).2.2.2.2 (by decide +kernel)

example : (run (WorkerService.step plainCodec) (.start emptyDatabase) (recordedOnce ++
    [.deliver createdPayload ⟨⟨"550E8400-E29B-41D4-A716-446655440063", by decide, by decide⟩, "OrderCreated"⟩,
      .process 1 (.ok ()), .record 1 ⟨"550e8400-e29b-41d4-a716-446655440065", by decide, by decide⟩ 1 .committed])).map
    (fun s => (s.database.processed.length, s.database.outbox.rows.length)) = some (1, 1) := by decide +kernel

theorem duplicate_delivery_processed :
    ∃ s, run (WorkerService.step plainCodec) (.start emptyDatabase)
        (recordedOnce ++ [.deliver createdPayload createdMetadata, .process 1 (.ok ())]) = some s ∧
      ¬ Idempotent s.history := by
  obtain ⟨event, hevent⟩ : ∃ event, createdEvent plainCodec createdPayload = some event :=
    Option.isSome_iff_exists.mp (by decide +kernel)
  have hfacts : (run (WorkerService.step plainCodec) (.start emptyDatabase) recordedOnce).map
      (fun s => (s.calls.length, decide (Uuid.ofId createdMetadata.eventId ∈ reservedKeys s.history))) = some (1, true) := by
    decide +kernel
  obtain ⟨s, hs, hfound⟩ := Option.map_eq_some_iff.mp hfacts
  obtain ⟨hlen, hmem⟩ := Prod.mk.inj hfound
  obtain ⟨s', hs', hviolated⟩ := redelivery_processes_again s (of_decide_eq_true hmem) hevent (.ok ())
  rw [hlen] at hs'
  refine ⟨s', ?_, hviolated⟩
  rw [run_append, hs, Option.bind_some]
  exact hs'

end LiquidPetProject.OrderReservationHandler
