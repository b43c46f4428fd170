import LiquidPetProject.ReservationProtocol

namespace LiquidPetProject.OrderReservedHandler

open Models Repository Events Messaging Transitions

variable {π : Type} {parse : π → Except ParseException Json}

def Settled (orders : List Order) (id : OrderId) : Prop :=
  ∀ o, selectOrder orders id = some o → o.status ≠ .created

theorem settled_updateOrderStatus (orders : List Order) (id : OrderId) :
    Settled (updateOrderStatus .reserved id .created orders) id := by
  intro o ho
  rw [selectOrder_updateOrderStatus] at ho
  obtain ⟨old, hold, rfl⟩ := Option.map_eq_some_iff.mp ho
  have hid := (selectOrder_some hold).2
  split_ifs with hcreated
  · exact fun h => OrderStatus.noConfusion h
  · exact fun h => hcreated ⟨hid, h⟩

theorem parsePayload_ended {payload : π} {reason : CallEnd} (h : parsePayload parse payload = .ended reason) :
    eventOf parse payload = none := by
  rcases parsePayload_cases parse payload with ⟨-, -, -, hnone⟩ | ⟨event, hnext, -⟩
  · exact hnone
  · cases hnext.symm.trans h

theorem findById_notFound {orders : List Order} {id : OrderId} {failure : Option PqxxException}
    (h : findById orders id failure = .error (.repository .notFound)) : selectOrder orders id = none := by
  cases failure with
  | some e => exact absurd (Except.error.inj h) (mapPqxxException_ne_notFound e)
  | none =>
    simp only [findById] at h
    cases hs : selectOrder orders id with
    | none => rfl
    | some order =>
      rw [hs] at h
      cases h

theorem afterFind_handled {orders : List Order} {id : OrderId} {failure : Option PqxxException} {reason : CallEnd}
    (h : afterFind id (findById orders id failure) = .ended reason) (hr : reason.result = .returned true) :
    Settled orders id := by
  intro o ho
  cases hf : findById orders id failure with
  | error e =>
    rw [hf] at h
    simp only [afterFind] at h
    split_ifs at h with he
    · rw [he] at hf
      rw [findById_notFound hf] at ho
      cases ho
    · obtain rfl := Progress.ended.inj h
      cases hr
  | ok order =>
    obtain rfl := Option.some.inj ((findById_ok hf).symm.trans ho)
    intro hcreated
    rw [hf] at h
    simp [afterFind, Order.markReserved, hcreated] at h

theorem Moves.settled {orders orders' : List Order} {r : RecordCalls π} {reason : CallEnd}
    (hm : Moves parse orders r orders' (.ended reason)) (hr : RecordSound parse r)
    (hresult : reason.result = .returned true) {event : OrderReservedEvent}
    (hevent : eventOf parse r.payload = some event) :
    Settled orders event.orderId ∨ Settled orders' event.orderId := by
  have hpc := hr.pc
  unfold PcSound at hpc
  generalize hended : Progress.ended reason = progress at hm
  cases hm with
  | call h =>
    rw [parsePayload_ended hended.symm] at hevent
    cases hevent
  | find failure h =>
    rw [h] at hpc
    obtain rfl := Option.some.inj (hpc.symm.trans hevent)
    exact .inl (afterFind_handled hended.symm hresult)
  | change outcome h =>
    rw [h] at hpc
    obtain ⟨hid, rfl, rfl⟩ := hpc
    obtain rfl := Option.some.inj (hid.symm.trans hevent)
    cases outcome with
    | committed => exact .inr (settled_updateOrderStatus orders _)
    | failed e | inDoubt e =>
      obtain rfl := Progress.ended.inj hended
      cases hresult

def Returns (s t : State π) (payload : π) (call : FinishedCall) : Prop :=
  ∃ (i : ℕ) (r r' : RecordCalls π), s.records[i]? = some r ∧ t.records[i]? = some r' ∧ r.payload = payload ∧
    r'.finished = r.finished ++ [call]

theorem not_returns_of_records {s t : State π} (h : t.records = s.records) (payload : π) (call : FinishedCall) :
    ¬ Returns s t payload call := by
  rintro ⟨i, r, r', hr, hr', -, hfinished⟩
  rw [h, hr] at hr'
  obtain rfl := Option.some.inj hr'
  simp at hfinished

theorem returns_moves {s t : State π} {a : Action} {payload : π} {call : FinishedCall}
    (h : s.step parse a = some t) (hreturns : Returns s t payload call) :
    ∃ r ∈ s.records, r.payload = payload ∧ Moves parse s.orders r t.orders (.ended call.reason) := by
  obtain ⟨orderId, status, -, rfl⟩ | ⟨order, orderId, -, -, rfl⟩ | ⟨j, q, orders, progress, -, hq, rfl, hm⟩ :=
    State.step_cases h
  · exact absurd hreturns (not_returns_of_records (s := s) rfl payload call)
  · exact absurd hreturns (not_returns_of_records (s := s) rfl payload call)
  · obtain ⟨i, r, r', hr, hr', hpayload, hfinished⟩ := hreturns
    change (s.records.set j _)[i]? = some r' at hr'
    by_cases hij : j = i
    · subst hij
      obtain rfl := Option.some.inj (hq.symm.trans hr)
      rw [List.getElem?_set_self (List.getElem?_eq_some_iff.mp hq).1] at hr'
      obtain rfl := Option.some.inj hr'
      cases progress with
      | next pc =>
        simp [RecordCalls.advance] at hfinished
      | ended reason =>
        obtain rfl := List.singleton_inj.mp (List.append_cancel_left hfinished)
        exact ⟨q, List.mem_of_getElem? hq, hpayload, hm⟩
    · rw [List.getElem?_set_ne hij, hr] at hr'
      obtain rfl := Option.some.inj hr'
      simp at hfinished

def movesBack (s : State π) : Action → Bool
  | .written id .created => (selectOrder s.orders id).any (fun o => o.status ≠ .created)
  | _ => false

def Onward (before after : List Order) : Prop :=
  ∀ id o, selectOrder before id = some o →
    ∃ o', selectOrder after id = some o' ∧ (o.status ≠ .created → o'.status ≠ .created)

theorem onward_refl (orders : List Order) : Onward orders orders := fun _ o ho => ⟨o, ho, fun h => h⟩

theorem onward_updateOrderStatus (id : OrderId) (orders : List Order) :
    Onward orders (updateOrderStatus .reserved id .created orders) := by
  intro key o ho
  rw [selectOrder_updateOrderStatus, ho]
  refine ⟨_, rfl, ?_⟩
  intro hne
  beta_reduce
  rw [if_neg (fun h => hne h.2)]
  exact hne

theorem Moves.onward {orders orders' : List Order} {r : RecordCalls π} {progress : Progress}
    (hm : Moves parse orders r orders' progress) (hr : RecordSound parse r) : Onward orders orders' := by
  have hpc := hr.pc
  unfold PcSound at hpc
  cases hm with
  | call h => exact onward_refl orders
  | find failure h => exact onward_refl orders
  | change outcome h =>
    rw [h] at hpc
    obtain ⟨-, rfl, rfl⟩ := hpc
    rcases changeStatus_fst orders _ .created .reserved outcome with hsame | hupdate
    · rw [hsame]
      exact onward_refl orders
    · rw [hupdate]
      exact onward_updateOrderStatus _ orders

theorem writeStatus_onward {s : State π} {orderId : OrderId} {status : OrderStatus}
    (h : movesBack s (.written orderId status) = false) : Onward s.orders (s.writeStatus orderId status).orders := by
  intro id o ho
  unfold State.writeStatus
  rw [selectOrder_map (by intro o; split_ifs <;> rfl), ho]
  refine ⟨_, rfl, ?_⟩
  intro hne
  beta_reduce
  split_ifs with hid
  · have hsame : Uuid.ofId id = Uuid.ofId orderId := Option.some.inj ((selectOrder_some ho).2.symm.trans hid)
    rw [selectOrder_congr hsame] at ho
    cases status with
    | created =>
      simp only [movesBack, ho, Option.any_some, decide_eq_false_iff_not, not_not] at h
      exact absurd h hne
    | reserved | shipped | cancelled => exact fun hstatus => OrderStatus.noConfusion hstatus
  · exact hne

theorem concat_onward (orders : List Order) (order : Order) : Onward orders (orders ++ [order]) := by
  intro id o ho
  refine ⟨o, ?_, fun h => h⟩
  unfold selectOrder at ho ⊢
  rw [List.find?_append, ho]
  rfl

theorem step_onward {s t : State π} {a : Action} (hs : Sound parse s) (hb : movesBack s a = false)
    (h : s.step parse a = some t) : Onward s.orders t.orders := by
  obtain ⟨orderId, status, rfl, rfl⟩ | ⟨order, orderId, -, -, rfl⟩ | ⟨i, r, orders, progress, -, hr, rfl, hm⟩ :=
    State.step_cases h
  · exact writeStatus_onward hb
  · exact concat_onward s.orders _
  · exact hm.onward (hs.records r (List.mem_of_getElem? hr))

def Moved (orders : List Order) (id : OrderId) : Prop := ∃ o, selectOrder orders id = some o ∧ o.status ≠ .created

theorem Moved.onward {before after : List Order} {id : OrderId} (h : Moved before id) (hon : Onward before after) :
    Moved after id := by
  obtain ⟨o, ho, hne⟩ := h
  obtain ⟨o', ho', hstays⟩ := hon id o ho
  exact ⟨o', ho', hstays hne⟩

def lostRaces (r : RecordCalls π) : ℕ := r.finished.countP (fun call => call.reason = .changedConcurrently)

/-- A record loses the race for its order once: from then on the order is found to have moved. -/
structure RaceSound (parse : π → Except ParseException Json) (orders : List Order) (r : RecordCalls π) : Prop where
  present : ∀ id previousStatus newStatus, r.pc = .changing id previousStatus newStatus →
    ∃ o, selectOrder orders id = some o
  atMostOnce : lostRaces r ≤ 1
  moved : 0 < lostRaces r → ∀ event, eventOf parse r.payload = some event → Moved orders event.orderId
  stopped : 0 < lostRaces r → ∀ id previousStatus newStatus, r.pc ≠ .changing id previousStatus newStatus

theorem RaceSound.onward {before after : List Order} {r : RecordCalls π} (h : RaceSound parse before r)
    (hon : Onward before after) : RaceSound parse after r := by
  refine ⟨?_, h.atMostOnce, fun hlost event he => (h.moved hlost event he).onward hon, h.stopped⟩
  intro id previousStatus newStatus hpc
  obtain ⟨o, ho⟩ := h.present id previousStatus newStatus hpc
  obtain ⟨o', ho', -⟩ := hon id o ho
  exact ⟨o', ho'⟩

theorem RaceSound.next {orders : List Order} {r : RecordCalls π} {changes : List StatusChange} {pc : HandlerPc}
    (h : RaceSound parse orders r)
    (hpc : ∀ id previousStatus newStatus, pc = .changing id previousStatus newStatus →
      eventOf parse r.payload = some ⟨id⟩ ∧ ∃ o, selectOrder orders id = some o ∧ o.status = .created) :
    RaceSound parse orders (r.advance changes (.next pc)) := by
  refine ⟨?_, h.atMostOnce, h.moved, ?_⟩
  · intro id previousStatus newStatus hp
    obtain ⟨-, o, ho, -⟩ := hpc id previousStatus newStatus hp
    exact ⟨o, ho⟩
  · intro hlost id previousStatus newStatus hp
    obtain ⟨hevent, o, ho, hcreated⟩ := hpc id previousStatus newStatus hp
    obtain ⟨o', ho', hne⟩ := h.moved hlost ⟨id⟩ hevent
    obtain rfl := Option.some.inj (ho.symm.trans ho')
    exact hne hcreated

theorem lostRaces_ended (r : RecordCalls π) (changes : List StatusChange) (reason : CallEnd) :
    lostRaces (r.advance changes (.ended reason)) =
      lostRaces r + if reason = .changedConcurrently then 1 else 0 := by
  unfold lostRaces RecordCalls.advance
  rw [List.countP_append, List.countP_singleton]
  simp only [decide_eq_true_eq]

theorem RaceSound.ended {orders : List Order} {r : RecordCalls π} {changes : List StatusChange} {reason : CallEnd}
    (h : RaceSound parse orders r)
    (hlost : reason = .changedConcurrently → lostRaces r = 0 ∧
      ∀ event, eventOf parse r.payload = some event → Moved orders event.orderId) :
    RaceSound parse orders (r.advance changes (.ended reason)) := by
  have hcount := lostRaces_ended r changes reason
  refine ⟨?_, ?_, ?_, ?_⟩
  · intro id previousStatus newStatus hpc
    cases hpc
  · have hle := h.atMostOnce
    split_ifs at hcount with hreason
    · have hzero := (hlost hreason).1
      omega
    · omega
  · intro hpos event hevent
    split_ifs at hcount with hreason
    · exact (hlost hreason).2 event hevent
    · exact h.moved (by omega) event hevent
  · intro _ id previousStatus newStatus hpc
    cases hpc

theorem afterFind_reason {id : OrderId} {found : Except ErrorCode Order} {reason : CallEnd}
    (h : afterFind id found = .ended reason) : reason ≠ .changedConcurrently := by
  rintro rfl
  cases found with
  | error e =>
    simp only [afterFind] at h
    split_ifs at h
    all_goals cases h
  | ok order =>
    simp only [afterFind] at h
    split_ifs at h
    · cases h
    · cases hm : order.markReserved with
      | error e =>
        rw [hm] at h
        cases h
      | ok marked =>
        rw [hm] at h
        cases h

theorem parsePayload_reason {payload : π} {reason : CallEnd} (h : parsePayload parse payload = .ended reason) :
    reason ≠ .changedConcurrently := by
  rcases parsePayload_cases parse payload with ⟨ended, hended, hne, -⟩ | ⟨event, hnext, -⟩
  · exact Progress.ended.inj (hended.symm.trans h) ▸ hne
  · cases hnext.symm.trans h

theorem afterChange_lost {orders : List Order} {id : OrderId} {fromStatus toStatus : OrderStatus}
    {outcome : CommitOutcome}
    (h : afterChange (changeStatus orders id fromStatus toStatus outcome).2 = .ended .changedConcurrently) :
    ∀ o ∈ orders, orderKey o = some (Uuid.ofId id) → o.status ≠ fromStatus := by
  cases outcome with
  | committed =>
    intro o ho hid hstatus
    have hpos := affectedRows_pos.mpr ⟨o, ho, hid, hstatus⟩
    simp only [changeStatus, hpos, decide_true, afterChange] at h
    cases h
  | failed e | inDoubt e => cases h

theorem RaceSound.advance {orders orders' : List Order} {r : RecordCalls π} {progress : Progress}
    (h : RaceSound parse orders r) (hr : RecordSound parse r) (hm : Moves parse orders r orders' progress) :
    RaceSound parse orders' (r.advance (statusChanges orders orders') progress) := by
  have hon := hm.onward hr
  have hpc := hr.pc
  unfold PcSound at hpc
  have h' := h.onward hon
  cases hm with
  | call hwaiting =>
    cases hp : parsePayload parse r.payload with
    | next pc =>
      obtain ⟨event, -, rfl⟩ := parsePayload_next hp
      exact h'.next (fun id previousStatus newStatus hpc => by cases hpc)
    | ended reason => exact h'.ended (fun hreason => absurd hreason (parsePayload_reason hp))
  | @find id failure hfinding =>
    rw [hfinding] at hpc
    cases hp : afterFind id (findById orders id failure) with
    | next pc =>
      obtain ⟨order, hfound, hcreated, rfl⟩ := afterFind_next hp
      apply h'.next
      intro key previousStatus newStatus hchanging
      obtain ⟨rfl, -, -⟩ := HandlerPc.changing.inj hchanging
      exact ⟨hpc, order, findById_ok hfound, hcreated⟩
    | ended reason => exact h'.ended (fun hreason => absurd hreason (afterFind_reason hp))
  | @change id previousStatus newStatus outcome hchanging =>
    rw [hchanging] at hpc
    obtain ⟨hevent, rfl, rfl⟩ := hpc
    cases hp : afterChange (changeStatus orders id .created .reserved outcome).2 with
    | next pc => exact absurd hp afterChange_next
    | ended reason =>
      apply h'.ended
      rintro rfl
      constructor
      · by_contra hne
        exact h.stopped (Nat.pos_of_ne_zero hne) _ _ _ hchanging
      · intro event he
        obtain rfl := Option.some.inj (hevent.symm.trans he)
        obtain ⟨o, ho⟩ := h.present _ _ _ hchanging
        obtain ⟨hmem, hid⟩ := selectOrder_some ho
        exact Moved.onward ⟨o, ho, afterChange_lost hp o hmem hid⟩ hon

theorem step_races {s t : State π} {a : Action} (hs : Sound parse s)
    (hr : ∀ r ∈ s.records, RaceSound parse s.orders r) (hb : movesBack s a = false) (h : s.step parse a = some t) :
    ∀ r ∈ t.records, RaceSound parse t.orders r := by
  have hon := step_onward hs hb h
  obtain ⟨orderId, status, -, rfl⟩ | ⟨order, orderId, -, -, rfl⟩ | ⟨i, q, orders, progress, -, hq, rfl, hm⟩ :=
    State.step_cases h
  · exact fun r hmem => (hr r hmem).onward hon
  · exact fun r hmem => (hr r hmem).onward hon
  · intro r hmem
    have hq' := List.mem_of_getElem? hq
    rcases List.mem_or_eq_of_mem_set hmem with hold | rfl
    · exact (hr r hold).onward hon
    · exact (hr q hq').advance (hs.records q hq') hm

theorem races_start (payloads : List π) :
    ∀ r ∈ (State.start payloads).records, RaceSound parse (State.start payloads).orders r := by
  intro r hr
  obtain ⟨payload, -, rfl⟩ := List.mem_map.mp hr
  exact ⟨fun _ _ _ hpc => (nomatch hpc), Nat.zero_le 1, fun hlost => absurd hlost (lt_irrefl 0),
    fun hlost => absurd hlost (lt_irrefl 0)⟩

theorem run_races {payloads : List π} {actions : List Action} {s : State π}
    (hb : meets (State.step parse) (fun s a => !movesBack s a) (State.start payloads) actions = true)
    (h : run (State.step parse) (State.start payloads) actions = some s) :
    ∀ r ∈ s.records, RaceSound parse s.orders r := by
  have hinv : Sound parse s ∧ ∀ r ∈ s.records, RaceSound parse s.orders r := by
    apply run_preserves_of_meets _ ⟨sound_start payloads, races_start payloads⟩ hb h
    intro u a t hu hback hstep
    exact ⟨step_sound hu.1 hstep, step_races hu.1 hu.2 (Bool.not_eq_true' _ ▸ hback) hstep⟩
  exact hinv.2

/-- The protocol of the reservations, over every run of the handlers and of the other writers. -/
theorem reservation_protocol (parse : π → Except ParseException Json) (payloads : List π)
    (actions : List Action) (s : State π)
    (h : run (State.step parse) (State.start payloads) actions = some s) :
    (∀ a t, s.step parse a = some t → a.isHandler = true → OnlyReserves s.orders t.orders) ∧
      (∀ a t payload call event, s.step parse a = some t → Returns s t payload call →
        call.reason.result = .returned true → eventOf parse payload = some event →
        Settled s.orders event.orderId ∨ Settled t.orders event.orderId) ∧
      (∀ r ∈ s.records, ∀ call ∈ r.finished, call.written = [] ∨
        ∃ event, eventOf parse r.payload = some event ∧ OneReservation event.orderId call.written) ∧
      (meets (State.step parse) (fun s a => !movesBack s a) (State.start payloads) actions = true →
        ∀ r ∈ s.records, lostRaces r ≤ 1) := by
  have hs : Sound parse s := run_sound h
  refine ⟨?_, ?_, ?_, ?_⟩
  · intro a t hstep hhandler
    obtain ⟨orderId, status, rfl, -⟩ | ⟨order, orderId, rfl, -, -⟩ | ⟨i, r, orders, progress, -, hr, rfl, hm⟩ :=
      State.step_cases hstep
    · cases hhandler
    · cases hhandler
    · exact (hm.spec (hs.records r (List.mem_of_getElem? hr)) hs.keyed).1
  · intro a t payload call event hstep hreturns hresult hevent
    obtain ⟨r, hr, rfl, hm⟩ := returns_moves hstep hreturns
    exact hm.settled (hs.records r hr) hresult hevent
  · intro r hr call hcall
    exact (hs.records r hr).finished call hcall
  · intro hb r hr
    exact (run_races hb h r hr).atMostOnce

def racedId : OrderId := ⟨"550e8400-e29b-41d4-a716-44665544003f", by decide, by decide⟩

def racedOrder : Order where
  userId := ⟨"550e8400-e29b-41d4-a716-446655440031", by decide, by decide⟩
  orderId := none
  items :=
    [{ productId := ⟨"550e8400-e29b-41d4-a716-446655440032", by decide, by decide⟩
       quantity := ⟨3, by decide⟩
       priceAtOrderTime := ⟨⟨250, by decide⟩, ⟨"JPY", ⟨0, by decide⟩, by decide, by decide⟩, by decide⟩
       positive := by decide }]
  status := .created
  nonempty := List.cons_ne_nil _ _

def racedParse (_ : String) : Except ParseException Json :=
  .ok (.object [(orderIdKey, .string "550E8400-E29B-41D4-A716-44665544003F")])

def race : List Action :=
  [.inserted racedOrder racedId, .call 0, .find 0 none, .call 1, .find 1 none, .change 0 .committed,
    .change 1 .committed]

theorem reservation_protocol_race :
    ∃ s, run (State.step racedParse) (State.start ["event", "event"]) race = some s ∧
      s.records.map lostRaces = [0, 1] ∧ ∀ r ∈ s.records, lostRaces r ≤ 1 := by
  refine ⟨_, rfl, by decide +kernel, ?_⟩
  exact (reservation_protocol racedParse ["event", "event"] race _ rfl).2.2.2 (by decide +kernel)

end LiquidPetProject.OrderReservedHandler
