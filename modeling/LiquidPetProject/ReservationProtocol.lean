import LiquidPetProject.OrderReservedHandler
import LiquidPetProject.Transitions

namespace LiquidPetProject.OrderReservedHandler

open Models Repository Events Messaging Transitions

variable {π : Type} {parse : π → Except ParseException Json}

inductive Moves (parse : π → Except ParseException Json) (orders : List Order) (r : RecordCalls π) :
    List Order → Progress → Prop
  | call (h : r.pc = .waiting) : Moves parse orders r orders (parsePayload parse r.payload)
  | find {orderId} (failure) (h : r.pc = .finding orderId) :
      Moves parse orders r orders (afterFind orderId (findById orders orderId failure))
  | change {orderId previousStatus newStatus} (outcome) (h : r.pc = .changing orderId previousStatus newStatus) :
      Moves parse orders r (changeStatus orders orderId previousStatus newStatus outcome).1
        (afterChange (changeStatus orders orderId previousStatus newStatus outcome).2)

namespace State

theorem handlerStep_moves {s t : State π} {i : ℕ} {r : RecordCalls π} {a : Action}
    (h : s.handlerStep parse i r a = some t) :
    ∃ orders progress, t = s.advance i r orders progress ∧ Moves parse s.orders r orders progress := by
  cases a with
  | call j =>
    simp only [handlerStep] at h
    split_ifs at h with hpc
    exact ⟨_, _, (Option.some.inj h).symm, .call hpc⟩
  | find j failure =>
    cases hpc : r.pc with
    | finding orderId =>
      simp only [handlerStep, hpc] at h
      exact ⟨_, _, (Option.some.inj h).symm, .find failure hpc⟩
    | _ => simp [handlerStep, hpc] at h
  | change j outcome =>
    cases hpc : r.pc with
    | changing orderId previousStatus newStatus =>
      simp only [handlerStep, hpc] at h
      exact ⟨_, _, (Option.some.inj h).symm, .change outcome hpc⟩
    | _ => simp [handlerStep, hpc] at h
  | written orderId status => cases h
  | inserted order orderId => cases h

theorem step_cases {s t : State π} {a : Action} (h : s.step parse a = some t) :
    (∃ orderId status, a = .written orderId status ∧ t = s.writeStatus orderId status) ∨
      (∃ order orderId, a = .inserted order orderId ∧ Uuid.ofId orderId ∉ orderKeys s.orders ∧
        t = { s with orders := s.orders ++ [order.assignId orderId] }) ∨
      ∃ i r orders progress, a.isHandler = true ∧ s.records[i]? = some r ∧ t = s.advance i r orders progress ∧
        Moves parse s.orders r orders progress := by
  have handler (i : ℕ) (ha : a.isHandler = true)
      (hi : s.step parse a = s.records[i]?.bind (fun r => s.handlerStep parse i r a)) :
      ∃ i r orders progress, a.isHandler = true ∧ s.records[i]? = some r ∧ t = s.advance i r orders progress ∧
        Moves parse s.orders r orders progress := by
    rw [hi] at h
    obtain ⟨r, hr, hstep⟩ := Option.bind_eq_some_iff.mp h
    obtain ⟨orders, progress, ht, hm⟩ := handlerStep_moves hstep
    exact ⟨i, r, orders, progress, ha, hr, ht, hm⟩
  cases a with
  | call i => exact .inr (.inr (handler i rfl (by rw [step]; cases s.records[i]? <;> rfl)))
  | find i failure => exact .inr (.inr (handler i rfl (by rw [step]; cases s.records[i]? <;> rfl)))
  | change i outcome => exact .inr (.inr (handler i rfl (by rw [step]; cases s.records[i]? <;> rfl)))
  | written orderId status => exact .inl ⟨orderId, status, rfl, (Option.some.inj h).symm⟩
  | inserted order orderId =>
    simp only [step, insertOrder] at h
    split_ifs at h with hfresh
    exact .inr (.inl ⟨order, orderId, rfl, hfresh, (Option.some.inj h).symm⟩)

end State

theorem afterFind_next {orderId : OrderId} {found : Except ErrorCode Order} {pc : HandlerPc}
    (h : afterFind orderId found = .next pc) :
    ∃ order, found = .ok order ∧ order.status = .created ∧ pc = .changing orderId .created .reserved := by
  cases found with
  | error e =>
    simp only [afterFind] at h
    split_ifs at h
  | ok order =>
    simp only [afterFind] at h
    split_ifs at h with hr
    cases hm : order.markReserved with
    | error e =>
      rw [hm] at h
      cases h
    | ok marked =>
      rw [hm] at h
      obtain ⟨hcreated, rfl⟩ := Order.markReserved_ok hm
      refine ⟨order, rfl, hcreated, ?_⟩
      rw [← Progress.next.inj h, hcreated]

theorem afterChange_next {answer : Except ErrorCode Bool} {pc : HandlerPc} : afterChange answer ≠ .next pc := by
  intro h
  cases answer with
  | error e => cases h
  | ok changed => cases changed <;> cases h

theorem findById_ok {orders : List Order} {orderId : OrderId} {failure : Option PqxxException} {order : Order}
    (h : findById orders orderId failure = .ok order) : selectOrder orders orderId = some order := by
  cases failure with
  | some e => cases h
  | none =>
    simp only [findById] at h
    cases hs : selectOrder orders orderId with
    | none =>
      rw [hs] at h
      cases h
    | some found =>
      rw [hs] at h
      rw [Except.ok.inj h]

def OnlyReserves (before after : List Order) : Prop :=
  List.Forall₂ (fun b a => a = b ∨ b.status = .created ∧ a = withStatus b .reserved) before after

theorem OnlyReserves.refl (orders : List Order) : OnlyReserves orders orders :=
  List.forall₂_same.mpr (fun _ _ => .inl rfl)

theorem onlyReserves_updateOrderStatus (id : OrderId) (orders : List Order) :
    OnlyReserves orders (updateOrderStatus .reserved id .created orders) := by
  unfold OnlyReserves updateOrderStatus
  rw [List.forall₂_map_right_iff, List.forall₂_same]
  intro o _
  split_ifs with h
  · exact .inr ⟨h.2, rfl⟩
  · exact .inl rfl

theorem changeStatus_fst (orders : List Order) (id : OrderId) (fromStatus toStatus : OrderStatus)
    (outcome : CommitOutcome) :
    (changeStatus orders id fromStatus toStatus outcome).1 = orders ∨
      (changeStatus orders id fromStatus toStatus outcome).1 = updateOrderStatus toStatus id fromStatus orders := by
  cases outcome with
  | committed => exact .inr rfl
  | failed e => exact .inl rfl
  | inDoubt e => exact .inr rfl

theorem statusChanges_self (orders : List Order) : statusChanges orders orders = [] := by
  unfold statusChanges
  induction orders with
  | nil => rfl
  | cons o orders ih => rw [List.zip_cons_cons, List.filterMap_cons, if_pos rfl, ih]

theorem statusChanges_updateOrderStatus (id : OrderId) (orders : List Order) :
    statusChanges orders (updateOrderStatus .reserved id .created orders) =
      (orders.filter (fun o => orderKey o = some (Uuid.ofId id) ∧ o.status = .created)).map
        (fun _ => ⟨some (Uuid.ofId id), .created, .reserved⟩) := by
  induction orders with
  | nil => rfl
  | cons o orders ih =>
    unfold statusChanges updateOrderStatus at ih ⊢
    rw [List.map_cons, List.zip_cons_cons, List.filterMap_cons, ih]
    by_cases h : orderKey o = some (Uuid.ofId id) ∧ o.status = .created
    · rw [List.filter_cons_of_pos (by simpa using h), List.map_cons, if_pos h]
      simp only [withStatus, h.1, h.2]
      rfl
    · rw [List.filter_cons_of_neg (by simpa using h), if_neg h, if_pos rfl]

theorem statusChanges_length_le {orders : List Order} (hk : Keyed orders) (id : OrderId) :
    (statusChanges orders (updateOrderStatus .reserved id .created orders)).length ≤ 1 := by
  rw [statusChanges_updateOrderStatus, List.length_map]
  generalize hcreated :
    orders.filter (fun o => orderKey o = some (Uuid.ofId id) ∧ o.status = .created) = created
  have hsub : created.Sublist orders := hcreated ▸ List.filter_sublist
  have hnodup : (created.map orderKey).Nodup := hk.1.sublist (hsub.map orderKey)
  have hsame : created.map orderKey = List.replicate created.length (some (Uuid.ofId id)) := by
    apply List.eq_replicate_iff.mpr
    refine ⟨List.length_map _, ?_⟩
    intro key hkey
    obtain ⟨o, ho, rfl⟩ := List.mem_map.mp hkey
    rw [← hcreated] at ho
    exact (of_decide_eq_true (List.mem_filter.mp ho).2).1
  rw [hsame] at hnodup
  exact List.nodup_replicate.mp hnodup

def OneReservation (id : OrderId) (written : List StatusChange) : Prop :=
  written = [] ∨ written = [⟨some (Uuid.ofId id), .created, .reserved⟩]

theorem oneReservation_updateOrderStatus {orders : List Order} (hk : Keyed orders) (id : OrderId) :
    OneReservation id (statusChanges orders (updateOrderStatus .reserved id .created orders)) := by
  have hlen := statusChanges_length_le hk id
  rw [statusChanges_updateOrderStatus] at hlen ⊢
  cases hcreated : orders.filter (fun o => orderKey o = some (Uuid.ofId id) ∧ o.status = .created) with
  | nil => exact .inl rfl
  | cons o rest =>
    rw [hcreated, List.map_cons, List.length_cons, List.length_map] at hlen
    obtain rfl : rest = [] := List.eq_nil_of_length_eq_zero (by omega)
    exact .inr rfl

def PcSound (parse : π → Except ParseException Json) (r : RecordCalls π) : Prop :=
  match r.pc with
  | .waiting => True
  | .finding id => eventOf parse r.payload = some ⟨id⟩
  | .changing id previousStatus newStatus =>
    eventOf parse r.payload = some ⟨id⟩ ∧ previousStatus = .created ∧ newStatus = .reserved

structure RecordSound (parse : π → Except ParseException Json) (r : RecordCalls π) : Prop where
  pc : PcSound parse r
  unwritten : r.written = []
  finished : ∀ call ∈ r.finished, call.written = [] ∨
    ∃ event, eventOf parse r.payload = some event ∧ OneReservation event.orderId call.written

theorem parsePayload_next {payload : π} {pc : HandlerPc} (h : parsePayload parse payload = .next pc) :
    ∃ event, eventOf parse payload = some event ∧ pc = .finding event.orderId := by
  rcases parsePayload_cases parse payload with ⟨reason, hended, -, -⟩ | ⟨event, hnext, hevent⟩
  · cases hended.symm.trans h
  · exact ⟨event, hevent, (Progress.next.inj (hnext.symm.trans h)).symm⟩

theorem Moves.spec {orders orders' : List Order} {r : RecordCalls π} {progress : Progress}
    (hm : Moves parse orders r orders' progress) (hr : RecordSound parse r) (hk : Keyed orders) :
    OnlyReserves orders orders' ∧
      (statusChanges orders orders' = [] ∨
        ∃ event, eventOf parse r.payload = some event ∧
          OneReservation event.orderId (statusChanges orders orders')) ∧
      ∀ pc, progress = .next pc → statusChanges orders orders' = [] ∧ PcSound parse { r with pc := pc } := by
  have hpc := hr.pc
  unfold PcSound at hpc
  cases hm with
  | call h =>
    refine ⟨OnlyReserves.refl orders, .inl (statusChanges_self orders), ?_⟩
    intro pc hnext
    obtain ⟨event, hevent, rfl⟩ := parsePayload_next hnext
    exact ⟨statusChanges_self orders, hevent⟩
  | find failure h =>
    rw [h] at hpc
    refine ⟨OnlyReserves.refl orders, .inl (statusChanges_self orders), ?_⟩
    intro pc hnext
    obtain ⟨order, -, -, rfl⟩ := afterFind_next hnext
    exact ⟨statusChanges_self orders, hpc, rfl, rfl⟩
  | change outcome h =>
    rw [h] at hpc
    obtain ⟨hevent, rfl, rfl⟩ := hpc
    refine ⟨?_, ?_, fun pc hnext => absurd hnext afterChange_next⟩
    · rcases changeStatus_fst orders _ .created .reserved outcome with hsame | hupdate
      · rw [hsame]
        exact OnlyReserves.refl orders
      · rw [hupdate]
        exact onlyReserves_updateOrderStatus _ orders
    · rcases changeStatus_fst orders _ .created .reserved outcome with hsame | hupdate
      · rw [hsame]
        exact .inl (statusChanges_self orders)
      · rw [hupdate]
        exact .inr ⟨_, hevent, oneReservation_updateOrderStatus hk _⟩

theorem Moves.orders {orders orders' : List Order} {r : RecordCalls π} {progress : Progress}
    (hm : Moves parse orders r orders' progress) (hr : RecordSound parse r) :
    orders' = orders ∨ ∃ event, eventOf parse r.payload = some event ∧
      orders' = updateOrderStatus .reserved event.orderId .created orders := by
  have hpc := hr.pc
  unfold PcSound at hpc
  cases hm with
  | call h => exact .inl rfl
  | find failure h => exact .inl rfl
  | change outcome h =>
    rw [h] at hpc
    obtain ⟨hevent, rfl, rfl⟩ := hpc
    rcases changeStatus_fst orders _ .created .reserved outcome with hsame | hupdate
    · exact .inl hsame
    · exact .inr ⟨_, hevent, hupdate⟩

theorem payload_advance (r : RecordCalls π) (changes : List StatusChange) (progress : Progress) :
    (r.advance changes progress).payload = r.payload := by
  cases progress <;> rfl

theorem RecordSound.advance {orders orders' : List Order} {r : RecordCalls π} {progress : Progress}
    (hr : RecordSound parse r) (hm : Moves parse orders r orders' progress) (hk : Keyed orders) :
    RecordSound parse (r.advance (statusChanges orders orders') progress) := by
  obtain ⟨-, hwritten, hnext⟩ := hm.spec hr hk
  cases progress with
  | next pc =>
    obtain ⟨hnone, hpc⟩ := hnext pc rfl
    refine ⟨hpc, ?_, hr.finished⟩
    simp only [RecordCalls.advance, hr.unwritten, hnone, List.append_nil]
  | ended reason =>
    refine ⟨trivial, rfl, ?_⟩
    intro call hcall
    rcases List.mem_append.mp hcall with hold | hnew
    · exact hr.finished call hold
    · obtain rfl := List.mem_singleton.mp hnew
      rw [hr.unwritten, List.nil_append]
      exact hwritten

theorem OnlyReserves.orderIds {before after : List Order} (h : OnlyReserves before after) :
    after.map Order.orderId = before.map Order.orderId := by
  induction h with
  | nil => rfl
  | cons hhead _ ih =>
    rw [List.map_cons, List.map_cons, ih]
    rcases hhead with rfl | ⟨-, rfl⟩ <;> rfl

theorem keyed_of_orderIds {before after : List Order} (h : after.map Order.orderId = before.map Order.orderId)
    (hk : Keyed before) : Keyed after := by
  refine ⟨map_orderKey h ▸ hk.1, ?_⟩
  intro o ho
  have hmem : o.orderId ∈ before.map Order.orderId := h ▸ List.mem_map_of_mem ho
  obtain ⟨old, hold, hid⟩ := List.mem_map.mp hmem
  exact hid ▸ hk.2 old hold

theorem keyed_concat {orders : List Order} {order : Order} {orderId : OrderId} (hk : Keyed orders)
    (hfresh : Uuid.ofId orderId ∉ orderKeys orders) : Keyed (orders ++ [order.assignId orderId]) := by
  constructor
  · rw [List.map_append, List.nodup_append]
    refine ⟨hk.1, List.nodup_singleton _, ?_⟩
    intro a ha b hb
    obtain rfl := List.mem_singleton.mp hb
    rintro rfl
    exact hfresh (mem_orderKeys.mpr ha)
  · intro o ho
    rcases List.mem_append.mp ho with ho | ho
    · exact hk.2 o ho
    · obtain rfl := List.mem_singleton.mp ho
      rfl

structure Sound (parse : π → Except ParseException Json) (s : State π) : Prop where
  keyed : Keyed s.orders
  records : ∀ r ∈ s.records, RecordSound parse r

theorem writeStatus_orderIds (s : State π) (orderId : OrderId) (status : OrderStatus) :
    (s.writeStatus orderId status).orders.map Order.orderId = s.orders.map Order.orderId := by
  unfold State.writeStatus
  rw [List.map_map]
  apply List.map_congr_left
  intro o _
  simp only [Function.comp_apply]
  split_ifs <;> rfl

theorem step_sound {s t : State π} {a : Action} (hs : Sound parse s) (h : s.step parse a = some t) :
    Sound parse t := by
  obtain ⟨orderId, status, -, rfl⟩ | ⟨order, orderId, -, hfresh, rfl⟩ | ⟨i, r, orders, progress, -, hr, rfl, hm⟩ :=
    State.step_cases h
  · exact ⟨keyed_of_orderIds (writeStatus_orderIds s orderId status) hs.keyed, hs.records⟩
  · exact ⟨keyed_concat hs.keyed hfresh, hs.records⟩
  · have hrecord := hs.records r (List.mem_of_getElem? hr)
    have hreserves := (hm.spec hrecord hs.keyed).1
    refine ⟨keyed_of_orderIds hreserves.orderIds hs.keyed, ?_⟩
    intro r' hr'
    rcases List.mem_or_eq_of_mem_set hr' with hold | rfl
    · exact hs.records r' hold
    · exact hrecord.advance hm hs.keyed

theorem sound_start (payloads : List π) : Sound parse (State.start payloads) := by
  refine ⟨⟨List.nodup_nil, fun o ho => by cases ho⟩, ?_⟩
  intro r hr
  obtain ⟨payload, -, rfl⟩ := List.mem_map.mp hr
  exact ⟨trivial, rfl, fun call hcall => by cases hcall⟩

theorem run_sound {payloads : List π} {actions : List Action} {s : State π}
    (h : run (State.step parse) (State.start payloads) actions = some s) : Sound parse s :=
  run_invariant (fun _ _ _ hi hstep => step_sound hi hstep) (sound_start payloads) h

end LiquidPetProject.OrderReservedHandler
