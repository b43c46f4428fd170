import LiquidPetProject.OrderPipelineConsistency
import LiquidPetProject.OrderServiceRuns

namespace LiquidPetProject.OrderService

open Models Http Repository Outbox OrderReservationHandler OrderPipeline Models2JsonMapper HttpServer Transitions

structure Reads (found : Order) (key : Uuid) (order : Order) : Prop where
  orderId : found.orderId = some key.toId
  userId : found.userId = (Uuid.ofId order.userId).toId
  items : found.items.Perm (order.items.map rowItem)
  status : found.status = .created ∨ found.status = .reserved

structure Contract (codec : TextCodec) (executions : List Execution) : Prop where
  created : ∀ e ∈ executions, e.response.status = .created → ∃ key order, e.Saves codec key order ∧
    e.response = ⟨.created, codec.dump (.object [(orderId, .string key.text)])⟩
  refused : ∀ e ∈ executions, e.response.status ≠ .created → e.response.status ≠ .internalServerError →
    e.after = e.before
  distinct : Throughout (fun before f => ∀ e ∈ before, ∀ key order order',
    e.Saves codec key order → ¬ f.Saves codec key order') executions
  served : Throughout (fun before f => ∀ e ∈ before, ∀ key order, e.Saves codec key order → f.Requests key →
    f.LosesDatabase ∨ ∃ found, f.Shows codec found ∧ Reads found key order) executions
  unknown : Throughout (fun before f => ∀ key, f.Requests key → (∀ e ∈ before, ∀ order, ¬ e.Saves codec key order) →
    f.LosesDatabase ∨ f.response = ⟨.notFound, RepositoryError.notFound.message⟩) executions
  settled : Throughout (fun before f => ∀ e ∈ before, ∀ key found, e.Requests key → e.Shows codec found →
    found.status = .reserved → f.Requests key →
      f.LosesDatabase ∨ ∃ again, f.Shows codec again ∧ again.status = .reserved) executions

variable {codec : TextCodec} {s : ServiceState} {e f : Execution} {before : List Execution}

theorem ServiceSound.entry (h : ServiceSound codec s) (he : e ∈ s.executions) :
    e.Answered codec ∧ e.before.Consistent := by
  obtain ⟨earlier, later, hsplit⟩ := List.append_of_mem he
  obtain ⟨hanswered, hexplains⟩ := h.earlier earlier e later hsplit
  exact ⟨hanswered, hexplains.consistent⟩

structure Ordered (codec : TextCodec) (e f : Execution) : Prop where
  first : e.Answered codec
  second : f.Answered codec
  consistent : e.before.Consistent
  evolves : OrderTables.Evolves codec.toCodec e.after f.before

theorem ServiceSound.throughout (h : ServiceSound codec s) :
    Throughout (fun before f => ∀ e ∈ before, Ordered codec e f) s.executions := by
  intro earlier f later hsplit e he
  have hmem : e ∈ s.executions := by
    rw [hsplit]
    exact List.mem_append_left _ he
  obtain ⟨hf, hexplains⟩ := h.earlier earlier f later hsplit
  obtain ⟨hanswered, hconsistent⟩ := h.entry hmem
  exact ⟨hanswered, hf, hconsistent, hexplains.evolved e he⟩

theorem Execution.Saves.status {key : Uuid} {order : Order} (h : e.Saves codec key order) :
    order.status = .created := by
  obtain ⟨-, -, ⟨bodyJson, -, horder⟩, -⟩ := h
  exact PipelineState.fromJson_status horder

theorem Execution.Saves.holds {key : Uuid} {order : Order} (h : e.Saves codec key order)
    (hconsistent : e.before.Consistent) :
    e.after.Holds key.toId [Uuid.ofId order.userId] (order.items.map (itemRow key)) := by
  obtain ⟨-, hkey, -, eventId, payload, createdAt, -, hafter⟩ := h
  rw [hafter]
  exact OrderTables.holds_save hconsistent hkey order (savedEvent key eventId payload createdAt)

theorem ServiceSound.holds (h : ServiceSound codec s) (he : e ∈ s.executions) {key : Uuid} {order : Order}
    (hsaves : e.Saves codec key order) :
    s.db.Holds key.toId [Uuid.ofId order.userId] (order.items.map (itemRow key)) :=
  (h.current.evolved e he).holds (hsaves.holds (h.entry he).2)

theorem Ordered.distinct {key : Uuid} {order order' : Order} (h : Ordered codec e f) (hsaves : e.Saves codec key order) :
    ¬ f.Saves codec key order' := by
  intro hagain
  exact hagain.2.1 (h.evolves.keys.subset hsaves.mem_keys)

theorem Ordered.served {key : Uuid} {order : Order} (h : Ordered codec e f) (hsaves : e.Saves codec key order)
    (hrequest : f.Requests key) :
    f.LosesDatabase ∨ ∃ found, f.Shows codec found ∧ Reads found key order := by
  have hmem := hsaves.mem_keys
  have hstatus := hsaves.status
  have hsaved := hsaves.holds h.consistent
  obtain ⟨-, hkey, -, eventId, payload, createdAt, -, hafter⟩ := hsaves
  rcases h.second.found hrequest with hlost | ⟨id, itemRows, hid, hrows, hshows, -⟩
  · exact .inl hlost
  · have hsame : Uuid.ofId (key.toId : OrderId) = Uuid.ofId id := (Uuid.ofId_toId key).trans hid.symm
    have hholds := OrderTables.holds_key hsame (h.evolves.holds hsaved)
    have hcreated : e.after.statusesOf id = ["Created"] := by
      rw [← OrderTables.statusesOf_key _ hsame, hafter, OrderTables.statusesOf_saved hkey, hstatus]
      rfl
    have hlater := (h.evolves.statusesOf (hid.symm ▸ hmem)).1 hcreated
    obtain ⟨status, hread, hnow⟩ : ∃ status : OrderStatus, (status = .created ∨ status = .reserved) ∧
        f.before.statusesOf id = [OrderStatusMapper.toString status] := by
      rcases hlater with hnow | hnow
      · exact ⟨.created, .inl rfl, hnow⟩
      · exact ⟨.reserved, .inr rfl, hnow⟩
    rw [← hid] at hholds
    obtain ⟨found, hfind, hfoundId, hfoundUser, hfoundItems, hfoundStatus⟩ :=
      OrderTables.findById_holds hholds order.nonempty hnow hrows
    rw [hid] at hfoundId
    exact .inr ⟨found, hshows found hfind, hfoundId, hfoundUser, hfoundItems, hfoundStatus ▸ hread⟩

theorem toString_of_fromString {value : String} {status : OrderStatus}
    (h : OrderStatusMapper.fromString value = .ok status) : value = OrderStatusMapper.toString status := by
  unfold OrderStatusMapper.fromString at h
  split_ifs at h with hcreated hreserved hshipped hcancelled
  all_goals
    obtain rfl := Except.ok.inj h
    assumption

theorem statusesOf_found {db : OrderTables String} {id : OrderId} {itemRows : List OrderItemRow} {found : Order}
    (h : db.findById id itemRows none = .ok found) :
    db.statusesOf id = [OrderStatusMapper.toString found.status] := by
  unfold OrderTables.findById at h
  unfold OrderTables.statusesOf
  cases hrows : db.selectOrder id with
  | nil =>
    rw [hrows] at h
    cases h
  | cons row rest =>
    cases rest with
    | cons second rest =>
      rw [hrows] at h
      cases h
    | nil =>
      simp only [hrows] at h
      obtain ⟨userId, -, h⟩ := Fallible.bind_ok.mp h
      obtain ⟨orderId, -, h⟩ := Fallible.bind_ok.mp h
      obtain ⟨status, hstatus, h⟩ := Fallible.bind_ok.mp h
      obtain ⟨items, -, h⟩ := Fallible.bind_ok.mp h
      unfold Order.restore at h
      split_ifs at h
      obtain rfl := Except.ok.inj h
      exact congrArg (fun value => [value]) (toString_of_fromString hstatus)

theorem mem_keys_of_found {db : OrderTables String} {id : OrderId} {itemRows : List OrderItemRow} {found : Order}
    (h : db.findById id itemRows none = .ok found) : Uuid.ofId id ∈ db.keys := by
  by_contra hkey
  rw [OrderTables.findById_missing hkey] at h
  cases h

theorem toString_injective {a b : OrderStatus} (h : OrderStatusMapper.toString a = OrderStatusMapper.toString b) :
    a = b := by
  have hread := OrderStatusMapper.fromString_toString a
  rw [h, OrderStatusMapper.fromString_toString] at hread
  exact (Except.ok.inj hread).symm

theorem Ordered.settled {key : Uuid} {found : Order} (h : Ordered codec e f) (hrequest : e.Requests key)
    (hshows : e.Shows codec found) (hreserved : found.status = .reserved) (id : OrderId) (hid : Uuid.ofId id = key) :
    f.before.statusesOf id = ["Reserved"] := by
  obtain ⟨hsame, requested, itemRows, failure, hrequested, hkey, -⟩ := h.first.requested hrequest
  obtain ⟨shown, rows, hshown, -, hfind, -⟩ := hshows
  rw [hrequested] at hshown
  obtain rfl := Except.ok.inj (Option.some.inj hshown)
  have hids : Uuid.ofId requested = Uuid.ofId id := hkey.trans hid.symm
  have hstatus : e.after.statusesOf id = ["Reserved"] := by
    rw [hsame, ← OrderTables.statusesOf_key _ hids, statusesOf_found hfind, hreserved]
    rfl
  have hmem : Uuid.ofId id ∈ e.after.keys := by
    rw [hsame, ← hids]
    exact mem_keys_of_found hfind
  exact (h.evolves.statusesOf hmem).2 hstatus

theorem Execution.Shows.mem_keys {key : Uuid} {found : Order} (h : e.Answered codec) (hrequest : e.Requests key)
    (hshows : e.Shows codec found) : key ∈ e.before.keys := by
  obtain ⟨-, requested, itemRows, failure, hrequested, hkey, -⟩ := h.requested hrequest
  obtain ⟨shown, rows, hshown, -, hfind, -⟩ := hshows
  rw [hrequested] at hshown
  obtain rfl := Except.ok.inj (Option.some.inj hshown)
  exact hkey ▸ mem_keys_of_found hfind

theorem ServiceSound.settled (h : ServiceSound codec s) :
    Throughout (fun before f => ∀ e ∈ before, ∀ key found, e.Requests key → e.Shows codec found →
      found.status = .reserved → f.Requests key →
        f.LosesDatabase ∨ ∃ again, f.Shows codec again ∧ again.status = .reserved) s.executions := by
  intro earlier f later hsplit e he key found hrequest hshows hreserved hagain
  have hpairs := h.throughout earlier f later hsplit
  obtain ⟨first, rest, rfl⟩ := List.append_of_mem he
  obtain ⟨hanswered, hexplains⟩ := h.earlier first e (rest ++ f :: later) (by rw [hsplit]; simp)
  obtain ⟨d, hd, order, hsaves⟩ := hexplains.saved key (hshows.mem_keys hanswered hrequest)
  rcases (hpairs d (List.mem_append_left _ hd)).served hsaves hagain with hlost | ⟨again, hshown, -⟩
  · exact .inl hlost
  · refine .inr ⟨again, hshown, ?_⟩
    obtain ⟨id, rows, hid, -, hfind, -⟩ := hshown
    obtain ⟨-, other, hother, hkey⟩ := hagain
    rw [hid] at hother
    obtain rfl := Except.ok.inj (Option.some.inj hother)
    have hstatus := (hpairs e he).settled hrequest hshows hreserved id hkey
    rw [statusesOf_found hfind] at hstatus
    exact toString_injective (List.cons.inj hstatus).1

theorem ServiceSound.contract (h : ServiceSound codec s) : Contract codec s.executions := by
  have hpairs := h.throughout
  constructor
  · intro e he hcreated
    rcases (h.entry he).1.effect with ⟨-, hother⟩ | ⟨key, order, hsaves, -, hresponse | ⟨text, hresponse⟩⟩
    · exact absurd hcreated hother
    · exact ⟨key, order, hsaves, hresponse⟩
    · rw [hresponse] at hcreated
      cases hcreated
  · intro e he hcreated hfailed
    rcases (h.entry he).1.effect with ⟨hsame, -⟩ | ⟨key, order, -, -, hresponse | ⟨text, hresponse⟩⟩
    · exact hsame
    · rw [hresponse] at hcreated
      exact absurd rfl hcreated
    · rw [hresponse] at hfailed
      exact absurd rfl hfailed
  · intro earlier f later hsplit e he key order order' hsaves
    exact (hpairs earlier f later hsplit e he).distinct hsaves
  · intro earlier f later hsplit e he key order hsaves hrequest
    exact (hpairs earlier f later hsplit e he).served hsaves hrequest
  · intro earlier f later hsplit key hrequest hnone
    obtain ⟨hf, hexplains⟩ := h.earlier earlier f later hsplit
    rcases hf.found hrequest with hlost | ⟨id, itemRows, hid, -, -, hmissing⟩
    · exact .inl hlost
    · have hkey : Uuid.ofId id ∉ f.before.keys := by
        rw [hid]
        intro hmem
        obtain ⟨e, he, order, hsaves⟩ := hexplains.saved key hmem
        exact hnone e he order hsaves
      exact .inr (hmissing (OrderTables.findById_missing hkey itemRows))
  · exact h.settled

def quoted (text : String) : String := "\"" ++ text ++ "\""

def sortedByKey (members : List (String × String)) : List (String × String) :=
  members.insertionSort (fun a b => a.1 ≤ b.1)

mutual

def dumpText : Json → String
  | .null => "null"
  | .boolean b => if b then "true" else "false"
  | .numberUnsigned n => toString n.toNat
  | .numberInteger z => toString z.toInt
  | .numberFloat q => toString q.num
  | .string s => quoted s
  | .array elements => "[" ++ ",".intercalate (dumpElements elements) ++ "]"
  | .object members =>
    "\x7b" ++ ",".intercalate ((sortedByKey (dumpMembers members)).map (fun m => quoted m.1 ++ ":" ++ m.2)) ++ "\x7d"

def dumpElements : List Json → List String
  | [] => []
  | json :: rest => dumpText json :: dumpElements rest

def dumpMembers : List (String × Json) → List (String × String)
  | [] => []
  | (key, json) :: rest => (key, dumpText json) :: dumpMembers rest

end

@[irreducible] def bodyText : String := dumpText drainedBody

def sampleCodec : TextCodec where
  parse text := if text = bodyText then .ok drainedBody else .error .parseError
  store json := some (dumpText json)
  unrepresentable T _ := T.cast 0
  dump := dumpText

def sampleKey : Uuid := ⟨drainedOrderId.value, by decide, by decide⟩

theorem drainedBody_accepted :
    ((OrderJsonMapper.fromJson sampleCodec.unrepresentable drainedBody).toOption).isSome = true := by decide +kernel

def placedOrder : Order := (OrderJsonMapper.fromJson sampleCodec.unrepresentable drainedBody).toOption.get drainedBody_accepted

def sampleItems : List OrderItemRow := placedOrder.items.map (itemRow sampleKey)

def sampleTables : OrderTables String :=
  OrderTables.empty.withOrder placedOrder sampleKey
    (savedEvent sampleKey drainedEventId (dumpText (OrderJsonMapper.toJson (placedOrder.assignId sampleKey.toId))) 0)

@[irreducible] def createdText : String := dumpText (.object [(orderId, .string sampleKey.text)])

def createRequest : Request := ⟨.post, Paths.orders, bodyText⟩

theorem handle_createRequest :
    CreateOrderHandler.handle sampleCodec .empty createRequest sampleKey drainedEventId 0 .committed =
      (sampleTables, .returned ⟨.created, createdText⟩) := by
  have horder : OrderJsonMapper.fromJson sampleCodec.unrepresentable drainedBody = .ok placedOrder := by decide +kernel
  have hkey : sampleKey ∉ (OrderTables.empty : OrderTables String).keys := List.not_mem_nil
  unfold createdText
  exact create_fresh (if_pos rfl) horder hkey rfl List.not_mem_nil 0

end LiquidPetProject.OrderService
