import LiquidPetProject.OrderServiceSteps

namespace LiquidPetProject.OrderService

open Models Http Repository Outbox OrderReservationHandler Models2JsonMapper HttpServer Transitions

def savedEvent (key : Uuid) (eventId : OutboxEventId) (payload : String) (createdAt : ℤ) : OutboxRow String :=
  insertOutboxEvent ⟨eventId, key.text, "OrderCreated", payload⟩ createdAt

namespace Execution

def Answered (codec : TextCodec) (e : Execution) : Prop :=
  findHandler buildRoutes e.request.method e.request.path = e.handler ∧
    match e.handler with
    | none => e.after = e.before ∧ e.response = { status := .notFound }
    | some handler => ∃ answer, handler.handle codec e.before e.request e.reply = some (e.after, answer) ∧
        e.response = handlerResponse answer

def Saves (codec : TextCodec) (e : Execution) (key : Uuid) (order : Order) : Prop :=
  e.handler = some .create ∧ key ∉ e.before.keys ∧
    (∃ bodyJson, codec.parse e.request.body = .ok bodyJson ∧
      OrderJsonMapper.fromJson codec.unrepresentable bodyJson = .ok order) ∧
    ∃ eventId payload createdAt, codec.store (OrderJsonMapper.toJson (order.assignId key.toId)) = some payload ∧
      e.after = e.before.withOrder order key (savedEvent key eventId payload createdAt)

def Requests (e : Execution) (key : Uuid) : Prop :=
  e.handler = some .get ∧ ∃ id, GetOrderHandler.requestedId e.request.path = some (.ok id) ∧ Uuid.ofId id = key

def Shows (codec : TextCodec) (e : Execution) (found : Order) : Prop :=
  ∃ id rows, GetOrderHandler.requestedId e.request.path = some (.ok id) ∧ e.reply = .find rows none ∧
    e.before.findById id rows none = .ok found ∧
    e.response = ⟨.ok, codec.dump (OrderJsonMapper.toJson found)⟩

def LosesDatabase (e : Execution) : Prop :=
  ∃ itemRows failure, e.reply = .find itemRows (some failure) ∧
    e.response = ⟨.internalServerError, (mapPqxxException failure).message⟩

end Execution

theorem save_cases {codec : TextCodec} {db after : OrderTables String} {order : Order} {generated : Uuid}
    {eventId : OutboxEventId} {createdAt : ℤ} {outcome : CommitOutcome} {answer : Except ErrorCode OrderId}
    (h : db.save codec.toCodec order generated eventId createdAt outcome = (after, answer)) :
    (after = db ∧ ∃ e, answer = .error e) ∨
      generated ∉ db.keys ∧ (answer = .ok generated.toId ∨ ∃ e, answer = .error e) ∧
        ∃ payload, codec.store (OrderJsonMapper.toJson (order.assignId generated.toId)) = some payload ∧
          after = db.withOrder order generated (savedEvent generated eventId payload createdAt) := by
  unfold OrderTables.save OrderTables.saveStatements at h
  by_cases hkey : generated ∈ db.keys
  · rw [insertOrder_duplicate hkey] at h
    obtain ⟨rfl, rfl⟩ := Prod.mk.inj h
    exact .inl ⟨rfl, _, rfl⟩
  · rw [insertOrder_eq hkey] at h
    simp only [insertItems_eq (List.mem_cons_self), Uuid.create_text] at h
    cases hstore : codec.store (OrderJsonMapper.toJson (order.assignId generated.toId)) with
    | none =>
      rw [hstore] at h
      obtain ⟨rfl, rfl⟩ := Prod.mk.inj h
      exact .inl ⟨rfl, _, rfl⟩
    | some payload =>
      simp only [hstore] at h
      split_ifs at h with hevent
      · obtain ⟨rfl, rfl⟩ := Prod.mk.inj h
        exact .inl ⟨rfl, _, rfl⟩
      · cases outcome with
        | committed =>
          obtain ⟨rfl, rfl⟩ := Prod.mk.inj h
          exact .inr ⟨hkey, .inl rfl, payload, rfl, rfl⟩
        | failed e =>
          obtain ⟨rfl, rfl⟩ := Prod.mk.inj h
          exact .inl ⟨rfl, _, rfl⟩
        | inDoubt e =>
          obtain ⟨rfl, rfl⟩ := Prod.mk.inj h
          exact .inr ⟨hkey, .inr ⟨_, rfl⟩, payload, rfl, rfl⟩

inductive CreateOutcome (codec : TextCodec) (db after : OrderTables String) (request : Request)
    (generated : Uuid) (eventId : OutboxEventId) (createdAt : ℤ) : Response → Prop
  | rejected {text : String} (h : after = db)
      (hbody : ∀ bodyJson order, codec.parse request.body = .ok bodyJson →
        OrderJsonMapper.fromJson codec.unrepresentable bodyJson ≠ .ok order) :
      CreateOutcome codec db after request generated eventId createdAt ⟨.badRequest, text⟩
  | failed {text : String} (h : after = db) :
      CreateOutcome codec db after request generated eventId createdAt ⟨.internalServerError, text⟩
  | saved {bodyJson : Json} {order : Order} {payload : String} {response : Response}
      (hbody : codec.parse request.body = .ok bodyJson)
      (horder : OrderJsonMapper.fromJson codec.unrepresentable bodyJson = .ok order) (hkey : generated ∉ db.keys)
      (hstore : codec.store (OrderJsonMapper.toJson (order.assignId generated.toId)) = some payload)
      (hafter : after = db.withOrder order generated (savedEvent generated eventId payload createdAt))
      (hwritten : OrderTables.Written codec.toCodec db after)
      (hresponse : response = ⟨.created, codec.dump (.object [(orderId, .string generated.text)])⟩ ∨
        ∃ text, response = ⟨.internalServerError, text⟩) :
      CreateOutcome codec db after request generated eventId createdAt response

theorem create_outcome {codec : TextCodec} {db after : OrderTables String} {request : Request} {generated : Uuid}
    {eventId : OutboxEventId} {createdAt : ℤ} {outcome : CommitOutcome} {answer : HandlerAnswer}
    (h : CreateOrderHandler.handle codec db request generated eventId createdAt outcome = (after, answer)) :
    CreateOutcome codec db after request generated eventId createdAt (handlerResponse answer) := by
  unfold CreateOrderHandler.handle at h
  cases hbody : codec.parse request.body with
  | error e =>
    rw [hbody] at h
    cases e with
    | parseError =>
      obtain ⟨rfl, rfl⟩ := Prod.mk.inj h
      refine .rejected rfl (fun bodyJson order hparse => ?_)
      rw [hbody] at hparse
      cases hparse
    | outOfRange =>
      obtain ⟨rfl, rfl⟩ := Prod.mk.inj h
      exact .failed rfl
  | ok bodyJson =>
    simp only [hbody] at h
    cases horder : OrderJsonMapper.fromJson codec.unrepresentable bodyJson with
    | error e =>
      rw [horder] at h
      obtain ⟨rfl, rfl⟩ := Prod.mk.inj h
      refine .rejected rfl (fun other order hparse hother => ?_)
      rw [hbody] at hparse
      obtain rfl := Except.ok.inj hparse
      rw [horder] at hother
      cases hother
    | ok order =>
      simp only [horder] at h
      cases hsave : db.save codec.toCodec order generated eventId createdAt outcome with
      | mk saved result =>
        rw [hsave] at h
        have hwritten : OrderTables.Written codec.toCodec db saved :=
          ⟨.save order generated eventId createdAt outcome, OrderPipeline.PipelineState.fromJson_status horder,
            (congrArg Prod.fst hsave).symm⟩
        rcases save_cases hsave with ⟨rfl, e, rfl⟩ | ⟨hkey, hresult, payload, hstore, rfl⟩
        · obtain ⟨rfl, rfl⟩ := Prod.mk.inj h
          exact .failed rfl
        · rcases hresult with rfl | ⟨e, rfl⟩
          · obtain ⟨rfl, rfl⟩ := Prod.mk.inj h
            exact .saved hbody horder hkey hstore rfl hwritten (.inl rfl)
          · obtain ⟨rfl, rfl⟩ := Prod.mk.inj h
            exact .saved hbody horder hkey hstore rfl hwritten (.inr ⟨_, rfl⟩)

theorem create_fresh {codec : TextCodec} {db : OrderTables String} {request : Request} {bodyJson : Json} {order : Order}
    {generated : Uuid} {eventId : OutboxEventId} {payload : String} (hbody : codec.parse request.body = .ok bodyJson)
    (horder : OrderJsonMapper.fromJson codec.unrepresentable bodyJson = .ok order) (hkey : generated ∉ db.keys)
    (hstore : codec.store (OrderJsonMapper.toJson (order.assignId generated.toId)) = some payload)
    (hevent : Uuid.ofId eventId ∉ rowKeys db.outbox) (createdAt : ℤ) :
    CreateOrderHandler.handle codec db request generated eventId createdAt .committed =
      (db.withOrder order generated (savedEvent generated eventId payload createdAt),
        .returned ⟨.created, codec.dump (.object [(orderId, .string generated.text)])⟩) := by
  have hsave := OrderTables.save_fresh hkey hstore hevent createdAt
  unfold CreateOrderHandler.handle
  simp only [hbody, horder, hsave]
  rfl

theorem handle_cases {codec : TextCodec} {db after : OrderTables String} {request : Request} {handler : OrderHandler}
    {reply : DatabaseReply} {answer : HandlerAnswer} (h : handler.handle codec db request reply = some (after, answer)) :
    (handler = .create ∧ ∃ generated eventId createdAt outcome, reply = .save generated eventId createdAt outcome ∧
      CreateOrderHandler.handle codec db request generated eventId createdAt outcome = (after, answer)) ∨
    (handler = .get ∧ after = db ∧ ∃ itemRows failure, reply = .find itemRows failure ∧
      GetOrderHandler.rowsFit db request itemRows ∧
      answer = GetOrderHandler.handle codec db request itemRows failure) ∨
    (handler = .health ∧ after = db ∧ answer = .returned ⟨.ok, "OK"⟩) := by
  unfold OrderHandler.handle at h
  split at h
  · exact .inl ⟨rfl, _, _, _, _, rfl, Option.some.inj h⟩
  · split_ifs at h with hfit
    obtain ⟨rfl, rfl⟩ := Prod.mk.inj (Option.some.inj h)
    exact .inr (.inl ⟨rfl, rfl, _, _, rfl, hfit, rfl⟩)
  · obtain ⟨rfl, rfl⟩ := Prod.mk.inj (Option.some.inj h)
    exact .inr (.inr ⟨rfl, rfl, rfl⟩)
  · cases h

theorem get_status (codec : TextCodec) (db : OrderTables String) (request : Request) (itemRows : List OrderItemRow)
    (failure : Option PqxxException) :
    (handlerResponse (GetOrderHandler.handle codec db request itemRows failure)).status ≠ .created := by
  unfold GetOrderHandler.handle
  split
  · decide
  · exact (by decide : Status.badRequest ≠ .created)
  · split
    · split_ifs
      · exact (by decide : Status.notFound ≠ .created)
      · exact (by decide : Status.internalServerError ≠ .created)
    · exact (by decide : Status.ok ≠ .created)

namespace Execution

variable {codec : TextCodec} {e f : Execution}

theorem Answered.handled {handler : OrderHandler} (h : e.Answered codec) (hhandler : e.handler = some handler) :
    ∃ answer, handler.handle codec e.before e.request e.reply = some (e.after, answer) ∧
      e.response = handlerResponse answer := by
  have h := h.2
  rwa [hhandler] at h

theorem Answered.effect (h : e.Answered codec) :
    (e.after = e.before ∧ e.response.status ≠ .created) ∨
      ∃ key order, e.Saves codec key order ∧ OrderTables.Written codec.toCodec e.before e.after ∧
        (e.response = ⟨.created, codec.dump (.object [(orderId, .string key.text)])⟩ ∨
          ∃ text, e.response = ⟨.internalServerError, text⟩) := by
  cases hhandler : e.handler with
  | none =>
    have h := h.2
    rw [hhandler] at h
    refine .inl ⟨h.1, ?_⟩
    rw [h.2]
    decide
  | some handler =>
    obtain ⟨answer, hhandle, hresponse⟩ := h.handled hhandler
    rcases handle_cases hhandle with
      ⟨rfl, generated, eventId, createdAt, outcome, -, hcreate⟩ | ⟨-, hafter, itemRows, failure, -, -, rfl⟩ |
        ⟨-, hafter, rfl⟩
    · have houtcome := create_outcome hcreate
      rw [← hresponse] at houtcome
      generalize hresult : e.response = response at houtcome
      cases houtcome with
      | rejected hafter hbody => exact .inl ⟨hafter, (by decide : Status.badRequest ≠ .created)⟩
      | failed hafter => exact .inl ⟨hafter, (by decide : Status.internalServerError ≠ .created)⟩
      | saved hbody horder hkey hstore hafter hwritten hanswer =>
        exact .inr ⟨generated, _, ⟨hhandler, hkey, ⟨_, hbody, horder⟩, _, _, _, hstore, hafter⟩, hwritten, hanswer⟩
    · refine .inl ⟨hafter, ?_⟩
      rw [hresponse]
      exact get_status codec _ _ _ _
    · refine .inl ⟨hafter, ?_⟩
      rw [hresponse]
      exact (by decide : Status.ok ≠ .created)

theorem Answered.evolves (h : e.Answered codec) : OrderTables.Evolves codec.toCodec e.before e.after := by
  rcases h.effect with ⟨hsame, -⟩ | ⟨key, order, -, hwritten, -⟩
  · rw [hsame]
    exact OrderTables.Evolves.refl _
  · exact hwritten.evolves

theorem Answered.refused (he : e.Answered codec) (hf : f.Answered codec) (hsame : e.request = f.request)
    (hcreated : f.response.status ≠ .created) (hfailed : f.response.status ≠ .internalServerError) {key : Uuid}
    {order : Order} : ¬ e.Saves codec key order := by
  rintro ⟨hhandler, -, ⟨bodyJson, hparse, horder⟩, -⟩
  have hcreate : f.handler = some .create := by
    rw [← hf.1, ← hsame, he.1, hhandler]
  obtain ⟨answer, hhandle, hresponse⟩ := hf.handled hcreate
  rcases handle_cases hhandle with ⟨-, generated, eventId, createdAt, outcome, -, hcall⟩ | ⟨hother, -⟩ | ⟨hother, -⟩
  · have houtcome := create_outcome hcall
    rw [← hresponse] at houtcome
    generalize f.response = response at houtcome hcreated hfailed
    cases houtcome with
    | rejected hafter hbody =>
      rw [hsame] at hparse
      exact hbody bodyJson order hparse horder
    | failed hafter => exact hfailed rfl
    | saved hbody' horder' hkey hstore hafter hwritten hanswer =>
      rcases hanswer with rfl | ⟨text, rfl⟩
      · exact hcreated rfl
      · exact hfailed rfl
  · cases hother
  · cases hother

theorem Saves.mem_keys {key : Uuid} {order : Order} (h : e.Saves codec key order) : key ∈ e.after.keys := by
  obtain ⟨-, -, -, eventId, payload, createdAt, -, hafter⟩ := h
  rw [hafter, OrderTables.keys_withOrder]
  exact List.mem_append_right _ (List.mem_singleton_self key)

theorem Answered.requested {key : Uuid} (h : e.Answered codec) (hrequest : e.Requests key) :
    e.after = e.before ∧ ∃ id itemRows failure, GetOrderHandler.requestedId e.request.path = some (.ok id) ∧
      Uuid.ofId id = key ∧ e.reply = .find itemRows failure ∧ itemRows.Perm (e.before.selectOrderItems id) ∧
      e.response = handlerResponse (GetOrderHandler.handle codec e.before e.request itemRows failure) := by
  obtain ⟨hhandler, id, hid, hkey⟩ := hrequest
  obtain ⟨answer, hhandle, hresponse⟩ := h.handled hhandler
  rcases handle_cases hhandle with ⟨hother, -⟩ | ⟨-, hafter, itemRows, failure, hreply, hfit, rfl⟩ | ⟨hother, -⟩
  · cases hother
  · unfold GetOrderHandler.rowsFit at hfit
    rw [hid] at hfit
    exact ⟨hafter, id, itemRows, failure, hid, hkey, hreply, List.isPerm_iff.mp hfit, hresponse⟩
  · cases hother

theorem Answered.found {key : Uuid} (h : e.Answered codec) (hrequest : e.Requests key) :
    e.LosesDatabase ∨ ∃ id itemRows, Uuid.ofId id = key ∧ itemRows.Perm (e.before.selectOrderItems id) ∧
      (∀ found, e.before.findById id itemRows none = .ok found → e.Shows codec found) ∧
      (e.before.findById id itemRows none = .error (.repository .notFound) →
        e.response = ⟨.notFound, RepositoryError.notFound.message⟩) := by
  obtain ⟨-, id, itemRows, failure, hid, hkey, hreply, hrows, hresponse⟩ := h.requested hrequest
  unfold GetOrderHandler.handle at hresponse
  simp only [hid] at hresponse
  cases failure with
  | some thrown =>
    have hfind : e.before.findById id itemRows (some thrown) = .error (mapPqxxException thrown) := rfl
    rw [hfind] at hresponse
    dsimp only at hresponse
    rw [if_neg (mapPqxxException_ne_notFound thrown)] at hresponse
    exact .inl ⟨itemRows, thrown, hreply, hresponse⟩
  | none =>
    refine .inr ⟨id, itemRows, hkey, hrows, ?_, ?_⟩
    · intro found hfind
      rw [hfind] at hresponse
      exact ⟨id, itemRows, hid, hreply, hfind, hresponse⟩
    · intro hfind
      rw [hfind] at hresponse
      exact hresponse

end Execution

end LiquidPetProject.OrderService
