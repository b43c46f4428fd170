import LiquidPetProject.OrderServiceContract
import LiquidPetProject.OrderSystemSteps

namespace LiquidPetProject.EndToEnd

open Models Http HttpServer Gateway ProxyHandler OrderService Repository Outbox OrderPipeline Models2JsonMapper Transitions

structure ClientContract (codec : TextCodec) (services : Services) (s : OrderSystem) : Prop where
  answered : ∀ (i : ℕ) request response, s.gateway.requests[i]? = some (request, .returned response) →
    (∃ e ∈ s.service.executions, e.sender = i ∧ e.request = request ∧ e.response = response) ∨
      ∃ status, response = { status := status } ∧ OwnAnswer services request status
  executed : ∀ e ∈ s.service.executions, s.gateway.Asked e.sender e.request
  twice : ∀ i, (executionsOf i s.service.executions).length ≤ 2
  created : ∀ (i : ℕ) request body, s.gateway.requests[i]? = some (request, .returned ⟨.created, body⟩) →
    ∃ e ∈ s.service.executions, e.sender = i ∧ e.request = request ∧ ∃ key order, e.Saves codec key order ∧
      body = codec.dump (.object [(orderId, .string key.text)])
  refused : ∀ (i : ℕ) request response, s.gateway.requests[i]? = some (request, .returned response) →
    response.status ≠ .created → response.status ≠ .internalServerError → response.status ≠ .badGateway →
      ∀ e ∈ s.service.executions, e.sender = i → ∀ key order, ¬ e.Saves codec key order

variable {codec : TextCodec} {services : Services} {s t : OrderSystem} {i : ℕ} {request : Request} {response : Response}

theorem SystemSound.answered (h : SystemSound codec services s)
    (hi : s.gateway.requests[i]? = some (request, .returned response)) :
    (∃ e ∈ s.service.executions, e.sender = i ∧ e.request = request ∧ e.response = response) ∨
      ∃ status, response = { status := status } ∧ OwnAnswer services request status := by
  rcases h.gateway.disciplined.requests i request _ hi with ⟨x, r, hreceived, rfl⟩ | ⟨status, rfl, hanswered⟩
  · obtain ⟨e, he, rfl, hresponse⟩ := h.linked.received i x r hreceived
    exact .inl ⟨e, he, rfl, asked_unique (h.linked.executions e he) ⟨_, hi⟩, hresponse⟩
  · obtain ⟨asked, hasked, hown⟩ := h.gateway.own i status hanswered
    obtain rfl := asked_unique hasked ⟨_, hi⟩
    exact .inr ⟨status, rfl, hown⟩

theorem SystemSound.badGateway (h : SystemSound codec services s) {e : Execution} (he : e ∈ s.service.executions)
    {status : Status} (hown : OwnAnswer services e.request status) : status = .badGateway := by
  have hcounted := h.linked.counted e.sender
  have hmem : e ∈ executionsOf e.sender s.service.executions := List.mem_filter.mpr ⟨he, by simp⟩
  have hpos := List.length_pos_of_mem hmem
  have hwritten : exchanges e.sender s.gateway.history ≠ [] := by
    intro hnone
    rw [hnone, List.length_nil] at hcounted
    omega
  obtain ⟨entry, hmethod, hroute⟩ := h.gateway.chosen hwritten (h.linked.executions e he)
  rcases hown with ⟨-, hunknown⟩ | ⟨-, hunmatched⟩ | hbad
  · exact absurd hunknown hmethod
  · cases hroute.symm.trans hunmatched.2
  · exact hbad

theorem SystemSound.contract (h : SystemSound codec services s) : ClientContract codec services s := by
  constructor
  · exact fun i request response hi => h.answered hi
  · exact h.linked.executions
  · intro i
    have hcounted := h.linked.counted i
    have htwo := exchanges_le_two h.gateway.disciplined.events i
    omega
  · intro i request body hi
    rcases h.answered hi with ⟨e, he, hsender, hrequest, hresponse⟩ | ⟨status, hresponse, hown⟩
    · have hcreated : e.response.status = .created := by rw [hresponse]
      obtain ⟨key, order, hsaves, hsaved⟩ := h.service.contract.created e he hcreated
      rw [hresponse] at hsaved
      exact ⟨e, he, hsender, hrequest, key, order, hsaves, congrArg Response.body hsaved⟩
    · have hstatus := congrArg Response.status hresponse
      rcases hown with ⟨rfl, -⟩ | ⟨rfl, -⟩ | rfl
      all_goals cases hstatus
  · intro i request response hi hcreated hfailed hbad e he hsender key order
    have hrequest : e.request = request := by
      apply asked_unique (h.linked.executions e he)
      rw [hsender]
      exact ⟨_, hi⟩
    rcases h.answered hi with ⟨f, hf, -, hsame, hresponse⟩ | ⟨status, hresponse, hown⟩
    · rw [← hresponse] at hcreated hfailed
      exact (h.service.entry he).1.refused (h.service.entry hf).1 (hrequest.trans hsame.symm) hcreated hfailed
    · rw [← hrequest] at hown
      rw [hresponse] at hbad
      exact absurd (h.badGateway he hown) hbad

/-- For every interleaving of the calls, the network, the sessions and the database: a call of the gateway gets the
response that the order service gave to its own request, or an answer of the gateway itself; nothing is executed that
was not asked, and no request more than twice. -/
theorem client_contract {actions : List SystemAction} (h : run (OrderSystem.step codec services) {} actions = some s) :
    ClientContract codec services s :=
  ((SystemSound.start codec services).run h).contract

theorem system_moves {a : SystemAction} (h : s.step codec services a = some t) :
    (t.gateway = s.gateway ∨ ∃ b, (∀ request, b = .handle request → a = .gateway b) ∧
      s.gateway.step services b = some t.gateway) ∧
    (t.service = s.service ∨ ∃ b, (a.readsTables = true → b.readsTables = true) ∧
      s.service.step codec b = some t.service) := by
  cases a with
  | gateway a =>
    simp only [OrderSystem.step] at h
    split_ifs at h
    obtain ⟨g', hg, rfl⟩ := Option.map_eq_some_iff.mp h
    exact ⟨.inr ⟨a, fun _ _ => rfl, hg⟩, .inl rfl⟩
  | connect i =>
    obtain ⟨g', hg, h⟩ := Option.bind_eq_some_iff.mp h
    obtain ⟨service, hservice, rfl⟩ := Option.map_eq_some_iff.mp h
    exact ⟨.inr ⟨_, by simp, hg⟩, .inr ⟨_, fun _ => rfl, hservice⟩⟩
  | send i =>
    simp only [OrderSystem.step, OrderSystem.sendStep] at h
    split at h
    · obtain ⟨c, -, h⟩ := Option.bind_eq_some_iff.mp h
      obtain ⟨g', hg, rfl⟩ := Option.map_eq_some_iff.mp h
      exact ⟨.inr ⟨_, by simp, hg⟩, .inl rfl⟩
    · cases h
  | receive i =>
    simp only [OrderSystem.step, OrderSystem.receiveStep] at h
    split at h
    · obtain ⟨c, -, h⟩ := Option.bind_eq_some_iff.mp h
      split at h
      · cases h
      · obtain ⟨g', hg, rfl⟩ := Option.map_eq_some_iff.mp h
        exact ⟨.inr ⟨_, by simp, hg⟩, .inl rfl⟩
    · cases h
  | read k =>
    obtain ⟨c, -, h⟩ := Option.bind_eq_some_iff.mp h
    split at h
    · cases h
    · obtain ⟨service, hservice, rfl⟩ := Option.map_eq_some_iff.mp h
      exact ⟨.inl rfl, .inr ⟨_, fun _ => rfl, hservice⟩⟩
  | handle k reply =>
    obtain ⟨service, hservice, rfl⟩ := Option.map_eq_some_iff.mp h
    exact ⟨.inl rfl, .inr ⟨.handle k reply, by cases reply <;> exact id, hservice⟩⟩
  | written k =>
    simp only [OrderSystem.step, OrderSystem.writtenStep] at h
    split at h
    · obtain ⟨c, -, h⟩ := Option.bind_eq_some_iff.mp h
      obtain ⟨service, hservice, rfl⟩ := Option.map_eq_some_iff.mp h
      exact ⟨.inl rfl, .inr ⟨_, fun _ => rfl, hservice⟩⟩
    · cases h
  | failed k =>
    obtain ⟨service, hservice, rfl⟩ := Option.map_eq_some_iff.mp h
    exact ⟨.inl rfl, .inr ⟨_, fun _ => rfl, hservice⟩⟩
  | reserve id outcome =>
    obtain rfl := Option.some.inj h
    exact ⟨.inl rfl, .inr ⟨.reserve id outcome, fun hreads => hreads, rfl⟩⟩

theorem executions_prefix {actions : List SystemAction} (hs : SystemSound codec services s)
    (h : run (OrderSystem.step codec services) s actions = some t) : s.service.executions <+: t.service.executions := by
  refine run_relates (I := SystemSound codec services) (R := fun u v => u.service.executions <+: v.service.executions)
    (fun u => List.prefix_refl _) (fun u v w => List.IsPrefix.trans) (fun u a v hu hstep => hu.step hstep) ?_ hs h
  intro u a v hu hstep
  rcases (system_moves hstep).2 with hsame | ⟨b, -, hb⟩
  · rw [hsame]
  · cases hv : v.service
    rw [hv] at hb
    cases ServiceState.step_effect hu.service.routed hb with
    | moved sessions hrouted => exact List.prefix_refl _
    | answered sessions e hrouted hbefore he => exact List.prefix_append _ _
    | reserved id outcome => exact List.prefix_refl _

theorem isPrefixOf_append (a b : List Char) : a.isPrefixOf (a ++ b) = true :=
  List.isPrefixOf_iff_prefix.mpr (List.prefix_append a b)

def orderPath (key : Uuid) : String := Paths.ordersPrefix ++ key.text

theorem orderPath_toList (key : Uuid) : (orderPath key).toList = Paths.ordersPrefix.toList ++ key.text.toList :=
  String.toList_append

theorem findHandler_orderPath (key : Uuid) : findHandler buildRoutes .get (orderPath key) = some .get := by
  unfold findHandler buildRoutes
  rw [orderPath_toList]
  have hstarts := isPrefixOf_append Paths.ordersPrefix.toList key.text.toList
  simp [hstarts]

theorem requestedId_orderPath (key : Uuid) : GetOrderHandler.requestedId (orderPath key) = some (.ok key.toId) := by
  have hsubstr : GetOrderHandler.substr (orderPath key) Paths.ordersPrefix.length = some key.text := by
    unfold GetOrderHandler.substr
    have hlength : Paths.ordersPrefix.length ≤ (orderPath key).length := by
      unfold orderPath
      rw [String.length_append]
      exact Nat.le_add_right _ _
    rw [if_pos hlength, orderPath_toList, ← String.length_toList, List.drop_left, String.ofList_toList]
  unfold GetOrderHandler.requestedId
  rw [hsubstr, Option.map_some, Uuid.create_text]

theorem route_orderPath (config : UpstreamConfiguration) (key : Uuid) (body : String) :
    (gatewayServices config).route ⟨.get, orderPath key, body⟩ = some ("/orders", config) := by
  have hpath : (orderPath key).toList = "/orders".toList ++ ("/".toList ++ key.text.toList) := by
    rw [orderPath_toList, ← List.append_assoc]
    rfl
  have hstarts : "/orders".toList.isPrefixOf (orderPath key).toList = true := by
    rw [hpath]
    exact isPrefixOf_append _ _
  unfold Services.route gatewayServices
  exact List.find?_cons_of_pos hstarts

theorem asked_lt (h : s.gateway.Asked i request) : i < s.gateway.requests.length := by
  obtain ⟨pc, hi⟩ := h
  exact (List.getElem?_eq_some_iff.mp hi).1

theorem SystemSound.later_get {config : UpstreamConfiguration} (hs : SystemSound codec (gatewayServices config) s)
    (ht : SystemSound codec (gatewayServices config) t) {added : List Execution}
    (hadded : t.service.executions = s.service.executions ++ added) {key : Uuid} {k : ℕ} {getBody : String}
    (hk : s.gateway.requests.length ≤ k)
    (hreturned : t.gateway.requests[k]? = some (⟨.get, orderPath key, getBody⟩, .returned response)) :
    response = { status := .badGateway } ∨
      ∃ between f after, added = between ++ f :: after ∧ f.Requests key ∧ f.response = response := by
  rcases ht.answered hreturned with ⟨f, hf, hsender, hasked, hresponse⟩ | ⟨status, rfl, hown⟩
  · have hnew : f ∈ added := by
      rw [hadded] at hf
      rcases List.mem_append.mp hf with hold | hnew
      · have hlt := asked_lt (hs.linked.executions f hold)
        rw [hsender] at hlt
        omega
      · exact hnew
    obtain ⟨between, after, hsplit⟩ := List.append_of_mem hnew
    refine .inr ⟨between, f, after, hsplit, ?_, hresponse⟩
    refine ⟨?_, key.toId, ?_, Uuid.ofId_toId key⟩
    · have hrouted := (ht.service.entry hf).1.1
      rw [hasked] at hrouted
      exact hrouted.symm.trans (findHandler_orderPath key)
    · rw [hasked]
      exact requestedId_orderPath key
  · rcases hown with ⟨-, hunknown⟩ | ⟨-, hunmatched⟩ | rfl
    · cases hunknown
    · cases (route_orderPath config key getBody).symm.trans hunmatched.2
    · exact .inl rfl

/-- The body names an order, and every call for it that begins from now on is shown it, unless the upstream or the
database fails. -/
def ReadsBack (codec : TextCodec) (config : UpstreamConfiguration) (s : OrderSystem) (posted : Request) (body : String) : Prop :=
  ∃ key order, body = codec.dump (.object [(orderId, .string key.text)]) ∧
    (∃ bodyJson, codec.parse posted.body = .ok bodyJson ∧
      OrderJsonMapper.fromJson codec.unrepresentable bodyJson = .ok order) ∧
    ∀ later t (k : ℕ) getBody response, run (OrderSystem.step codec (gatewayServices config)) s later = some t →
      s.gateway.requests.length ≤ k →
      t.gateway.requests[k]? = some (⟨.get, orderPath key, getBody⟩, .returned response) →
        response = { status := .badGateway } ∨
        (∃ failure, response = ⟨.internalServerError, (mapPqxxException failure).message⟩) ∨
        ∃ found, response = ⟨.ok, codec.dump (OrderJsonMapper.toJson found)⟩ ∧ Reads found key order

theorem SystemSound.readsBack {config : UpstreamConfiguration} (hsound : SystemSound codec (gatewayServices config) s)
    {posted : Request} {body : String} (hcreated : s.gateway.requests[i]? = some (posted, .returned ⟨.created, body⟩)) :
    ReadsBack codec config s posted body := by
  obtain ⟨e, he, -, hrequest, key, order, hsaves, hbody⟩ := hsound.contract.created i posted body hcreated
  have hparsed := hsaves.2.2.1
  rw [hrequest] at hparsed
  refine ⟨key, order, hbody, hparsed, ?_⟩
  intro later t k getBody response hlater hk hreturned
  have hsound' := hsound.run hlater
  obtain ⟨added, hadded⟩ := executions_prefix hsound hlater
  rcases hsound.later_get hsound' hadded.symm hk hreturned with hbad | ⟨between, f, after, rfl, hrequests, hresponse⟩
  · exact .inl hbad
  · have hserved := hsound'.service.contract.served (s.service.executions ++ between) f after
      (by rw [← hadded, List.append_assoc]) e (List.mem_append_left _ he) key order hsaves hrequests
    rw [← hresponse]
    rcases hserved with ⟨itemRows, failure, -, hlost⟩ | ⟨found, ⟨id, rows, -, -, -, hshown⟩, hreads⟩
    · exact .inr (.inl ⟨failure, hlost⟩)
    · exact .inr (.inr ⟨found, hshown, hreads⟩)

def sampleUpstream : UpstreamConfiguration := ⟨"order-service", 8080⟩

def createActions : List SystemAction :=
  [.gateway (.handle createRequest), .gateway (.route 0), .gateway (.acquire 0), .gateway (.resolved 0 true),
    .connect 0, .send 0, .gateway (.written 0), .read 0, .handle 0 (.save sampleKey drainedEventId 0 .committed),
    .written 0, .receive 0, .gateway (.release 0 true)]

def readActions : List SystemAction :=
  [.gateway (.handle ⟨.get, orderPath sampleKey, ""⟩), .gateway (.route 1), .gateway (.acquire 1), .send 1,
    .gateway (.written 1), .read 0, .handle 0 (.find sampleItems none), .written 0, .receive 1,
    .gateway (.release 1 true)]

def sentSystem : OrderSystem :=
  (run (OrderSystem.step sampleCodec (gatewayServices sampleUpstream)) {} (createActions.take 8)).getD {}

def savedService : ServiceState where
  db := sampleTables
  sessions := [⟨.writing (sessionResponse (exchangeRequest createRequest "order-service") ⟨.created, createdText⟩), 0⟩]
  executions := [⟨0, 0, createRequest, some .create, .empty, .save sampleKey drainedEventId 0 .committed, sampleTables,
    ⟨.created, createdText⟩⟩]

theorem run_saved :
    run (OrderSystem.step sampleCodec (gatewayServices sampleUpstream)) {} (createActions.take 9) =
      some { sentSystem with service := savedService } := by
  have hsent : run (OrderSystem.step sampleCodec (gatewayServices sampleUpstream)) {} (createActions.take 8) =
      some sentSystem := rfl
  have hservice : sentSystem.service =
      ⟨.empty, [⟨.handling (exchangeRequest createRequest "order-service") .create, 0⟩], []⟩ := rfl
  have hhandle : ServiceState.step sampleCodec sentSystem.service
      (.handle 0 (.save sampleKey drainedEventId 0 .committed)) = some savedService := by
    have hrequest : HttpMessageConverter.toHttpRequest (exchangeRequest createRequest "order-service") = createRequest := rfl
    rw [hservice]
    simp only [ServiceState.step, ServiceState.handleStep, List.getElem?_cons_zero, Option.bind_some,
      OrderHandler.handle, hrequest, handle_createRequest]
    rfl
  show run (OrderSystem.step sampleCodec (gatewayServices sampleUpstream)) {} (createActions.take 8 ++ [_]) = _
  rw [run_append, hsent]
  simp only [Option.bind_some, run_cons, OrderSystem.step, hhandle, run_nil, Option.map_some]

theorem run_createActions :
    ∃ s t, run (OrderSystem.step sampleCodec (gatewayServices sampleUpstream)) {} createActions = some s ∧
      s.gateway.requests[0]? = some (createRequest, .returned ⟨.created, createdText⟩) ∧
      run (OrderSystem.step sampleCodec (gatewayServices sampleUpstream)) s readActions = some t ∧
      (∃ shown, t.gateway.requests[1]? = some (⟨.get, orderPath sampleKey, ""⟩, .returned ⟨.ok, shown⟩)) := by
  have hcreated : (run (OrderSystem.step sampleCodec (gatewayServices sampleUpstream))
      { sentSystem with service := savedService } (createActions.drop 9)).map (fun s => s.gateway.requests[0]?) =
        some (some (createRequest, .returned ⟨.created, createdText⟩)) := by decide +kernel
  have hread : (run (OrderSystem.step sampleCodec (gatewayServices sampleUpstream))
      { sentSystem with service := savedService } (createActions.drop 9 ++ readActions)).map
        (fun s => s.gateway.requests[1]?) =
          some (some (⟨.get, orderPath sampleKey, ""⟩, .returned ⟨.ok, dumpText (OrderJsonMapper.toJson
            (placedOrder.assignId sampleKey.toId))⟩)) := by decide +kernel
  obtain ⟨s, hs, hs'⟩ := Option.map_eq_some_iff.mp hcreated
  obtain ⟨t, ht, ht'⟩ := Option.map_eq_some_iff.mp hread
  rw [run_append, hs] at ht
  refine ⟨s, t, ?_, hs', ht, _, ht'⟩
  show run (OrderSystem.step sampleCodec (gatewayServices sampleUpstream)) {}
    (createActions.take 9 ++ createActions.drop 9) = _
  rw [run_append, run_saved]
  exact hs

theorem client_contract_sample :
    ∃ s, run (OrderSystem.step sampleCodec (gatewayServices sampleUpstream)) {} createActions = some s ∧
      s.gateway.requests[0]? = some (createRequest, .returned ⟨.created, createdText⟩) ∧
      ClientContract sampleCodec (gatewayServices sampleUpstream) s := by
  obtain ⟨s, -, hs, hcreated, -⟩ := run_createActions
  exact ⟨s, hs, hcreated, client_contract hs⟩

end LiquidPetProject.EndToEnd
