import LiquidPetProject.GatewaySessions

namespace LiquidPetProject.GatewayService

open Models Http HttpServer Gateway OrderService EndToEnd Repository Models2JsonMapper Transitions GatewaySystem

inductive Tells (services : Services) (executions : List Execution) (m : ClientMessage) : Response → Prop
  | unrouted (h : m.request.method = .unknown ∨ "/".toList.isPrefixOf m.request.path.toList = false) :
      Tells services executions m { status := .notFound }
  | healthy (hmethod : m.request.method = .get) (hpath : "/health".toList.isPrefixOf m.request.path.toList = true) :
      Tells services executions m ⟨.ok, "OK"⟩
  | unmatched (h : Unmatched services m.request) : Tells services executions m { status := .notFound }
  | unreachable : Tells services executions m { status := .badGateway }
  | executed (e : Execution) (he : e ∈ executions) (hcall : m.call = some e.sender) (hrequest : e.request = m.request) :
      Tells services executions m e.response

structure ServerContract (codec : TextCodec) (services : Services) (s : GatewaySystem) : Prop where
  answered : ∀ x ∈ s.told, ∃ m, s.messages[x.1]? = some m ∧ x.2.keepAlive = m.message.keepAlive ∧
    Tells services s.system.service.executions m (HttpMessageConverter.toHttpResponse x.2)
  inTurn : s.told.Pairwise (InTurn s.messages)
  executed : ∀ e ∈ s.system.service.executions, ∃ m ∈ s.messages, m.call = some e.sender ∧ m.request = e.request ∧
    m.handler = some .proxy
  distinct : (s.messages.filterMap ClientMessage.call).Nodup
  twice : ∀ m ∈ s.messages, ∀ i, m.call = some i → (executionsOf i s.system.service.executions).length ≤ 2
  created : ∀ x ∈ s.told, x.2.resultInt = 201 → ∃ m, s.messages[x.1]? = some m ∧
    ∃ e ∈ s.system.service.executions, m.call = some e.sender ∧ e.request = m.request ∧
      ∃ key order, e.Saves codec key order ∧ x.2.body = codec.dump (.object [(orderId, .string key.text)])
  refused : ∀ x ∈ s.told, x.2.resultInt ∉ [201, 500, 502] → ∀ m, s.messages[x.1]? = some m →
    ∀ e ∈ s.system.service.executions, m.call = some e.sender → ∀ key order, ¬ e.Saves codec key order

variable {codec : TextCodec} {services : Services} {s t : GatewaySystem}

theorem ClientMessage.unrouted {m : ClientMessage} (h : m.handler = none) :
    m.request.method = .unknown ∨ "/".toList.isPrefixOf m.request.path.toList = false := by
  have hnone : buildRoutes.find? (fun route => route.method = m.request.method &&
      route.pathPrefix.toList.isPrefixOf m.request.path.toList) = none := Option.map_eq_none_iff.mp h
  by_cases hpath : "/".toList.isPrefixOf m.request.path.toList = false
  · exact .inr hpath
  · left
    have hroutes := List.find?_eq_none.mp hnone
    have hget := hroutes ⟨.get, "/", .proxy⟩ (by simp [buildRoutes])
    have hpost := hroutes ⟨.post, "/", .proxy⟩ (by simp [buildRoutes])
    cases hmethod : m.request.method with
    | get => simp_all
    | post => simp_all
    | unknown => rfl

theorem ClientMessage.routed {m : ClientMessage} {handler : GatewayHandler} (h : m.handler = some handler) :
    ∃ route ∈ buildRoutes, route.method = m.request.method ∧
      route.pathPrefix.toList.isPrefixOf m.request.path.toList = true ∧ route.handler = handler := by
  obtain ⟨route, hroute, hhandler⟩ := Option.map_eq_some_iff.mp h
  have hfits := List.find?_some hroute
  rw [Bool.and_eq_true] at hfits
  exact ⟨route, List.mem_of_find?_eq_some hroute, of_decide_eq_true hfits.1, hfits.2, hhandler⟩

theorem ClientMessage.healthy {m : ClientMessage} (h : m.handler = some .health) :
    m.request.method = .get ∧ "/health".toList.isPrefixOf m.request.path.toList = true := by
  obtain ⟨route, hroute, hmethod, hpath, hhandler⟩ := ClientMessage.routed h
  simp only [buildRoutes, List.mem_cons, List.not_mem_nil, or_false] at hroute
  rcases hroute with rfl | rfl | rfl
  · exact ⟨hmethod.symm, hpath⟩
  · cases hhandler
  · cases hhandler

theorem ClientMessage.proxied {m : ClientMessage} (h : m.handler = some .proxy) : m.request.method ≠ .unknown := by
  obtain ⟨route, hroute, hmethod, -⟩ := ClientMessage.routed h
  simp only [buildRoutes, List.mem_cons, List.not_mem_nil, or_false] at hroute
  rw [← hmethod]
  rcases hroute with rfl | rfl | rfl
  all_goals simp

theorem ServerSound.tells (hs : ServerSound codec services s) {m : ClientMessage} {response : BeastResponse}
    (h : Answers s.system.gateway m response) :
    response.keepAlive = m.message.keepAlive ∧
      Tells services s.system.service.executions m (HttpMessageConverter.toHttpResponse response) := by
  obtain ⟨answer, rfl, hanswer⟩ := h
  refine ⟨rfl, ?_⟩
  rw [toHttpResponse_sessionResponse]
  split at hanswer
  · rename_i hnone
    rw [hanswer]
    exact .unrouted (ClientMessage.unrouted hnone)
  · rename_i hhealth
    rw [hanswer]
    obtain ⟨hmethod, hpath⟩ := ClientMessage.healthy hhealth
    exact .healthy hmethod hpath
  · rename_i hproxy
    obtain ⟨i, hcall, hreturned⟩ := hanswer
    rcases hs.system.contract.answered i _ _ hreturned with ⟨e, he, rfl, hrequest, rfl⟩ | ⟨status, rfl, hown⟩
    · exact .executed e he hcall hrequest
    · rcases hown with ⟨-, hunknown⟩ | ⟨rfl, hunmatched⟩ | rfl
      · exact absurd hunknown (ClientMessage.proxied hproxy)
      · exact .unmatched hunmatched
      · exact .unreachable

theorem ServerSound.returned (hs : ServerSound codec services s) {m : ClientMessage} (hm : m ∈ s.messages)
    {response : BeastResponse} (h : Answers s.system.gateway m response) {i : ℕ} (hcall : m.call = some i) :
    ∃ answer, response = sessionResponse m.message answer ∧
      s.system.gateway.requests[i]? = some (m.request, .returned answer) := by
  obtain ⟨answer, hresponse, hanswer⟩ := h
  rw [(hs.asked m hm i hcall).1] at hanswer
  obtain ⟨k, hk, hreturned⟩ := hanswer
  obtain rfl := Option.some.inj (hcall.symm.trans hk)
  exact ⟨answer, hresponse, hreturned⟩

theorem Answers.created {m : ClientMessage} {response : BeastResponse} (h : Answers s.system.gateway m response)
    (hcreated : response.resultInt = 201) :
    ∃ i, m.call = some i ∧ s.system.gateway.requests[i]? = some (m.request, .returned ⟨.created, response.body⟩) := by
  obtain ⟨answer, rfl, hanswer⟩ := h
  have hstatus : answer.status = .created := by
    have hcode : answer.status.code = 201 := UInt16.toNat_inj.mp hcreated
    cases hanswer : answer.status
    rw [hanswer] at hcode
    exact congrArg Status.mk hcode
  split at hanswer
  · rw [hanswer] at hstatus
    cases hstatus
  · rw [hanswer] at hstatus
    cases hstatus
  · obtain ⟨i, hcall, hreturned⟩ := hanswer
    refine ⟨i, hcall, ?_⟩
    rw [← hstatus]
    exact hreturned

theorem ServerSound.contract (hs : ServerSound codec services s) : ServerContract codec services s := by
  have hcontract := hs.system.contract
  constructor
  · intro x hx
    obtain ⟨m, hm, hanswers⟩ := hs.told x hx
    exact ⟨m, hm, hs.tells hanswers⟩
  · exact hs.ordered
  · intro e he
    have hasked := hcontract.executed e he
    have hcalled : e.sender ∈ s.messages.filterMap ClientMessage.call := by
      rw [hs.calls]
      exact List.mem_range.mpr (asked_lt hasked)
    obtain ⟨m, hm, hcall⟩ := List.mem_filterMap.mp hcalled
    obtain ⟨hhandler, hm'⟩ := hs.asked m hm e.sender hcall
    exact ⟨m, hm, hcall, asked_unique hm' hasked, hhandler⟩
  · rw [hs.calls]
    exact List.nodup_range
  · intro m hm i hcall
    exact hcontract.twice i
  · intro x hx hcreated
    obtain ⟨m, hm, hanswers⟩ := hs.told x hx
    obtain ⟨i, hcall, hreturned⟩ := hanswers.created hcreated
    obtain ⟨e, he, rfl, hrequest, hsaved⟩ := hcontract.created i _ _ hreturned
    exact ⟨m, hm, e, he, hcall, hrequest, hsaved⟩
  · intro x hx hcode m hm e he hcall
    obtain ⟨m', hm', hanswers⟩ := hs.told x hx
    obtain rfl := Option.some.inj (hm.symm.trans hm')
    obtain ⟨answer, hresponse, hreturned⟩ := hs.returned (List.mem_of_getElem? hm) hanswers hcall
    have hother (status : Status) (hstatus : status.code.toNat ∈ [201, 500, 502]) : answer.status ≠ status := by
      rintro rfl
      rw [hresponse] at hcode
      exact hcode hstatus
    exact hcontract.refused e.sender _ _ hreturned (hother _ (by decide)) (hother _ (by decide)) (hother _ (by decide)) e he rfl

section Exchanges

variable {message : BeastRequest} {u v : OrderSystem}

end Exchanges

example : (run (GatewaySystem.step sampleCodec (gatewayServices sampleUpstream)) {}
    [.accept, .read 0 ⟨.get, "/health", "", "", none, true⟩, .handled 0, .written 0]).map GatewaySystem.told =
      some [(0, ⟨200, "OK", true⟩)] := by decide +kernel

end LiquidPetProject.GatewayService
