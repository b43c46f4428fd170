import LiquidPetProject.OrderSystemLinks

namespace LiquidPetProject.EndToEnd

open Models Http HttpServer Gateway ProxyHandler OrderService Transitions

section Sessions

variable {codec : TextCodec} {s t : ServiceState} {k : ℕ}

theorem sessionStep_read {pc pc' : SessionPc OrderHandler} {message : BeastRequest}
    (h : sessionStep buildRoutes pc (.read message) = some pc') :
    pc = .reading ∧ pc' = afterRead buildRoutes message := by
  cases pc with
  | reading => exact ⟨rfl, (Option.some.inj h).symm⟩
  | _ => cases h

theorem sessionStep_written {pc pc' : SessionPc OrderHandler} (h : sessionStep buildRoutes pc .written = some pc') :
    ∃ response, pc = .writing response ∧ pc' = if response.keepAlive then .reading else .closed := by
  cases pc with
  | writing response => exact ⟨response, rfl, (Option.some.inj h).symm⟩
  | _ => cases h

theorem sessionStep_failed {pc pc' : SessionPc OrderHandler} (h : sessionStep buildRoutes pc .failed = some pc') :
    pc' = .closed := by
  cases pc with
  | reading => exact (Option.some.inj h).symm
  | writing response => exact (Option.some.inj h).symm
  | _ => cases h

theorem read_cases {sender : ℕ} {message : BeastRequest} (h : s.step codec (.read k sender message) = some t) :
    ∃ session, s.sessions[k]? = some session ∧ session.pc = .reading ∧ ∃ pc new,
      t = ⟨s.db, s.sessions.set k ⟨pc, sender⟩, s.executions ++ new⟩ ∧
      ((∃ handler, pc = .handling message handler ∧ new = []) ∨
        ∃ e, pc = .writing (sessionResponse message e.response) ∧ new = [e] ∧ e.sender = sender ∧
          e.request = HttpMessageConverter.toHttpRequest message) := by
  obtain ⟨session, hsession, hread⟩ := Option.bind_eq_some_iff.mp h
  unfold ServiceState.readStep at hread
  obtain ⟨pc, hpc, rfl⟩ := Option.map_eq_some_iff.mp hread
  obtain ⟨hreading, rfl⟩ := sessionStep_read hpc
  refine ⟨session, hsession, hreading, afterRead buildRoutes message, ?_⟩
  unfold afterRead
  cases hfind : findHandler buildRoutes (HttpMessageConverter.toHttpRequest message).method
      (HttpMessageConverter.toHttpRequest message).path with
  | none =>
    exact ⟨[⟨k, sender, HttpMessageConverter.toHttpRequest message, none, s.db, .unused, s.db, { status := .notFound }⟩],
      rfl, .inr ⟨_, rfl, rfl, rfl, rfl⟩⟩
  | some handler =>
    refine ⟨[], ?_, .inl ⟨handler, rfl, rfl⟩⟩
    rw [List.append_nil]
    rfl

theorem handle_executes {reply : DatabaseReply} (h : s.step codec (.handle k reply) = some t) :
    ∃ session message handler, s.sessions[k]? = some session ∧ session.pc = .handling message handler ∧ ∃ e db,
      t = ⟨db, s.sessions.set k ⟨.writing (sessionResponse message e.response), session.sender⟩, s.executions ++ [e]⟩ ∧
      e.sender = session.sender ∧ e.request = HttpMessageConverter.toHttpRequest message := by
  obtain ⟨session, hsession, hhandle⟩ := Option.bind_eq_some_iff.mp h
  unfold ServiceState.handleStep at hhandle
  split at hhandle
  · rename_i message handler hpc
    obtain ⟨⟨db, answer⟩, -, hmap⟩ := Option.bind_eq_some_iff.mp hhandle
    obtain ⟨pc, hnext, rfl⟩ := Option.map_eq_some_iff.mp hmap
    rw [hpc] at hnext
    obtain rfl := Option.some.inj hnext
    exact ⟨session, message, handler, hsession, hpc, ⟨k, session.sender, HttpMessageConverter.toHttpRequest message,
      some handler, s.db, reply, db, handlerResponse answer⟩, db, rfl, rfl, rfl⟩
  · cases hhandle

theorem move_cases {a : SessionAction} {session : Session} (h : s.moveStep k a session = some t) :
    ∃ pc, sessionStep buildRoutes session.pc a = some pc ∧
      t = ⟨s.db, s.sessions.set k ⟨pc, session.sender⟩, s.executions⟩ := by
  obtain ⟨pc, hpc, rfl⟩ := Option.map_eq_some_iff.mp h
  exact ⟨pc, hpc, rfl⟩

end Sessions

section Steps

variable {services : Services} {s : OrderSystem} {g' : ProxyHandler} {c : Connection} {session : Session}
  {request : Request} {a : Attempt} {pooled : Bool} {i k x : ℕ}

theorem Linked.start : Linked {} := by
  refine ⟨rfl, rfl, ?_, ?_, ?_, fun i => Nat.le_refl 0⟩
  · intro x c session hc
    cases hc
  · intro e he
    cases he
  · intro i x response hreceived
    cases hreceived

theorem Linked.gateway (h : Linked s) (hu : Undelivered s.gateway g') : Linked { s with gateway := g' } := by
  obtain ⟨⟨es, hk, hes⟩, hnext⟩ := hu
  have hnone : ∀ i x response, .received i x response ∉ es := by
    intro i x response hreceived
    cases hes _ hreceived
  refine ⟨h.connections.trans hnext.symm, h.sessions.trans hnext.symm, ?_, ?_, ?_, ?_⟩
  · intro x c session hc hsession
    have hframe := (h.carries x c session hc hsession).frame hk (fun i response => hnone i x response) []
    rwa [List.append_nil] at hframe
  · exact fun e he => hk.asked _ _ (h.executions e he)
  · intro i x response hreceived
    dsimp only at hreceived
    rw [hk.history] at hreceived
    rcases List.mem_append.mp hreceived with hold | hadded
    · exact h.received i x response hold
    · exact absurd hadded (hnone i x response)
  · intro i
    dsimp only
    rw [hk.history, exchanges_append, List.length_append]
    exact Nat.le_trans (h.counted i) (Nat.le_add_right _ _)

theorem Linked.session_exists (h : Linked s) (hc : s.connections[k]? = some c) :
    ∃ session, s.service.sessions[k]? = some session := by
  have hlt := (List.getElem?_eq_some_iff.mp hc).1
  rw [h.connections, ← h.sessions] at hlt
  exact ⟨_, List.getElem?_eq_getElem hlt⟩

theorem Linked.connection_exists (h : Linked s) (hsession : s.service.sessions[k]? = some session) :
    ∃ c, s.connections[k]? = some c := by
  have hlt := (List.getElem?_eq_some_iff.mp hsession).1
  rw [h.sessions, ← h.connections] at hlt
  exact ⟨_, List.getElem?_eq_getElem hlt⟩

theorem usable_unspoiled {g : ProxyHandler} {config : UpstreamConfiguration} (h : Usable x config (socketLog x g.history)) :
    ¬ g.Spoiled x := by
  rintro ⟨e, he, hsocket, hbreaks⟩
  rw [h.unbroken e (mem_socketLog.mpr ⟨he, hsocket⟩)] at hbreaks
  cases hbreaks

theorem holds_exchanging {g : ProxyHandler} (h : g.exchanging i = some x) : g.holds (.request i) = some x := by
  obtain ⟨⟨request, pc⟩, hi, hpc⟩ := Option.bind_eq_some_iff.mp h
  rw [holds_request hi]
  exact HandlePc.owned_of_exchanging hpc

theorem pending_owner (hd : Disciplined services s.gateway) {pc : HandlePc} {config : UpstreamConfiguration}
    (hi : s.gateway.requests[i]? = some (request, pc)) (hpc : pc.owned = some x)
    (husable : Usable x config (socketLog x s.gateway.history))
    (hcarries : Carries s.gateway s.service.executions x c session) :
    ∀ j ∈ pending c session, j = i ∧ pc.exchanging = some x := by
  intro j hj
  rcases hcarries.own j hj with hexchanging | hspoiled
  · have hsame := hd.held.exclusive _ _ x (holds_exchanging hexchanging) ((holds_request hi).trans hpc)
    cases hsame
    rw [exchanging_eq hi] at hexchanging
    exact ⟨rfl, hexchanging⟩
  · exact absurd hspoiled (usable_unspoiled husable)

theorem toHttpRequest_exchangeRequest (request : Request) (host : String) :
    HttpMessageConverter.toHttpRequest (exchangeRequest request host) = request :=
  HttpMessageConverter.toHttpRequest_toBeastRequest request

theorem exchanges_wrote (j : ℕ) (message : BeastRequest) :
    (exchanges j [.wrote i x message]).length = if i = j then 1 else 0 := by
  unfold exchanges requestLog
  by_cases hij : i = j
  · rw [if_pos hij, List.filter_cons_of_pos (by simp [Event.request, hij])]
    rfl
  · simp [Event.request, hij]

theorem Connection.waits_send (c : Connection) (j : ℕ) (message : BeastRequest) :
    ({ c with requests := c.requests ++ [(i, message)] } : Connection).waits j = c.waits j + if i = j then 1 else 0 := by
  unfold Connection.waits
  rw [List.countP_append, List.countP_singleton]
  simp only [decide_eq_true_eq]

theorem Linked.send (h : Linked s) (hd : Disciplined services s.gateway)
    (hi : s.gateway.requests[i]? = some (request, .sending a pooled x)) (hc : s.connections[x]? = some c)
    (hg : g' = s.gateway.advance i request (.writing a pooled x) [.wrote i x (exchangeRequest request a.config.host)])
    {c' : Connection} (hc' : c' = { c with requests := c.requests ++ [(i, exchangeRequest request a.config.host)] }) :
    Linked ⟨g', s.service, s.connections.set x c'⟩ := by
  obtain ⟨session, hsession⟩ := h.session_exists hc
  have hcarries := h.carries x c session hc hsession
  obtain ⟨-, -, husable, -⟩ := hd.requests i request _ hi
  have hnone : pending c session = [] := by
    apply List.eq_nil_iff_forall_not_mem.mpr
    intro j hj
    obtain ⟨-, hexchanging⟩ := pending_owner hd hi rfl husable hcarries j hj
    cases hexchanging
  have hself : g'.requests[i]? = some (request, .writing a pooled x) := by
    rw [hg]
    exact List.getElem?_set_self (List.getElem?_eq_some_iff.mp hi).1
  have hk : Kept s.gateway g' [.wrote i x (exchangeRequest request a.config.host)] := by
    rw [hg]
    exact Kept.quiet hi rfl rfl rfl
  have hpending : pending c' session = [i] := by
    unfold pending at hnone ⊢
    rw [List.append_eq_nil_iff, List.append_eq_nil_iff] at hnone
    simp only [hc', List.map_append, hnone.1.1, hnone.1.2, hnone.2]
    rfl
  have hframe := hcarries.frame hk (by simp) []
  have hcarries' : Carries g' (s.service.executions ++ []) x c' session := by
    refine ⟨Nat.le_of_eq (congrArg List.length hpending), ?_, ?_, hframe.handled, hframe.written, ?_⟩
    · rw [hpending]
      intro j hj
      obtain rfl := List.mem_singleton.mp hj
      exact .inl (exchanging_eq hself)
    · intro j message hmem
      rw [hc'] at hmem
      rcases List.mem_append.mp hmem with hold | hnew
      · exact hframe.requests j message hold
      · obtain ⟨rfl, rfl⟩ := Prod.mk.inj (List.mem_singleton.mp hnew)
        unfold Sends
        rw [toHttpRequest_exchangeRequest]
        exact ⟨_, hself⟩
    · rw [hc']
      exact hframe.responses
  have hnext : g'.nextSocket = s.gateway.nextSocket := by
    rw [hg]
    rfl
  have hlinked := h.exchange s.service.db hc hsession hk hnext hcarries' (by simp) (by simp) ?_
  · rw [set_of_getElem? hsession, List.append_nil] at hlinked
    exact hlinked
  · intro j
    rw [exchanges_wrote, hc', Connection.waits_send]
    simp only [executionsOf, List.filter_nil, List.length_nil]
    omega

theorem Linked.receive (h : Linked s) (hd : Disciplined services s.gateway)
    (hi : s.gateway.requests[i]? = some (request, .reading a pooled x)) (hc : s.connections[x]? = some c)
    {j : ℕ} {response : BeastResponse} {rest : List (ℕ × BeastResponse)} (hresponses : c.responses = (j, response) :: rest)
    (hg : g' = s.gateway.advance i request (.releasing a x response) [.received i x response])
    {c' : Connection} (hc' : c' = { c with responses := rest }) :
    Linked ⟨g', s.service, s.connections.set x c'⟩ := by
  obtain ⟨session, hsession⟩ := h.session_exists hc
  have hcarries := h.carries x c session hc hsession
  obtain ⟨-, -, husable, -⟩ := hd.requests i request _ hi
  have hmem : j ∈ pending c session := by
    unfold pending
    rw [hresponses]
    simp
  obtain ⟨rfl, -⟩ := pending_owner hd hi rfl husable hcarries j hmem
  have hanswers : Answers s.service.executions j response := by
    apply hcarries.responses
    rw [hresponses]
    exact List.mem_cons_self
  have hnone : pending c' session = [] ∧ c'.requests = c.requests := by
    have hsingle := hcarries.single
    unfold pending at hsingle ⊢
    rw [hc']
    rw [hresponses] at hsingle
    simp only [List.map_cons, List.length_append, List.length_cons] at hsingle
    refine ⟨List.eq_nil_of_length_eq_zero ?_, rfl⟩
    simp only [List.length_append]
    omega
  have hself : g'.requests[j]? = some (request, .releasing a x response) := by
    rw [hg]
    exact List.getElem?_set_self (List.getElem?_eq_some_iff.mp hi).1
  have hk : Kept s.gateway g' [.received j x response] := by
    rw [hg]
    refine Kept.move hi rfl rfl (fun y hy => ?_)
    cases hy
    exact .inr (.inr ⟨response, List.mem_singleton_self _⟩)
  have hnext : g'.nextSocket = s.gateway.nextSocket := by
    rw [hg]
    rfl
  have hcarries' : Carries g' (s.service.executions ++ []) x c' session := by
    refine ⟨by rw [hnone.1]; exact Nat.zero_le 1, by rw [hnone.1]; simp, ?_, ?_, ?_, ?_⟩
    · intro k message hmessage
      rw [hnone.2] at hmessage
      exact hk.asked _ _ (hcarries.requests k message hmessage)
    · exact fun message handler hpc => hk.asked _ _ (hcarries.handled message handler hpc)
    · exact fun response hpc => (hcarries.written response hpc).mono []
    · intro k other hother
      rw [hc'] at hother
      apply Answers.mono
      apply hcarries.responses
      rw [hresponses]
      exact List.mem_cons_of_mem _ hother
  have hlinked := h.exchange s.service.db hc hsession hk hnext hcarries' ?_ (by simp) ?_
  · rw [set_of_getElem? hsession, List.append_nil] at hlinked
    exact hlinked
  · intro k y other hother
    cases List.mem_singleton.mp hother
    exact ⟨rfl, hanswers⟩
  · intro k
    have hwaits : c'.waits k = c.waits k := by
      unfold Connection.waits
      rw [hnone.2]
    rw [hwaits]
    simp only [executionsOf, List.filter_nil, List.length_nil]
    omega

theorem Linked.serve (h : Linked s) (hc : s.connections[k]? = some c) (hsession : s.service.sessions[k]? = some session)
    {c' : Connection} {session' : Session} {new : List Execution} (db : Repository.OrderTables String)
    (hsingle : (pending c' session').length ≤ (pending c session).length)
    (hsubset : pending c' session' ⊆ pending c session)
    (hrequests : ∀ m ∈ c'.requests, m ∈ c.requests)
    (hhandled : ∀ message handler, session'.pc = .handling message handler → Sends s.gateway session'.sender message)
    (hwritten : ∀ response, session'.pc = .writing response →
      Answers (s.service.executions ++ new) session'.sender response)
    (hresponses : ∀ m ∈ c'.responses, m ∈ c.responses ∨ Answers s.service.executions m.1 m.2)
    (hnew : ∀ e ∈ new, s.gateway.Asked e.sender e.request)
    (hcount : ∀ i, (executionsOf i new).length + c'.waits i + sessionWaits i session' ≤
      c.waits i + sessionWaits i session) :
    Linked ⟨s.gateway, ⟨db, s.service.sessions.set k session', s.service.executions ++ new⟩, s.connections.set k c'⟩ := by
  have hcarries := h.carries k c session hc hsession
  refine h.exchange db hc hsession (Kept.refl s.gateway) rfl ?_ (by simp) hnew ?_
  · refine ⟨Nat.le_trans hsingle hcarries.single, fun i hi => hcarries.own i (hsubset hi), ?_, hhandled, hwritten, ?_⟩
    · exact fun i message hmem => hcarries.requests i message (hrequests _ hmem)
    · intro i response hmem
      rcases hresponses _ hmem with hold | hanswers
      · exact (hcarries.responses i response hold).mono new
      · exact Answers.mono hanswers new
  · intro i
    have hone := hcount i
    have hnone : exchanges i [] = [] := rfl
    rw [hnone, List.length_nil]
    omega

theorem pending_reading (hpc : session.pc = .reading) :
    pending c session = c.requests.map Prod.fst ++ c.responses.map Prod.fst := by
  unfold pending working
  rw [hpc, List.append_nil]

theorem executionsOf_single (i : ℕ) (e : Execution) : (executionsOf i [e]).length = if e.sender = i then 1 else 0 := by
  unfold executionsOf
  split_ifs with h
  · rw [List.filter_cons_of_pos (by simpa using h)]
    rfl
  · rw [List.filter_cons_of_neg (by simpa using h)]
    rfl

theorem answers_writing (executions : List Execution) (e : Execution) (message : BeastRequest) :
    Answers (executions ++ [e]) e.sender (sessionResponse message e.response) :=
  ⟨e, List.mem_append_right _ (List.mem_singleton_self e), rfl, (toHttpResponse_sessionResponse message e.response).symm⟩

theorem Linked.read {codec : TextCodec} {service : ServiceState} (h : Linked s) (hc : s.connections[k]? = some c)
    {sender : ℕ} {message : BeastRequest} {rest : List (ℕ × BeastRequest)}
    (hrequests : c.requests = (sender, message) :: rest) (hstep : s.service.step codec (.read k sender message) = some service) :
    Linked ⟨s.gateway, service, s.connections.set k { c with requests := rest }⟩ := by
  obtain ⟨session, hsession, hreading, pc, new, rfl, hpc⟩ := read_cases hstep
  have hsends : Sends s.gateway sender message := by
    apply (h.carries k c session hc hsession).requests
    rw [hrequests]
    exact List.mem_cons_self
  have hbefore : pending c session = sender :: (rest.map Prod.fst ++ c.responses.map Prod.fst) := by
    rw [pending_reading hreading, hrequests]
    rfl
  have hafter : pending { c with requests := rest } ⟨pc, sender⟩ = rest.map Prod.fst ++ [sender] ++ c.responses.map Prod.fst := by
    rcases hpc with ⟨handler, rfl, -⟩ | ⟨e, rfl, -⟩
    all_goals rfl
  apply h.serve hc hsession s.service.db
  · rw [hbefore, hafter]
    simp only [List.length_append, List.length_cons, List.length_nil]
    omega
  · rw [hbefore, hafter]
    intro i hi
    simp only [List.mem_append, List.mem_cons, List.not_mem_nil, or_false] at hi ⊢
    tauto
  · intro m hm
    rw [hrequests]
    exact List.mem_cons_of_mem _ hm
  · intro other handler hother
    rcases hpc with ⟨handler', rfl, -⟩ | ⟨e, rfl, -⟩
    · cases hother
      exact hsends
    · cases hother
  · intro response hresponse
    rcases hpc with ⟨handler', rfl, -⟩ | ⟨e, rfl, rfl, rfl, -⟩
    · cases hresponse
    · cases hresponse
      exact answers_writing _ _ message
  · exact fun m hm => .inl hm
  · intro e he
    rcases hpc with ⟨handler', -, rfl⟩ | ⟨e', -, rfl, rfl, hrequest⟩
    · cases he
    · obtain rfl := List.mem_singleton.mp he
      rw [hrequest]
      exact hsends
  · intro i
    have hwaits : c.waits i = Connection.waits i { c with requests := rest } + if sender = i then 1 else 0 := by
      unfold Connection.waits
      rw [hrequests, List.countP_cons]
      simp only [decide_eq_true_eq]
    rw [hwaits]
    rcases hpc with ⟨handler', rfl, rfl⟩ | ⟨e', rfl, rfl, rfl, -⟩
    · have hsession' : sessionWaits i ⟨.handling message handler', sender⟩ = if sender = i then 1 else 0 := rfl
      rw [hsession']
      simp only [executionsOf, List.filter_nil, List.length_nil]
      omega
    · rw [executionsOf_single]
      simp only [sessionWaits]
      omega

theorem Linked.handle {codec : TextCodec} {service : ServiceState} {reply : DatabaseReply} (h : Linked s)
    (hstep : s.service.step codec (.handle k reply) = some service) : Linked { s with service := service } := by
  obtain ⟨session, message, handler, hsession, hpc, e, db, rfl, hsender, hrequest⟩ := handle_executes hstep
  obtain ⟨c, hc⟩ := h.connection_exists hsession
  have hsends : Sends s.gateway session.sender message := (h.carries k c session hc hsession).handled message handler hpc
  have hworking : working session = [session.sender] := by
    unfold working
    rw [hpc]
  have hpending : pending c ⟨.writing (sessionResponse message e.response), session.sender⟩ = pending c session := by
    unfold pending
    rw [hworking]
    rfl
  suffices hlinked : Linked ⟨s.gateway, ⟨db, s.service.sessions.set k
      ⟨.writing (sessionResponse message e.response), session.sender⟩, s.service.executions ++ [e]⟩,
      s.connections.set k c⟩ by
    rwa [set_of_getElem? hc] at hlinked
  apply h.serve hc hsession db
  · rw [hpending]
  · rw [hpending]
    exact List.Subset.refl _
  · exact fun m hm => hm
  · intro other handler' hother
    cases hother
  · intro response hresponse
    cases hresponse
    have hanswers := answers_writing s.service.executions e message
    rwa [hsender] at hanswers
  · exact fun m hm => .inl hm
  · intro f hf
    obtain rfl := List.mem_singleton.mp hf
    rw [hsender, hrequest]
    exact hsends
  · intro i
    have hbefore : sessionWaits i session = if session.sender = i then 1 else 0 := by
      unfold sessionWaits
      rw [hpc]
    rw [executionsOf_single, hsender, hbefore]
    simp only [sessionWaits]
    omega

theorem Linked.written {codec : TextCodec} {service : ServiceState} {response : BeastResponse} {sender : ℕ} (h : Linked s)
    (hsession : s.service.sessions[k]? = some ⟨.writing response, sender⟩) (hc : s.connections[k]? = some c)
    (hstep : s.service.step codec (.written k) = some service) :
    Linked ⟨s.gateway, service, s.connections.set k { c with responses := c.responses ++ [(sender, response)] }⟩ := by
  obtain ⟨other, hother, hmove⟩ := Option.bind_eq_some_iff.mp hstep
  obtain rfl := Option.some.inj (hsession.symm.trans hother)
  obtain ⟨pc, hpc, rfl⟩ := move_cases hmove
  obtain ⟨sent, hsent, rfl⟩ := sessionStep_written hpc
  cases hsent
  have hanswers : Answers s.service.executions sender response := (h.carries k c _ hc hsession).written response rfl
  have hpending : pending { c with responses := c.responses ++ [(sender, response)] }
      ⟨if response.keepAlive then .reading else .closed, sender⟩ =
      c.requests.map Prod.fst ++ (c.responses.map Prod.fst ++ [sender]) := by
    unfold pending
    have hidle : working ⟨if response.keepAlive then .reading else .closed, sender⟩ = [] := by
      cases response.keepAlive <;> rfl
    rw [hidle, List.append_nil, List.map_append]
    rfl
  have hbefore : pending c ⟨.writing response, sender⟩ =
      c.requests.map Prod.fst ++ [sender] ++ c.responses.map Prod.fst := rfl
  suffices hlinked : Linked ⟨s.gateway, ⟨s.service.db, s.service.sessions.set k
      ⟨if response.keepAlive then .reading else .closed, sender⟩, s.service.executions ++ []⟩,
      s.connections.set k { c with responses := c.responses ++ [(sender, response)] }⟩ by
    rwa [List.append_nil] at hlinked
  apply h.serve hc hsession s.service.db
  · rw [hpending, hbefore]
    simp only [List.length_append, List.length_cons, List.length_nil]
    omega
  · rw [hpending, hbefore]
    intro i hi
    simp only [List.mem_append, List.mem_cons, List.not_mem_nil, or_false] at hi ⊢
    tauto
  · exact fun m hm => hm
  · intro message handler hhandling
    cases hkeep : response.keepAlive <;> simp [hkeep] at hhandling
  · intro other hwriting
    cases hkeep : response.keepAlive <;> simp [hkeep] at hwriting
  · intro m hm
    rcases List.mem_append.mp hm with hold | hnew
    · exact .inl hold
    · rw [List.mem_singleton.mp hnew]
      exact .inr hanswers
  · simp
  · intro i
    have hnone : sessionWaits i ⟨if response.keepAlive then .reading else .closed, sender⟩ = 0 := by
      cases response.keepAlive <;> rfl
    rw [hnone]
    simp only [executionsOf, List.filter_nil, List.length_nil, Connection.waits]
    omega

theorem Linked.failed {codec : TextCodec} {service : ServiceState} (h : Linked s)
    (hstep : s.service.step codec (.failed k) = some service) : Linked { s with service := service } := by
  obtain ⟨session, hsession, hmove⟩ := Option.bind_eq_some_iff.mp hstep
  obtain ⟨pc, hpc, rfl⟩ := move_cases hmove
  obtain rfl := sessionStep_failed hpc
  obtain ⟨c, hc⟩ := h.connection_exists hsession
  have hpending : pending c ⟨.closed, session.sender⟩ = c.requests.map Prod.fst ++ c.responses.map Prod.fst := by
    unfold pending working
    rw [List.append_nil]
  suffices hlinked : Linked ⟨s.gateway, ⟨s.service.db, s.service.sessions.set k ⟨.closed, session.sender⟩,
      s.service.executions ++ []⟩, s.connections.set k c⟩ by
    rwa [set_of_getElem? hc, List.append_nil] at hlinked
  apply h.serve hc hsession s.service.db
  · rw [hpending]
    unfold pending
    simp only [List.length_append]
    omega
  · rw [hpending]
    unfold pending
    intro i hi
    simp only [List.mem_append] at hi ⊢
    tauto
  · exact fun m hm => hm
  · intro message handler hhandling
    cases hhandling
  · intro response hwriting
    cases hwriting
  · exact fun m hm => .inl hm
  · simp
  · intro i
    simp only [executionsOf, List.filter_nil, List.length_nil, sessionWaits]
    omega

theorem Linked.connect (h : Linked s) (hi : s.gateway.requests[i]? = some (request, .connecting a))
    (hg : g' = { s.gateway.advance i request (.sending a false s.gateway.nextSocket)
      [.opened i s.gateway.nextSocket a.config] with nextSocket := s.gateway.nextSocket + 1 }) :
    Linked ⟨g', ⟨s.service.db, s.service.sessions ++ [({} : Session)], s.service.executions⟩,
      s.connections ++ [({} : Connection)]⟩ := by
  have hk : Kept s.gateway g' [.opened i s.gateway.nextSocket a.config] := by
    rw [hg]
    exact Kept.quiet hi rfl rfl rfl
  have hnext : g'.nextSocket = s.gateway.nextSocket + 1 := by rw [hg]
  refine ⟨?_, ?_, ?_, ?_, ?_, ?_⟩
  · simp only [List.length_append, List.length_singleton, hnext, h.connections]
  · simp only [List.length_append, List.length_singleton, hnext, h.sessions]
  · intro x c session hc hsession
    dsimp only at hc hsession ⊢
    rcases getElem?_concat_some hc with hcold | ⟨rfl, rfl⟩
    · rcases getElem?_concat_some hsession with hsold | ⟨rfl, -⟩
      · have hframe := (h.carries x c session hcold hsold).frame hk (by simp) []
        rwa [List.append_nil] at hframe
      · have hlt := (List.getElem?_eq_some_iff.mp hcold).1
        rw [h.connections, ← h.sessions] at hlt
        exact absurd hlt (Nat.lt_irrefl _)
    · rcases getElem?_concat_some hsession with hsold | ⟨-, rfl⟩
      · have hlt := (List.getElem?_eq_some_iff.mp hsold).1
        rw [h.sessions, ← h.connections] at hlt
        exact absurd hlt (Nat.lt_irrefl _)
      · have hpending : pending {} {} = [] := rfl
        refine ⟨by rw [hpending]; exact Nat.zero_le 1, by rw [hpending]; simp, ?_, ?_, ?_, ?_⟩
        · intro j message hmem
          cases hmem
        · intro message handler hpc
          cases hpc
        · intro response hpc
          cases hpc
        · intro j response hmem
          cases hmem
  · exact fun e he => hk.asked _ _ (h.executions e he)
  · intro j x response hreceived
    dsimp only at hreceived
    rw [hk.history] at hreceived
    rcases List.mem_append.mp hreceived with hold | hadded
    · exact h.received j x response hold
    · cases List.mem_singleton.mp hadded
  · intro j
    have hcounted := h.counted j
    dsimp only
    rw [hk.history, exchanges_append, List.length_append]
    unfold waiting at hcounted ⊢
    simp only [List.map_append, List.sum_append, List.map_cons, List.map_nil, List.sum_cons, List.sum_nil]
    have hnone : Connection.waits j {} = 0 := rfl
    have hidle : sessionWaits j {} = 0 := rfl
    omega

end Steps

structure SystemSound (codec : TextCodec) (services : Services) (s : OrderSystem) : Prop where
  gateway : GatewaySound services s.gateway
  service : ServiceSound codec s.service
  linked : Linked s

variable {codec : TextCodec} {services : Services} {s t : OrderSystem}

theorem SystemSound.start (codec : TextCodec) (services : Services) : SystemSound codec services {} :=
  ⟨GatewaySound.initial services, ServiceSound.start codec, Linked.start⟩

theorem SystemSound.step {a : SystemAction} (h : SystemSound codec services s)
    (hstep : s.step codec services a = some t) : SystemSound codec services t := by
  cases a with
  | gateway a =>
    simp only [OrderSystem.step] at hstep
    split_ifs at hstep with hlocal
    obtain ⟨g', hg, rfl⟩ := Option.map_eq_some_iff.mp hstep
    exact ⟨h.gateway.step hg, h.service, h.linked.gateway (undelivered_step hlocal hg)⟩
  | connect i =>
    obtain ⟨g', hg, hstep⟩ := Option.bind_eq_some_iff.mp hstep
    obtain ⟨service, hservice, rfl⟩ := Option.map_eq_some_iff.mp hstep
    refine ⟨h.gateway.step hg, h.service.step hservice, ?_⟩
    obtain rfl := Option.some.inj hservice
    simp only [ProxyHandler.step] at hg
    split at hg
    · rename_i request a hi
      exact h.linked.connect hi (Option.some.inj hg).symm
    · cases hg
  | send i =>
    simp only [OrderSystem.step, OrderSystem.sendStep] at hstep
    split at hstep
    · rename_i request a pooled x hi
      obtain ⟨c, hc, hstep⟩ := Option.bind_eq_some_iff.mp hstep
      obtain ⟨g', hg, rfl⟩ := Option.map_eq_some_iff.mp hstep
      refine ⟨h.gateway.step hg, h.service, ?_⟩
      simp only [ProxyHandler.step, hi] at hg
      exact h.linked.send h.gateway.disciplined hi hc (Option.some.inj hg).symm rfl
    · cases hstep
  | receive i =>
    simp only [OrderSystem.step, OrderSystem.receiveStep] at hstep
    split at hstep
    · rename_i request a pooled x hi
      obtain ⟨c, hc, hstep⟩ := Option.bind_eq_some_iff.mp hstep
      split at hstep
      · cases hstep
      · rename_i j response rest hresponses
        obtain ⟨g', hg, rfl⟩ := Option.map_eq_some_iff.mp hstep
        refine ⟨h.gateway.step hg, h.service, ?_⟩
        simp only [ProxyHandler.step, hi] at hg
        exact h.linked.receive h.gateway.disciplined hi hc hresponses (Option.some.inj hg).symm rfl
    · cases hstep
  | read k =>
    obtain ⟨c, hc, hstep⟩ := Option.bind_eq_some_iff.mp hstep
    split at hstep
    · cases hstep
    · rename_i sender message rest hrequests
      obtain ⟨service, hservice, rfl⟩ := Option.map_eq_some_iff.mp hstep
      exact ⟨h.gateway, h.service.step hservice, h.linked.read hc hrequests hservice⟩
  | handle k reply =>
    obtain ⟨service, hservice, rfl⟩ := Option.map_eq_some_iff.mp hstep
    exact ⟨h.gateway, h.service.step hservice, h.linked.handle hservice⟩
  | written k =>
    simp only [OrderSystem.step, OrderSystem.writtenStep] at hstep
    split at hstep
    · rename_i response sender hsession
      obtain ⟨c, hc, hstep⟩ := Option.bind_eq_some_iff.mp hstep
      obtain ⟨service, hservice, rfl⟩ := Option.map_eq_some_iff.mp hstep
      exact ⟨h.gateway, h.service.step hservice, h.linked.written hsession hc hservice⟩
    · cases hstep
  | failed k =>
    obtain ⟨service, hservice, rfl⟩ := Option.map_eq_some_iff.mp hstep
    exact ⟨h.gateway, h.service.step hservice, h.linked.failed hservice⟩
  | reserve id outcome =>
    have hservice : s.service.step codec (.reserve id outcome) =
        some { s.service with db := s.service.db.changeStatus id .created .reserved outcome } := rfl
    obtain rfl := Option.some.inj hstep
    refine ⟨h.gateway, h.service.step hservice, ?_⟩
    exact ⟨h.linked.connections, h.linked.sessions, h.linked.carries, h.linked.executions, h.linked.received,
      h.linked.counted⟩

theorem SystemSound.run {actions : List SystemAction} (hs : SystemSound codec services s)
    (h : run (OrderSystem.step codec services) s actions = some t) : SystemSound codec services t :=
  run_invariant (fun _ _ _ hu hstep => hu.step hstep) hs h

end LiquidPetProject.EndToEnd
