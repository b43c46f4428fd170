import LiquidPetProject.GatewayServer
import LiquidPetProject.OrderSystemContract

namespace LiquidPetProject.GatewayService

open Models Http HttpServer Gateway OrderService EndToEnd Transitions GatewaySystem

def ClientMessage.request (m : ClientMessage) : Request := HttpMessageConverter.toHttpRequest m.message

def ClientMessage.handler (m : ClientMessage) : Option GatewayHandler :=
  findHandler buildRoutes m.request.method m.request.path

def Answers (gateway : ProxyHandler) (m : ClientMessage) (response : BeastResponse) : Prop :=
  ∃ answer, response = sessionResponse m.message answer ∧
    match m.handler with
    | none => answer = { status := .notFound }
    | some .health => answer = ⟨.ok, "OK"⟩
    | some .proxy => ∃ i, m.call = some i ∧ gateway.requests[i]? = some (m.request, .returned answer)

def InTurn (messages : List ClientMessage) (a b : ℕ × BeastResponse) : Prop :=
  ∀ m m', messages[a.1]? = some m → messages[b.1]? = some m' → m.session = m'.session → a.1 < b.1

structure WorksOn (s : GatewaySystem) (j : ℕ) (session : ClientSession) (m : ClientMessage) : Prop where
  current : s.messages[session.current]? = some m
  owner : m.session = j
  earlier : ∀ t ∈ s.told, ∀ m', s.messages[t.1]? = some m' → m'.session = j → t.1 < session.current

structure SessionSound (s : GatewaySystem) (j : ℕ) (session : ClientSession) : Prop where
  handling : ∀ message handler, session.pc = .handling message handler → ∃ m, WorksOn s j session m ∧
    m.message = message ∧ m.handler = some handler ∧ (handler = .proxy → m.call = some session.call)
  writing : ∀ response, session.pc = .writing response → ∃ m, WorksOn s j session m ∧
    Answers s.system.gateway m response

structure ServerSound (codec : TextCodec) (services : Services) (s : GatewaySystem) : Prop where
  system : SystemSound codec services s.system
  calls : s.messages.filterMap ClientMessage.call = List.range s.system.gateway.requests.length
  asked : ∀ m ∈ s.messages, ∀ i, m.call = some i → m.handler = some .proxy ∧ s.system.gateway.Asked i m.request
  sessions : ∀ (j : ℕ) session, s.sessions[j]? = some session → SessionSound s j session
  told : ∀ t ∈ s.told, ∃ m, s.messages[t.1]? = some m ∧ Answers s.system.gateway m t.2
  ordered : s.told.Pairwise (InTurn s.messages)

inductive Effect (codec : TextCodec) (services : Services) (s : GatewaySystem) : GatewaySystem → Prop
  | accepted : Effect codec services s { s with sessions := s.sessions ++ [{}] }
  | read {j : ℕ} {message : BeastRequest} {session : ClientSession} (hpc : session.pc = afterRead buildRoutes message)
      (hcurrent : session.current = s.messages.length) (hother : (ClientMessage.mk j message none).handler ≠ some .proxy) :
      Effect codec services s ((s.readMessage j message none).setSession j session)
  | proxied {j : ℕ} {message : BeastRequest} {session : ClientSession} {system : OrderSystem}
      (hpc : session.pc = afterRead buildRoutes message) (hcurrent : session.current = s.messages.length)
      (hcall : session.call = s.system.gateway.requests.length)
      (hproxy : (ClientMessage.mk j message none).handler = some .proxy)
      (hsystem : s.system.step codec services (.gateway (.handle (HttpMessageConverter.toHttpRequest message))) = some system) :
      Effect codec services s (({ s with system := system }.readMessage j message
        (some s.system.gateway.requests.length)).setSession j session)
  | handled {j : ℕ} {session : ClientSession} {message : BeastRequest} {handler : GatewayHandler} {answer : HandlerAnswer}
      (hj : s.sessions[j]? = some session) (hpc : session.pc = .handling message handler)
      (hanswer : s.handlerAnswer session handler = some answer) :
      Effect codec services s
        (s.setSession j { session with pc := .writing (sessionResponse message (handlerResponse answer)) })
  | written {j : ℕ} {session : ClientSession} {response : BeastResponse} {pc : SessionPc GatewayHandler}
      (hj : s.sessions[j]? = some session) (hpc : session.pc = .writing response) (hidle : pc = .reading ∨ pc = .closed) :
      Effect codec services s
        ({ s with told := s.told ++ [(session.current, response)] }.setSession j { session with pc := pc })
  | failed {j : ℕ} {session : ClientSession} (hpc : session.pc = .closed) :
      Effect codec services s (s.setSession j session)
  | behind {a : SystemAction} {system : OrderSystem} (ha : beginsCall a = false)
      (hsystem : s.system.step codec services a = some system) : Effect codec services s { s with system := system }

section Inversion

variable {codec : TextCodec} {services : Services} {s t : GatewaySystem} {j : ℕ} {session : ClientSession}

theorem sessionStep_read {pc pc' : SessionPc GatewayHandler} {message : BeastRequest}
    (h : sessionStep buildRoutes pc (.read message) = some pc') : pc' = afterRead buildRoutes message := by
  unfold sessionStep at h
  split at h
  all_goals simp_all

theorem sessionStep_failed {pc pc' : SessionPc GatewayHandler} (h : sessionStep buildRoutes pc .failed = some pc') :
    pc' = .closed := by
  unfold sessionStep at h
  split at h
  all_goals simp_all

theorem readStep_effect {message : BeastRequest} (h : s.readStep codec services j message session = some t) :
    Effect codec services s t := by
  obtain ⟨pc, hpc, h⟩ := Option.bind_eq_some_iff.mp h
  have hread := sessionStep_read hpc
  split at h
  · rename_i hproxy
    obtain ⟨system, hsystem, rfl⟩ := Option.map_eq_some_iff.mp h
    exact .proxied hread rfl rfl hproxy hsystem
  · rename_i hother
    obtain rfl := Option.some.inj h
    exact .read hread rfl hother

theorem handledStep_effect (hj : s.sessions[j]? = some session) (h : s.handledStep j session = some t) :
    Effect codec services s t := by
  unfold handledStep at h
  split at h
  · rename_i message handler hpc
    obtain ⟨answer, hanswer, h⟩ := Option.bind_eq_some_iff.mp h
    rw [hpc] at h
    obtain rfl := Option.some.inj h
    exact .handled hj hpc hanswer
  · cases h

theorem writtenStep_effect (hj : s.sessions[j]? = some session) (h : s.writtenStep j session = some t) :
    Effect codec services s t := by
  unfold writtenStep at h
  split at h
  · rename_i response hpc
    rw [hpc] at h
    obtain rfl := Option.some.inj h
    apply Effect.written hj hpc
    by_cases hkeep : response.keepAlive = true
    · exact .inl (if_pos hkeep)
    · exact .inr (if_neg hkeep)
  · cases h

theorem step_effect {a : GatewayAction} (h : s.step codec services a = some t) : Effect codec services s t := by
  cases a with
  | accept =>
    obtain rfl := Option.some.inj h
    exact .accepted
  | read j message =>
    obtain ⟨session, -, h⟩ := Option.bind_eq_some_iff.mp h
    exact readStep_effect h
  | handled j =>
    obtain ⟨session, hj, h⟩ := Option.bind_eq_some_iff.mp h
    exact handledStep_effect hj h
  | written j =>
    obtain ⟨session, hj, h⟩ := Option.bind_eq_some_iff.mp h
    exact writtenStep_effect hj h
  | failed j =>
    obtain ⟨session, -, h⟩ := Option.bind_eq_some_iff.mp h
    obtain ⟨pc, hpc, rfl⟩ := Option.map_eq_some_iff.mp h
    exact .failed (sessionStep_failed hpc)
  | system a =>
    simp only [GatewaySystem.step] at h
    split_ifs at h with ha
    obtain ⟨system, hsystem, rfl⟩ := Option.map_eq_some_iff.mp h
    exact .behind (by simpa using ha) hsystem

end Inversion

section Frame

structure KeepsCalls (g g' : ProxyHandler) : Prop where
  asked : ∀ i request, g.Asked i request → g'.Asked i request
  returned : ∀ (i : ℕ) request response, g.requests[i]? = some (request, .returned response) →
    g'.requests[i]? = some (request, .returned response)

variable {codec : TextCodec} {services : Services} {g g' : ProxyHandler} {a : ProxyAction}

theorem KeepsCalls.refl (g : ProxyHandler) : KeepsCalls g g := ⟨fun _ _ h => h, fun _ _ _ h => h⟩

theorem keepsCalls_step (h : ProxyHandler.step services g a = some g') : KeepsCalls g g' := by
  rcases step_moved h with ⟨asked, -, hrequests, hhistory⟩ | ⟨j, asked, pc, pc', es, hm⟩
  · refine ⟨(Kept.began hrequests hhistory).asked, ?_⟩
    intro i request response hi
    rw [hrequests, List.getElem?_append_left (List.getElem?_eq_some_iff.mp hi).1, hi]
  · refine ⟨fun i request hi => hm.asked hi, ?_⟩
    intro i request response hi
    have hij : j ≠ i := by
      rintro rfl
      obtain ⟨-, rfl⟩ := Prod.mk.inj (Option.some.inj (hm.before.symm.trans hi))
      have hmoves := hm.moves
      cases hmoves with
      | onward hpc => cases hpc
    rw [hm.requests, List.getElem?_set_ne hij, hi]

theorem length_step (h : ProxyHandler.step services g a = some g') (ha : ∀ request, a ≠ .handle request) :
    g'.requests.length = g.requests.length := by
  rcases step_moved h with ⟨asked, hasked, -, -⟩ | ⟨j, asked, pc, pc', es, hm⟩
  · exact absurd hasked (ha asked)
  · rw [hm.requests, List.length_set]

theorem gateway_step {s t : OrderSystem} {b : SystemAction} (hb : beginsCall b = false)
    (h : s.step codec services b = some t) :
    KeepsCalls s.gateway t.gateway ∧ t.gateway.requests.length = s.gateway.requests.length := by
  rcases (system_moves h).1 with hsame | ⟨c, hbegins, hc⟩
  · rw [hsame]
    exact ⟨KeepsCalls.refl _, rfl⟩
  · refine ⟨keepsCalls_step hc, length_step hc ?_⟩
    rintro request rfl
    rw [hbegins request rfl] at hb
    cases hb

theorem Answers.mono {m : ClientMessage} {response : BeastResponse} (h : Answers g m response)
    (hkept : KeepsCalls g g') : Answers g' m response := by
  obtain ⟨answer, hresponse, hanswer⟩ := h
  refine ⟨answer, hresponse, ?_⟩
  split at hanswer
  · exact hanswer
  · exact hanswer
  · obtain ⟨i, hcall, hi⟩ := hanswer
    exact ⟨i, hcall, hkept.returned i _ _ hi⟩

end Frame

section Steps

variable {codec : TextCodec} {services : Services} {s t : GatewaySystem} {j : ℕ} {k : Option ℕ} {session session' : ClientSession}

theorem ServerSound.start (codec : TextCodec) (services : Services) : ServerSound codec services {} := by
  refine ⟨SystemSound.start codec services, rfl, ?_, ?_, ?_, .nil⟩
  · intro m hm
    cases hm
  · intro j session hj
    cases hj
  · intro x hx
    cases hx

structure Leaves (k : Option ℕ) (s t : GatewaySystem) : Prop where
  calls : KeepsCalls s.system.gateway t.system.gateway
  messages : ∀ (n : ℕ) m, s.messages[n]? = some m → t.messages[n]? = some m
  told : ∀ x ∈ t.told, x ∈ s.told ∨ ∀ m, t.messages[x.1]? = some m → k = some m.session

theorem Leaves.worksOn (h : Leaves k s t) (hs : ServerSound codec services s) (hj : k ≠ some j) {m : ClientMessage}
    (hm : WorksOn s j session m) : WorksOn t j session m := by
  refine ⟨h.messages _ _ hm.current, hm.owner, ?_⟩
  intro x hx m' hm' howner
  rcases h.told x hx with hold | hnew
  · obtain ⟨found, hfound, -⟩ := hs.told x hold
    obtain rfl := Option.some.inj ((h.messages _ _ hfound).symm.trans hm')
    exact hm.earlier x hold found hfound howner
  · rw [← howner] at hj
    exact absurd (hnew m' hm') hj

theorem Leaves.keeps (h : Leaves k s t) (hs : ServerSound codec services s) (hj : k ≠ some j)
    (hsession : SessionSound s j session) : SessionSound t j session := by
  constructor
  · intro message handler hpc
    obtain ⟨m, hm, hrest⟩ := hsession.handling message handler hpc
    exact ⟨m, h.worksOn hs hj hm, hrest⟩
  · intro response hpc
    obtain ⟨m, hm, hanswers⟩ := hsession.writing response hpc
    exact ⟨m, h.worksOn hs hj hm, hanswers.mono h.calls⟩

theorem Leaves.told_sound (h : Leaves k s t) (hs : ServerSound codec services s) {x : ℕ × BeastResponse} (hx : x ∈ s.told) :
    ∃ m, t.messages[x.1]? = some m ∧ Answers t.system.gateway m x.2 := by
  obtain ⟨m, hm, hanswers⟩ := hs.told x hx
  exact ⟨m, h.messages _ _ hm, hanswers.mono h.calls⟩

theorem Leaves.ordered (h : Leaves k s t) (hs : ServerSound codec services s) : s.told.Pairwise (InTurn t.messages) := by
  refine hs.ordered.imp_of_mem ?_
  intro x y hx hy hturn m m' hm hm'
  obtain ⟨found, hfound, -⟩ := hs.told x hx
  obtain ⟨found', hfound', -⟩ := hs.told y hy
  obtain rfl := Option.some.inj ((h.messages _ _ hfound).symm.trans hm)
  obtain rfl := Option.some.inj ((h.messages _ _ hfound').symm.trans hm')
  exact hturn found found' hfound hfound'

theorem leaves_sessions (s : GatewaySystem) (sessions : List ClientSession) :
    Leaves none s { s with sessions := sessions } :=
  ⟨KeepsCalls.refl _, fun _ _ h => h, fun _ h => .inl h⟩

theorem ServerSound.accept (hs : ServerSound codec services s) :
    ServerSound codec services { s with sessions := s.sessions ++ [{}] } := by
  refine ⟨hs.system, hs.calls, hs.asked, ?_, hs.told, hs.ordered⟩
  intro j session hj
  rcases getElem?_concat_some hj with hold | ⟨-, rfl⟩
  · exact (leaves_sessions s _).keeps hs (by simp) (hs.sessions j session hold)
  · constructor
    · intro message handler hpc
      cases hpc
    · intro response hpc
      cases hpc

theorem ServerSound.behind (hs : ServerSound codec services s) {a : SystemAction} {system : OrderSystem}
    (ha : beginsCall a = false) (hstep : s.system.step codec services a = some system) :
    ServerSound codec services { s with system := system } := by
  obtain ⟨hkeeps, hlength⟩ := gateway_step ha hstep
  have hleaves : Leaves none s { s with system := system } := ⟨hkeeps, fun _ _ h => h, fun _ h => .inl h⟩
  refine ⟨hs.system.step hstep, ?_, ?_, ?_, ?_, hs.ordered⟩
  · rw [hlength]
    exact hs.calls
  · intro m hm i hcall
    obtain ⟨hhandler, hasked⟩ := hs.asked m hm i hcall
    exact ⟨hhandler, hkeeps.asked _ _ hasked⟩
  · intro j session hj
    exact hleaves.keeps hs (by simp) (hs.sessions j session hj)
  · intro x hx
    exact hleaves.told_sound hs hx

theorem ServerSound.move (hs : ServerSound codec services s) (hsession : SessionSound s j session) :
    ServerSound codec services (s.setSession j session) := by
  refine ⟨hs.system, hs.calls, hs.asked, ?_, hs.told, hs.ordered⟩
  intro i found hi
  apply (leaves_sessions s _).keeps hs (by simp)
  rcases getElem?_set_some hi with ⟨rfl, rfl⟩ | ⟨-, hold⟩
  · exact hsession
  · exact hs.sessions i found hold

theorem sessionSound_idle (hpc : session.pc = .reading ∨ session.pc = .closed) : SessionSound s j session := by
  constructor
  · intro message handler hhandling
    rw [hhandling] at hpc
    simp at hpc
  · intro response hwriting
    rw [hwriting] at hpc
    simp at hpc

theorem ServerSound.handled (hs : ServerSound codec services s) (hj : s.sessions[j]? = some session) {message : BeastRequest}
    {handler : GatewayHandler} {answer : HandlerAnswer} (hpc : session.pc = .handling message handler)
    (hanswer : s.handlerAnswer session handler = some answer) : ServerSound codec services
      (s.setSession j { session with pc := .writing (sessionResponse message (handlerResponse answer)) }) := by
  obtain ⟨m, hworks, rfl, hhandler, hcall⟩ := (hs.sessions j session hj).handling message handler hpc
  apply hs.move
  constructor
  · intro message' handler' hpc'
    cases hpc'
  · intro response hresponse
    obtain rfl := SessionPc.writing.inj hresponse
    refine ⟨m, ⟨hworks.current, hworks.owner, hworks.earlier⟩, handlerResponse answer, rfl, ?_⟩
    rw [hhandler]
    cases handler with
    | health =>
      obtain rfl := Option.some.inj hanswer
      rfl
    | proxy =>
      simp only [handlerAnswer] at hanswer
      split at hanswer
      · rename_i request response hreturned
        obtain rfl := Option.some.inj hanswer
        obtain ⟨-, hasked⟩ := hs.asked m (List.mem_of_getElem? hworks.current) session.call (hcall rfl)
        obtain rfl := asked_unique hasked ⟨_, hreturned⟩
        exact ⟨session.call, hcall rfl, hreturned⟩
      · cases hanswer

theorem ServerSound.written (hs : ServerSound codec services s) (hj : s.sessions[j]? = some session)
    {response : BeastResponse} {pc : SessionPc GatewayHandler} (hpc : session.pc = .writing response)
    (hidle : pc = .reading ∨ pc = .closed) : ServerSound codec services
      ({ s with told := s.told ++ [(session.current, response)] }.setSession j { session with pc := pc }) := by
  obtain ⟨m, hworks, hanswers⟩ := (hs.sessions j session hj).writing response hpc
  have hleaves : Leaves (some j) s ({ s with told := s.told ++ [(session.current, response)] }.setSession j
      { session with pc := pc }) := by
    refine ⟨KeepsCalls.refl _, fun _ _ h => h, ?_⟩
    intro x hx
    rcases List.mem_append.mp hx with hold | hnew
    · exact .inl hold
    · right
      intro m' hm'
      obtain rfl := List.mem_singleton.mp hnew
      obtain rfl := Option.some.inj (hworks.current.symm.trans hm')
      rw [hworks.owner]
  refine ⟨hs.system, hs.calls, hs.asked, ?_, ?_, ?_⟩
  · intro i found hi
    rcases getElem?_set_some hi with ⟨rfl, rfl⟩ | ⟨hij, hold⟩
    · exact sessionSound_idle hidle
    · exact hleaves.keeps hs (by simpa using Ne.symm hij) (hs.sessions i found hold)
  · intro x hx
    rcases List.mem_append.mp hx with hold | hnew
    · exact hleaves.told_sound hs hold
    · obtain rfl := List.mem_singleton.mp hnew
      exact ⟨m, hworks.current, hanswers⟩
  · apply List.pairwise_append.mpr
    refine ⟨hs.ordered, List.pairwise_singleton _ _, ?_⟩
    intro x hx y hy m' m'' hm' hm'' howner
    obtain rfl := List.mem_singleton.mp hy
    obtain rfl := Option.some.inj (hworks.current.symm.trans hm'')
    exact hworks.earlier x hx m' hm' (howner.trans hworks.owner)

theorem ServerSound.readMessage (hs : ServerSound codec services s) {message : BeastRequest} {call : Option ℕ}
    {system : OrderSystem} (hsystem : SystemSound codec services system)
    (hkeeps : KeepsCalls s.system.gateway system.gateway)
    (hcalls : s.messages.filterMap ClientMessage.call ++ call.toList = List.range system.gateway.requests.length)
    (hasked : ∀ i, call = some i → (ClientMessage.mk j message call).handler = some .proxy ∧
      system.gateway.Asked i (HttpMessageConverter.toHttpRequest message))
    (hcurrent : session.current = s.messages.length) (hpc : session.pc = afterRead buildRoutes message)
    (hawaits : (ClientMessage.mk j message call).handler = some .proxy → call = some session.call) :
    ServerSound codec services (({ s with system := system }.readMessage j message call).setSession j session) := by
  have hleaves : Leaves (some j) s (({ s with system := system }.readMessage j message call).setSession j session) := by
    refine ⟨hkeeps, ?_, fun _ h => .inl h⟩
    intro n m hm
    exact (List.getElem?_append_left (List.getElem?_eq_some_iff.mp hm).1).trans hm
  have hworks : WorksOn (({ s with system := system }.readMessage j message call).setSession j session) j session
      ⟨j, message, call⟩ := by
    refine ⟨?_, rfl, ?_⟩
    · rw [hcurrent]
      exact List.getElem?_concat_length
    · intro x hx m hm howner
      obtain ⟨found, hfound, -⟩ := hs.told x hx
      have hlt := (List.getElem?_eq_some_iff.mp hfound).1
      omega
  refine ⟨hsystem, ?_, ?_, ?_, ?_, ?_⟩
  · refine Eq.trans ?_ hcalls
    change (s.messages ++ [_]).filterMap _ = _
    rw [List.filterMap_append]
    cases call <;> rfl
  · intro m hm i hcall
    rcases List.mem_append.mp hm with hold | hnew
    · obtain ⟨hhandler, hi⟩ := hs.asked m hold i hcall
      exact ⟨hhandler, hkeeps.asked _ _ hi⟩
    · obtain rfl := List.mem_singleton.mp hnew
      exact hasked i hcall
  · intro i found hi
    rcases getElem?_set_some hi with ⟨rfl, rfl⟩ | ⟨hij, hold⟩
    · constructor
      · intro message' handler hhandling
        rw [hpc] at hhandling
        unfold afterRead at hhandling
        split at hhandling
        · cases hhandling
        · rename_i handler' hfound
          obtain ⟨rfl, rfl⟩ := SessionPc.handling.inj hhandling
          refine ⟨_, hworks, rfl, hfound, ?_⟩
          rintro rfl
          exact hawaits hfound
      · intro response hwriting
        rw [hpc] at hwriting
        unfold afterRead at hwriting
        split at hwriting
        · rename_i hfound
          obtain rfl := SessionPc.writing.inj hwriting
          refine ⟨_, hworks, { status := .notFound }, rfl, ?_⟩
          have hnone : (ClientMessage.mk i message call).handler = none := hfound
          rw [hnone]
        · cases hwriting
    · exact hleaves.keeps hs (by simpa using Ne.symm hij) (hs.sessions i found hold)
  · intro x hx
    exact hleaves.told_sound hs hx
  · exact hleaves.ordered hs

theorem ServerSound.proxied (hs : ServerSound codec services s) {message : BeastRequest} {system : OrderSystem}
    (hpc : session.pc = afterRead buildRoutes message) (hcurrent : session.current = s.messages.length)
    (hcall : session.call = s.system.gateway.requests.length)
    (hproxy : (ClientMessage.mk j message none).handler = some .proxy)
    (hsystem : s.system.step codec services (.gateway (.handle (HttpMessageConverter.toHttpRequest message))) = some system) :
    ServerSound codec services (({ s with system := system }.readMessage j message
      (some s.system.gateway.requests.length)).setSession j session) := by
  have hsound := hs.system.step hsystem
  simp only [OrderSystem.step] at hsystem
  split_ifs at hsystem
  obtain ⟨gateway, hgateway, rfl⟩ := Option.map_eq_some_iff.mp hsystem
  have hkeeps := keepsCalls_step hgateway
  obtain rfl := Option.some.inj hgateway
  refine hs.readMessage hsound hkeeps ?_ ?_ hcurrent hpc (fun _ => congrArg some hcall.symm)
  · rw [hs.calls, List.length_append, List.range_add]
    rfl
  · intro i hi
    obtain rfl := Option.some.inj hi
    exact ⟨hproxy, .started, List.getElem?_concat_length⟩

theorem ServerSound.effect (hs : ServerSound codec services s) (heffect : Effect codec services s t) :
    ServerSound codec services t := by
  cases heffect with
  | accepted => exact hs.accept
  | read hpc hcurrent hother =>
    refine hs.readMessage hs.system (KeepsCalls.refl _) ?_ ?_ hcurrent hpc ?_
    · rw [Option.toList_none, List.append_nil, hs.calls]
    · intro i hi
      cases hi
    · intro hproxy
      exact absurd hproxy hother
  | proxied hpc hcurrent hcall hproxy hsystem => exact hs.proxied hpc hcurrent hcall hproxy hsystem
  | handled hj hpc hanswer => exact hs.handled hj hpc hanswer
  | written hj hpc hidle => exact hs.written hj hpc hidle
  | failed hpc => exact hs.move (sessionSound_idle (.inr hpc))
  | behind ha hsystem => exact hs.behind ha hsystem

theorem ServerSound.step (hs : ServerSound codec services s) {a : GatewayAction}
    (hstep : s.step codec services a = some t) : ServerSound codec services t :=
  hs.effect (step_effect hstep)

theorem ServerSound.run (hs : ServerSound codec services s) {actions : List GatewayAction}
    (h : run (GatewaySystem.step codec services) s actions = some t) : ServerSound codec services t :=
  run_invariant (fun _ _ _ hu hstep => hu.step hstep) hs h

end Steps

end LiquidPetProject.GatewayService
