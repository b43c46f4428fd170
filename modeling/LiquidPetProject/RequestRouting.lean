import LiquidPetProject.PoolDiscipline

namespace LiquidPetProject.Gateway

open Models Http Transitions ProxyHandler

def HandlePc.service : HandlePc → Option (String × UpstreamConfiguration)
  | .started => none
  | .attempting a => some (a.pathPrefix, a.config)
  | .resolving a => some (a.pathPrefix, a.config)
  | .connecting a => some (a.pathPrefix, a.config)
  | .sending a _ _ => some (a.pathPrefix, a.config)
  | .writing a _ _ => some (a.pathPrefix, a.config)
  | .reading a _ _ => some (a.pathPrefix, a.config)
  | .releasing a _ _ => some (a.pathPrefix, a.config)
  | .failed a _ _ => some (a.pathPrefix, a.config)
  | .returned _ => none

def Event.asks : Event → Bool
  | .opened _ _ _ => true
  | .openFailed _ => true
  | .wrote _ _ _ => true
  | _ => false

def OnWay (pc : HandlePc) (i : ℕ) (config : UpstreamConfiguration) : Event → Prop
  | .began _ _ => False
  | .opened j _ upstream => j = i ∧ upstream = config
  | .wrote j x _ => j = i ∧ ∃ a pooled, pc = .sending a pooled x
  | .answered j status => j = i ∧ status = .badGateway
  | .closed _ => True
  | e => e.request = some i

inductive Moves (services : Services) (i : ℕ) (request : Request) : HandlePc → HandlePc → List Event → Prop
  | rejected {response} (hm : request.method = .unknown) :
      Moves services i request .started (.returned response) [.answered i .methodNotAllowed]
  | notFound {response} (hm : request.method ≠ .unknown) (hr : services.route request = none) :
      Moves services i request .started (.returned response) [.answered i .notFound]
  | routed {p config} (hm : request.method ≠ .unknown) (hr : services.route request = some (p, config)) :
      Moves services i request .started (.attempting ⟨p, config, 0⟩) []
  | onward {pc pc' p config es} (hpc : pc.service = some (p, config)) (hnot : pc' ≠ .started)
      (hkeep : pc'.service = none ∨ pc'.service = some (p, config)) (hes : ∀ e ∈ es, OnWay pc i config e) :
      Moves services i request pc pc' es

section Steps

variable {services : Services} {s t : ProxyHandler}

structure Moved (services : Services) (s t : ProxyHandler) (i : ℕ) (request : Request) (pc pc' : HandlePc)
    (es : List Event) : Prop where
  before : s.requests[i]? = some (request, pc)
  requests : t.requests = s.requests.set i (request, pc')
  history : t.history = s.history ++ es
  moves : Moves services i request pc pc' es

theorem Moved.advance {i : ℕ} {request : Request} {pc pc' : HandlePc} {es : List Event}
    (hi : s.requests[i]? = some (request, pc)) (hm : Moves services i request pc pc' es) :
    Moved services s (s.advance i request pc' es) i request pc pc' es :=
  ⟨hi, rfl, rfl, hm⟩

theorem routeRequest_moved {i : ℕ} {request : Request} (hi : s.requests[i]? = some (request, .started)) :
    ∃ pc' es, Moved services s (routeRequest services s i request) i request .started pc' es := by
  unfold routeRequest
  by_cases hm : request.method = .unknown
  · rw [if_pos hm]
    exact ⟨_, _, Moved.advance hi (.rejected hm)⟩
  · rw [if_neg hm]
    cases hr : services.route request with
    | none => exact ⟨_, _, Moved.advance hi (.notFound hm hr)⟩
    | some entry => exact ⟨_, _, Moved.advance hi (.routed hm hr)⟩

theorem acquireSocket_moved {i : ℕ} {request : Request} {a : Attempt}
    (hi : s.requests[i]? = some (request, .attempting a)) :
    ∃ pc' es, Moved services s (s.acquireSocket i request a) i request (.attempting a) pc' es := by
  unfold acquireSocket
  by_cases hlt : a.attempt < 2
  · rw [if_pos hlt]
    by_cases hone : a.attempt = 1
    · rw [if_pos hone]
      exact ⟨_, _, Moved.advance hi (.onward rfl (by simp) (.inr rfl) (by simp))⟩
    · rw [if_neg hone]
      cases (s.pools a.pathPrefix).getLast? with
      | none => exact ⟨_, _, Moved.advance hi (.onward rfl (by simp) (.inr rfl) (by simp))⟩
      | some socket =>
        exact ⟨.sending a true socket, [], hi, rfl, rfl, .onward rfl (by simp) (.inr rfl) (by simp)⟩
  · rw [if_neg hlt]
    exact ⟨_, _, Moved.advance hi (.onward rfl (by simp) (.inl rfl) (by simp [OnWay]))⟩

theorem releaseSocket_moved {i socket : ℕ} {request : Request} {a : Attempt} {response : BeastResponse}
    (hi : s.requests[i]? = some (request, .releasing a socket response)) (isOpen : Bool) :
    ∃ pc' es, Moved services s (s.releaseSocketIfReusable i request a socket response isOpen) i request
      (.releasing a socket response) pc' es := by
  unfold releaseSocketIfReusable
  by_cases hclose : (!response.keepAlive || !isOpen) = true
  · rw [if_pos hclose]
    exact ⟨_, _, Moved.advance hi (.onward rfl (by simp) (.inl rfl) (by simp [OnWay, Event.request]))⟩
  · rw [if_neg hclose]
    exact ⟨_, _, hi, rfl, rfl, .onward rfl (by simp) (.inl rfl) (by simp [OnWay, Event.request])⟩

theorem abandonSocket_moved {i socket : ℕ} {request : Request} {a : Attempt} {pooled : Bool}
    (hi : s.requests[i]? = some (request, .failed a pooled socket)) :
    ∃ pc' es, Moved services s (s.abandonSocket i request a pooled socket) i request (.failed a pooled socket)
      pc' es := by
  unfold abandonSocket
  by_cases hfresh : (!pooled) = true
  · rw [if_pos hfresh]
    exact ⟨_, _, Moved.advance hi (.onward rfl (by simp) (.inl rfl) (by simp [OnWay]))⟩
  · rw [if_neg hfresh]
    exact ⟨_, _, Moved.advance hi (.onward rfl (by simp) (.inr rfl) (by simp [OnWay]))⟩

theorem step_moved {action : ProxyAction} (h : ProxyHandler.step services s action = some t) :
    (∃ request, action = .handle request ∧ t.requests = s.requests ++ [(request, .started)] ∧
      t.history = s.history ++ [.began s.requests.length request]) ∨
    ∃ i request pc pc' es, Moved services s t i request pc pc' es := by
  cases action with
  | handle request =>
    obtain rfl := Option.some.inj h
    exact .inl ⟨request, rfl, rfl, rfl⟩
  | route i =>
    simp only [ProxyHandler.step] at h
    split at h
    · rename_i request hi
      obtain rfl := Option.some.inj h
      exact .inr ⟨i, request, _, routeRequest_moved hi⟩
    · cases h
  | acquire i =>
    simp only [ProxyHandler.step] at h
    split at h
    · rename_i request a hi
      obtain rfl := Option.some.inj h
      exact .inr ⟨i, request, _, acquireSocket_moved hi⟩
    · cases h
  | resolved i succeeded =>
    simp only [ProxyHandler.step] at h
    split at h
    · rename_i request a hi
      right
      refine ⟨i, request, .resolving a, ?_⟩
      split_ifs at h
      · obtain rfl := Option.some.inj h
        exact ⟨_, _, Moved.advance hi (.onward rfl (by simp) (.inr rfl) (by simp))⟩
      · obtain rfl := Option.some.inj h
        exact ⟨_, _, Moved.advance hi (.onward rfl (by simp) (.inl rfl) (by simp [OnWay, Event.request]))⟩
    · cases h
  | connected i succeeded =>
    simp only [ProxyHandler.step] at h
    split at h
    · rename_i request a hi
      right
      refine ⟨i, request, .connecting a, ?_⟩
      split_ifs at h
      · obtain rfl := Option.some.inj h
        exact ⟨.sending a false s.nextSocket, _, hi, rfl, rfl, .onward rfl (by simp) (.inr rfl) (by simp [OnWay])⟩
      · obtain rfl := Option.some.inj h
        exact ⟨_, _, Moved.advance hi (.onward rfl (by simp) (.inl rfl) (by simp [OnWay, Event.request]))⟩
    · cases h
  | send i =>
    simp only [ProxyHandler.step] at h
    split at h
    · rename_i request a pooled socket hi
      obtain rfl := Option.some.inj h
      right
      refine ⟨i, request, _, _, _, Moved.advance hi (.onward rfl (by simp) (.inr rfl) ?_)⟩
      intro e he
      rw [List.mem_singleton.mp he]
      exact ⟨rfl, a, pooled, rfl⟩
    · cases h
  | written i =>
    simp only [ProxyHandler.step] at h
    split at h
    · rename_i request a pooled socket hi
      obtain rfl := Option.some.inj h
      exact .inr ⟨i, request, _, _, _, Moved.advance hi (.onward rfl (by simp) (.inr rfl) (by simp))⟩
    · cases h
  | received i response =>
    simp only [ProxyHandler.step] at h
    split at h
    · rename_i request a pooled socket hi
      obtain rfl := Option.some.inj h
      exact .inr ⟨i, request, _, _, _,
        Moved.advance hi (.onward rfl (by simp) (.inr rfl) (by simp [OnWay, Event.request]))⟩
    · cases h
  | broken i executed =>
    simp only [ProxyHandler.step] at h
    split at h
    · rename_i request a pooled socket hi
      obtain rfl := Option.some.inj h
      exact .inr ⟨i, request, _, _, _,
        Moved.advance hi (.onward rfl (by simp) (.inr rfl) (by simp [OnWay, Event.request]))⟩
    · rename_i request a pooled socket hi
      obtain rfl := Option.some.inj h
      exact .inr ⟨i, request, _, _, _,
        Moved.advance hi (.onward rfl (by simp) (.inr rfl) (by simp [OnWay, Event.request]))⟩
    · cases h
  | release i isOpen =>
    simp only [ProxyHandler.step] at h
    split at h
    · rename_i request a socket response hi
      obtain rfl := Option.some.inj h
      exact .inr ⟨i, request, _, releaseSocket_moved hi isOpen⟩
    · cases h
  | abandon i =>
    simp only [ProxyHandler.step] at h
    split at h
    · rename_i request a pooled socket hi
      obtain rfl := Option.some.inj h
      exact .inr ⟨i, request, _, abandonSocket_moved hi⟩
    · cases h

end Steps

def Chosen (services : Services) (request : Request) (entry : String × UpstreamConfiguration) : Prop :=
  request.method ≠ .unknown ∧ services.route request = some entry

def Unmatched (services : Services) (request : Request) : Prop :=
  request.method ≠ .unknown ∧ services.route request = none

def Allowed (services : Services) (history : List Event) (request : Request) : Event → Prop
  | .opened _ _ upstream => ∃ p, Chosen services request (p, upstream)
  | .openFailed _ => ∃ entry, Chosen services request entry
  | .wrote _ x _ => ∃ p upstream, Chosen services request (p, upstream) ∧ ∃ j, .opened j x upstream ∈ history
  | .answered _ status => status = .notFound → Unmatched services request
  | _ => True

theorem Allowed.mono {services : Services} {history : List Event} {request : Request} {e : Event}
    (h : Allowed services history request e) (es : List Event) : Allowed services (history ++ es) request e := by
  cases e with
  | wrote i x message =>
    obtain ⟨p, upstream, hchosen, j, ho⟩ := h
    exact ⟨p, upstream, hchosen, j, List.mem_append_left _ ho⟩
  | _ => exact h

structure Placed (services : Services) (history : List Event) (i : ℕ) (request : Request) (pc : HandlePc) : Prop where
  chosen : ∀ entry, pc.service = some entry → Chosen services request entry
  answered : pc ≠ .started → Unmatched services request → .answered i .notFound ∈ history

structure Routed (services : Services) (s : ProxyHandler) : Prop where
  places : ∀ i request pc, s.requests[i]? = some (request, pc) → Placed services s.history i request pc
  events : ∀ e ∈ s.history, ∀ i, e.request = some i →
    ∃ request pc, s.requests[i]? = some (request, pc) ∧ Allowed services s.history request e

section Invariant

variable {services : Services} {s t : ProxyHandler} {i : ℕ} {request : Request} {pc pc' : HandlePc} {es : List Event}

theorem Placed.mono (h : Placed services s.history i request pc) (es : List Event) :
    Placed services (s.history ++ es) i request pc :=
  ⟨h.chosen, fun hpc hnone => List.mem_append_left _ (h.answered hpc hnone)⟩

theorem Routed.initial (services : Services) : Routed services {} := by
  constructor
  · intro i request pc hi
    simp at hi
  · intro e he
    cases he

theorem Routed.begin (h : Routed services s) {request : Request}
    (hreq : t.requests = s.requests ++ [(request, .started)])
    (hhist : t.history = s.history ++ [.began s.requests.length request]) : Routed services t := by
  constructor
  · intro i request' pc hi
    rw [hreq] at hi
    rw [hhist]
    rcases getElem?_concat_some hi with hold | ⟨-, hnew⟩
    · exact (h.places i request' pc hold).mono _
    · obtain ⟨rfl, rfl⟩ := Prod.mk.inj hnew
      exact ⟨fun _ => nofun, fun hne => absurd rfl hne⟩
  · intro e he i hi
    rw [hhist] at he
    rw [hreq, hhist]
    rcases List.mem_append.mp he with hold | hnew
    · obtain ⟨request', pc, hr, hallowed⟩ := h.events e hold i hi
      have hlt : i < s.requests.length := (List.getElem?_eq_some_iff.mp hr).1
      exact ⟨request', pc, by rwa [List.getElem?_append_left hlt], hallowed.mono _⟩
    · obtain rfl := List.mem_singleton.mp hnew
      obtain rfl := Option.some.inj hi
      exact ⟨request, .started, List.getElem?_concat_length, trivial⟩

theorem Routed.move (h : Routed services s) (hm : Moved services s t i request pc pc' es)
    (hplace : Placed services (s.history ++ es) i request pc')
    (hes : ∀ e ∈ es, ∀ j, e.request = some j → j = i ∧ Allowed services (s.history ++ es) request e) :
    Routed services t := by
  have hlt : i < s.requests.length := (List.getElem?_eq_some_iff.mp hm.before).1
  constructor
  · intro j request' pc'' hj
    rw [hm.requests, List.getElem?_set] at hj
    rw [hm.history]
    split_ifs at hj with hij
    · obtain ⟨rfl, rfl⟩ := Prod.mk.inj (Option.some.inj hj)
      rwa [← hij]
    · exact (h.places j request' pc'' hj).mono es
  · intro e he j hj
    rw [hm.history] at he
    rw [hm.requests, hm.history]
    rcases List.mem_append.mp he with hold | hnew
    · obtain ⟨request', pc'', hr, hallowed⟩ := h.events e hold j hj
      by_cases hij : i = j
      · subst hij
        obtain ⟨rfl, -⟩ := Prod.mk.inj (Option.some.inj (hm.before.symm.trans hr))
        exact ⟨request, pc', List.getElem?_set_self hlt, hallowed.mono es⟩
      · exact ⟨request', pc'', by rwa [List.getElem?_set_ne hij], hallowed.mono es⟩
    · obtain ⟨rfl, hallowed⟩ := hes e hnew j hj
      exact ⟨request, pc', List.getElem?_set_self hlt, hallowed⟩

theorem Disciplined.sending_opened (h : Disciplined services s) {a : Attempt} {pooled : Bool} {x : ℕ}
    (hi : s.requests[i]? = some (request, .sending a pooled x)) : ∃ j, .opened j x a.config ∈ s.history := by
  obtain ⟨-, -, husable, -⟩ := h.requests i request _ hi
  obtain ⟨j, ho⟩ := husable.opened
  exact ⟨j, (mem_socketLog.mp ho).1⟩

theorem OnWay.allowed (hd : Disciplined services s) (hi : s.requests[i]? = some (request, pc)) {p : String}
    {config : UpstreamConfiguration} (hpc : pc.service = some (p, config)) (hchosen : Chosen services request (p, config))
    {e : Event} (he : OnWay pc i config e) {j : ℕ} (hj : e.request = some j) :
    j = i ∧ Allowed services (s.history ++ es) request e := by
  cases e with
  | began k message => exact False.elim he
  | opened k x upstream =>
    obtain ⟨rfl, rfl⟩ := he
    exact ⟨(Option.some.inj hj).symm, p, hchosen⟩
  | wrote k x message =>
    obtain ⟨rfl, a, pooled, rfl⟩ := he
    obtain ⟨l, ho⟩ := hd.sending_opened hi
    obtain ⟨rfl, rfl⟩ := Prod.mk.inj (Option.some.inj hpc)
    exact ⟨(Option.some.inj hj).symm, _, _, hchosen, l, List.mem_append_left _ ho⟩
  | answered k status =>
    obtain ⟨rfl, rfl⟩ := he
    refine ⟨(Option.some.inj hj).symm, fun hstatus => ?_⟩
    cases hstatus
  | closed x => cases hj
  | openFailed k => exact ⟨Option.some.inj (hj.symm.trans he), _, hchosen⟩
  | received k x response => exact ⟨Option.some.inj (hj.symm.trans he), trivial⟩
  | exchangeFailed k x executed => exact ⟨Option.some.inj (hj.symm.trans he), trivial⟩
  | forwarded k response => exact ⟨Option.some.inj (hj.symm.trans he), trivial⟩

theorem Routed.step (h : Routed services s) (hd : Disciplined services s) {action : ProxyAction}
    (hstep : ProxyHandler.step services s action = some t) : Routed services t := by
  rcases step_moved hstep with ⟨request, -, hreq, hhist⟩ | ⟨i, request, pc, pc', es, hm⟩
  · exact h.begin hreq hhist
  have hplace := h.places i request pc hm.before
  apply h.move hm
  · cases hm.moves with
    | rejected hmethod => exact ⟨fun _ => nofun, fun _ hnone => absurd hmethod hnone.1⟩
    | notFound hmethod hr => exact ⟨fun _ => nofun, fun _ _ => List.mem_append_right _ (List.mem_singleton_self _)⟩
    | routed hmethod hr =>
      constructor
      · rintro entry ⟨⟩
        exact ⟨hmethod, hr⟩
      · intro _ hnone
        cases hr.symm.trans hnone.2
    | onward hpc hnot hkeep hes =>
      have hchosen := hplace.chosen _ hpc
      constructor
      · intro entry hentry
        rcases hkeep with hnone | hsame
        · rw [hnone] at hentry
          cases hentry
        · obtain rfl := Option.some.inj (hsame.symm.trans hentry)
          exact hchosen
      · intro _ hnone
        cases hchosen.2.symm.trans hnone.2
  · intro e he j hj
    cases hm.moves with
    | rejected hmethod =>
      obtain rfl := List.mem_singleton.mp he
      refine ⟨(Option.some.inj hj).symm, fun hstatus => ?_⟩
      cases hstatus
    | notFound hmethod hr =>
      obtain rfl := List.mem_singleton.mp he
      exact ⟨(Option.some.inj hj).symm, fun _ => ⟨hmethod, hr⟩⟩
    | routed hmethod hr => cases he
    | onward hpc hnot hkeep hes => exact (hes e he).allowed hd hm.before hpc (hplace.chosen _ hpc) hj

theorem Routed.run {actions : List ProxyAction}
    (h : LiquidPetProject.Transitions.run (ProxyHandler.step services) {} actions = some s) : Routed services s := by
  have hboth : Disciplined services s ∧ Routed services s := by
    refine run_invariant (I := fun u => Disciplined services u ∧ Routed services u) ?_ ?_ h
    · rintro u a v ⟨hd, hr⟩ hstep
      exact ⟨hd.step hstep, hr.step hd hstep⟩
    · exact ⟨Disciplined.initial services, Routed.initial services⟩
  exact hboth.2

end Invariant

end LiquidPetProject.Gateway
