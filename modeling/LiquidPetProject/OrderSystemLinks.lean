import LiquidPetProject.OrderServiceRuns
import LiquidPetProject.OrderSystem

namespace LiquidPetProject.EndToEnd

open Models Http HttpServer Gateway OrderService Transitions

theorem sum_map_set {α : Type} {f : α → ℕ} {l : List α} {k : ℕ} {a : α} (h : l[k]? = some a) (b : α) :
    ((l.set k b).map f).sum + f a = (l.map f).sum + f b := by
  induction l generalizing k with
  | nil => cases h
  | cons c l ih =>
    cases k with
    | zero =>
      obtain rfl := Option.some.inj h
      simp only [List.set_cons_zero, List.map_cons, List.sum_cons]
      omega
    | succ k =>
      have hset := ih h
      simp only [List.set_cons_succ, List.map_cons, List.sum_cons] at hset ⊢
      omega

theorem set_of_getElem? {α : Type} {l : List α} {k : ℕ} {a : α} (h : l[k]? = some a) : l.set k a = l := by
  obtain ⟨hlt, rfl⟩ := List.getElem?_eq_some_iff.mp h
  exact List.set_getElem_self hlt

def working (session : Session) : List ℕ :=
  match session.pc with
  | .handling _ _ => [session.sender]
  | .writing _ => [session.sender]
  | _ => []

def pending (c : Connection) (session : Session) : List ℕ :=
  c.requests.map Prod.fst ++ working session ++ c.responses.map Prod.fst

def Connection.waits (i : ℕ) (c : Connection) : ℕ := c.requests.countP (fun m => m.1 = i)

def sessionWaits (i : ℕ) (session : Session) : ℕ :=
  match session.pc with
  | .handling _ _ => if session.sender = i then 1 else 0
  | _ => 0

def waiting (i : ℕ) (connections : List Connection) (sessions : List Session) : ℕ :=
  (connections.map (Connection.waits i)).sum + (sessions.map (sessionWaits i)).sum

def executionsOf (i : ℕ) (executions : List Execution) : List Execution :=
  executions.filter (fun e => e.sender = i)

def Answers (executions : List Execution) (i : ℕ) (response : BeastResponse) : Prop :=
  ∃ e ∈ executions, e.sender = i ∧ e.response = HttpMessageConverter.toHttpResponse response

def Sends (g : ProxyHandler) (i : ℕ) (message : BeastRequest) : Prop :=
  g.Asked i (HttpMessageConverter.toHttpRequest message)

structure Carries (g : ProxyHandler) (executions : List Execution) (x : ℕ) (c : Connection) (session : Session) : Prop where
  single : (pending c session).length ≤ 1
  own : ∀ i ∈ pending c session, g.exchanging i = some x ∨ g.Spoiled x
  requests : ∀ i message, (i, message) ∈ c.requests → Sends g i message
  handled : ∀ message handler, session.pc = .handling message handler → Sends g session.sender message
  written : ∀ response, session.pc = .writing response → Answers executions session.sender response
  responses : ∀ i response, (i, response) ∈ c.responses → Answers executions i response

structure Linked (s : OrderSystem) : Prop where
  connections : s.connections.length = s.gateway.nextSocket
  sessions : s.service.sessions.length = s.gateway.nextSocket
  carries : ∀ (x : ℕ) c session, s.connections[x]? = some c → s.service.sessions[x]? = some session →
    Carries s.gateway s.service.executions x c session
  executions : ∀ e ∈ s.service.executions, s.gateway.Asked e.sender e.request
  received : ∀ i x response, .received i x response ∈ s.gateway.history → Answers s.service.executions i response
  counted : ∀ i, (executionsOf i s.service.executions).length + waiting i s.connections s.service.sessions ≤
    (exchanges i s.gateway.history).length

variable {g g' : ProxyHandler} {es : List Event} {executions new : List Execution} {x : ℕ} {c : Connection}
  {session : Session} {s : OrderSystem}

theorem Answers.mono {i : ℕ} {response : BeastResponse} (h : Answers executions i response) (new : List Execution) :
    Answers (executions ++ new) i response := by
  obtain ⟨e, he, hanswer⟩ := h
  exact ⟨e, List.mem_append_left _ he, hanswer⟩

theorem Spoiled.mono (h : g.Spoiled x) (hk : Kept g g' es) : g'.Spoiled x := by
  obtain ⟨e, he, hbreaks⟩ := h
  refine ⟨e, ?_, hbreaks⟩
  rw [hk.history]
  exact List.mem_append_left _ he

theorem Carries.frame (h : Carries g executions x c session) (hk : Kept g g' es)
    (hes : ∀ i response, .received i x response ∉ es) (new : List Execution) :
    Carries g' (executions ++ new) x c session := by
  refine ⟨h.single, ?_, ?_, ?_, ?_, ?_⟩
  · intro i hi
    rcases h.own i hi with hexchanging | hspoiled
    · rcases hk.exchanging i x hexchanging with hkept | hspoiled | ⟨response, hreceived⟩
      · exact .inl hkept
      · exact .inr hspoiled
      · exact absurd hreceived (hes i response)
    · exact .inr (Spoiled.mono hspoiled hk)
  · exact fun i message hmem => hk.asked _ _ (h.requests i message hmem)
  · exact fun message handler hpc => hk.asked _ _ (h.handled message handler hpc)
  · exact fun response hpc => (h.written response hpc).mono new
  · exact fun i response hmem => (h.responses i response hmem).mono new

theorem executionsOf_append (i : ℕ) :
    executionsOf i (executions ++ new) = executionsOf i executions ++ executionsOf i new :=
  List.filter_append ..

theorem Linked.exchange (h : Linked s) (db : Repository.OrderTables String) {k : ℕ} (hc : s.connections[k]? = some c)
    (hsession : s.service.sessions[k]? = some session) (hk : Kept s.gateway g' es)
    (hnext : g'.nextSocket = s.gateway.nextSocket) {c' : Connection} {session' : Session}
    (hcarries : Carries g' (s.service.executions ++ new) k c' session')
    (hes : ∀ i x response, .received i x response ∈ es → x = k ∧ Answers s.service.executions i response)
    (hnew : ∀ e ∈ new, g'.Asked e.sender e.request)
    (hcount : ∀ i, (executionsOf i new).length + c'.waits i + sessionWaits i session' ≤
      (exchanges i es).length + c.waits i + sessionWaits i session) :
    Linked ⟨g', ⟨db, s.service.sessions.set k session', s.service.executions ++ new⟩, s.connections.set k c'⟩ := by
  refine ⟨?_, ?_, ?_, ?_, ?_, ?_⟩
  · rw [List.length_set, hnext]
    exact h.connections
  · rw [List.length_set, hnext]
    exact h.sessions
  · intro x d other hd hother
    dsimp only at hd hother ⊢
    rw [List.getElem?_set] at hd hother
    by_cases hx : k = x
    · subst hx
      rw [if_pos rfl, if_pos (List.getElem?_eq_some_iff.mp hc).1] at hd
      rw [if_pos rfl, if_pos (List.getElem?_eq_some_iff.mp hsession).1] at hother
      obtain rfl := Option.some.inj hd
      obtain rfl := Option.some.inj hother
      exact hcarries
    · rw [if_neg hx] at hd hother
      apply (h.carries x d other hd hother).frame hk
      intro i response hreceived
      exact hx (hes i x response hreceived).1.symm
  · intro e he
    rcases List.mem_append.mp he with hold | hadded
    · exact hk.asked _ _ (h.executions e hold)
    · exact hnew e hadded
  · intro i x response hreceived
    dsimp only at hreceived
    rw [hk.history] at hreceived
    rcases List.mem_append.mp hreceived with hold | hadded
    · exact (h.received i x response hold).mono new
    · exact (hes i x response hadded).2.mono new
  · intro i
    have hcounted := h.counted i
    have hone := hcount i
    have hconnections := sum_map_set (f := Connection.waits i) hc c'
    have hsessions := sum_map_set (f := sessionWaits i) hsession session'
    dsimp only
    rw [hk.history, exchanges_append, executionsOf_append, List.length_append, List.length_append]
    unfold waiting at hcounted ⊢
    omega

end LiquidPetProject.EndToEnd
