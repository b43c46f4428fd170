import Mathlib.Data.List.Nodup
import LiquidPetProject.ProxyHandler

namespace LiquidPetProject.Gateway

open Models Http Transitions ProxyHandler

def HandlePc.owned : HandlePc → Option ℕ
  | .sending _ _ x => some x
  | .writing _ _ x => some x
  | .reading _ _ x => some x
  | .releasing _ x _ => some x
  | .failed _ _ x => some x
  | _ => none

namespace Event

def request : Event → Option ℕ
  | .began i _ => some i
  | .opened i _ _ => some i
  | .openFailed i => some i
  | .wrote i _ _ => some i
  | .received i _ _ => some i
  | .exchangeFailed i _ _ => some i
  | .closed _ => none
  | .forwarded i _ => some i
  | .answered i _ => some i

def socket : Event → Option ℕ
  | .opened _ x _ => some x
  | .wrote _ x _ => some x
  | .received _ x _ => some x
  | .exchangeFailed _ x _ => some x
  | .closed x => some x
  | _ => none

def breaks : Event → Bool
  | .exchangeFailed _ _ _ => true
  | .closed _ => true
  | _ => false

def writes : Event → Bool
  | .wrote _ _ _ => true
  | _ => false

def executed : Event → Bool
  | .received _ _ _ => true
  | .exchangeFailed _ _ executed => executed
  | _ => false

end Event

def socketLog (x : ℕ) (history : List Event) : List Event := history.filter (fun e => e.socket = some x)

def requestLog (i : ℕ) (history : List Event) : List Event := history.filter (fun e => e.request = some i)

def exchanges (i : ℕ) (history : List Event) : List Event := (requestLog i history).filter Event.writes

def executions (i : ℕ) (history : List Event) : List Event := (requestLog i history).filter Event.executed

inductive Holder
  | request (i : ℕ)
  | pool (pathPrefix : String) (position : ℕ)
  deriving DecidableEq, Repr

namespace ProxyHandler

def holds (s : ProxyHandler) : Holder → Option ℕ
  | .request i => (s.requests[i]?).bind (fun r => r.2.owned)
  | .pool pathPrefix position => (s.pools pathPrefix)[position]?

def Live (s : ProxyHandler) (x : ℕ) : Prop :=
  (∃ i upstream, .opened i x upstream ∈ s.history) ∧ .closed x ∉ s.history

end ProxyHandler

section Logs

variable {x i : ℕ} {history es : List Event} {e : Event}

@[simp] theorem socketLog_append : socketLog x (history ++ es) = socketLog x history ++ socketLog x es :=
  List.filter_append ..

@[simp] theorem requestLog_append : requestLog i (history ++ es) = requestLog i history ++ requestLog i es :=
  List.filter_append ..

@[simp] theorem exchanges_append : exchanges i (history ++ es) = exchanges i history ++ exchanges i es := by
  simp [exchanges]

@[simp] theorem executions_append : executions i (history ++ es) = executions i history ++ executions i es := by
  simp [executions]

theorem mem_socketLog : e ∈ socketLog x history ↔ e ∈ history ∧ e.socket = some x := by
  simp [socketLog]

theorem mem_requestLog : e ∈ requestLog i history ↔ e ∈ history ∧ e.request = some i := by
  simp [requestLog]

theorem socketLog_of_ne (h : ∀ e ∈ es, e.socket ≠ some x) : socketLog x es = [] := by
  simpa [socketLog] using h

theorem requestLog_of_ne (h : ∀ e ∈ es, e.request ≠ some i) : requestLog i es = [] := by
  simpa [requestLog] using h

end Logs

/-- What a request has done before its attempt of that number: a second attempt follows a failure on a
socket that another request opened. -/
inductive Attempted (history : List Event) (i : ℕ) (request : Request) : ℕ → List Event → Prop
  | first : Attempted history i request 0 [.began i request]
  | retried {j x : ℕ} {upstream : UpstreamConfiguration} {message : BeastRequest} {executed : Bool} (hj : j ≠ i)
      (ho : .opened j x upstream ∈ history) :
      Attempted history i request 1 [.began i request, .wrote i x message, .exchangeFailed i x executed]

inductive Ready (history : List Event) (i : ℕ) (request : Request) (x : ℕ) (config : UpstreamConfiguration) :
    ℕ → Bool → List Event → Prop
  | pooled {j : ℕ} {upstream : UpstreamConfiguration} (hj : j ≠ i) (ho : .opened j x upstream ∈ history) :
      Ready history i request x config 0 true [.began i request]
  | fresh {n : ℕ} {log : List Event} (h : Attempted history i request n log) :
      Ready history i request x config n false (log ++ [.opened i x config])

structure Usable (x : ℕ) (config : UpstreamConfiguration) (log : List Event) : Prop where
  opened : ∃ j, .opened j x config ∈ log
  unbroken : ∀ e ∈ log, e.breaks = false

def Idle (x : ℕ) (log : List Event) : Prop :=
  ∃ i response, log.getLast? = some (.received i x response) ∧ response.keepAlive = true

def Sound (services : Services) (history : List Event) (i : ℕ) (request : Request) : HandlePc → Prop
  | .started => requestLog i history = [.began i request]
  | .attempting a | .resolving a | .connecting a =>
    (a.pathPrefix, a.config) ∈ services.entries ∧
      Attempted history i request a.attempt (requestLog i history)
  | .sending a pooled x =>
    (a.pathPrefix, a.config) ∈ services.entries ∧
      Ready history i request x a.config a.attempt pooled (requestLog i history) ∧
      Usable x a.config (socketLog x history) ∧
      (pooled = false → socketLog x history = [.opened i x a.config])
  | .writing a pooled x | .reading a pooled x =>
    (a.pathPrefix, a.config) ∈ services.entries ∧
      (∃ log, Ready history i request x a.config a.attempt pooled log ∧
        requestLog i history = log ++ [.wrote i x (exchangeRequest request a.config.host)]) ∧
      Usable x a.config (socketLog x history) ∧
      (socketLog x history).getLast? = some (.wrote i x (exchangeRequest request a.config.host))
  | .releasing a x response =>
    (a.pathPrefix, a.config) ∈ services.entries ∧ .received i x response ∈ history ∧
      Usable x a.config (socketLog x history) ∧
      (socketLog x history).getLast? = some (.received i x response)
  | .failed a pooled x =>
    (a.pathPrefix, a.config) ∈ services.entries ∧
      (∃ log executed, Ready history i request x a.config a.attempt pooled log ∧
        requestLog i history = log ++ [.wrote i x (exchangeRequest request a.config.host),
          .exchangeFailed i x executed]) ∧
      (∃ j, .opened j x a.config ∈ history) ∧ .closed x ∉ history
  | .returned response =>
    (∃ x r, .received i x r ∈ history ∧ response = HttpMessageConverter.toHttpResponse r) ∨
      ∃ status, response = { status := status } ∧ .answered i status ∈ history

theorem Attempted.mono {history : List Event} {i n : ℕ} {request : Request} {log : List Event}
    (h : Attempted history i request n log) (es : List Event) : Attempted (history ++ es) i request n log := by
  cases h with
  | first => exact .first
  | retried hj ho => exact .retried hj (List.mem_append_left _ ho)

theorem Ready.mono {history : List Event} {i x n : ℕ} {request : Request} {config : UpstreamConfiguration}
    {pooled : Bool} {log : List Event} (h : Ready history i request x config n pooled log) (es : List Event) :
    Ready (history ++ es) i request x config n pooled log := by
  cases h with
  | pooled hj ho => exact .pooled hj (List.mem_append_left _ ho)
  | fresh ha => exact .fresh (ha.mono es)

theorem Sound.frame {services : Services} {history es : List Event} {i : ℕ} {request : Request} {pc : HandlePc}
    (h : Sound services history i request pc) (hreq : ∀ e ∈ es, e.request ≠ some i)
    (hsock : ∀ x, pc.owned = some x → ∀ e ∈ es, e.socket ≠ some x) :
    Sound services (history ++ es) i request pc := by
  have hr := requestLog_of_ne hreq
  cases pc with
  | started =>
    simp only [Sound, requestLog_append, hr, List.append_nil]
    exact h
  | attempting a =>
    simp only [Sound, requestLog_append, hr, List.append_nil]
    exact ⟨h.1, h.2.mono es⟩
  | resolving a =>
    simp only [Sound, requestLog_append, hr, List.append_nil]
    exact ⟨h.1, h.2.mono es⟩
  | connecting a =>
    simp only [Sound, requestLog_append, hr, List.append_nil]
    exact ⟨h.1, h.2.mono es⟩
  | sending a pooled x =>
    have hx := socketLog_of_ne (hsock x rfl)
    obtain ⟨hm, hready, husable, hfresh⟩ := h
    simp only [Sound, requestLog_append, socketLog_append, hr, hx, List.append_nil]
    exact ⟨hm, hready.mono es, husable, hfresh⟩
  | writing a pooled x =>
    have hx := socketLog_of_ne (hsock x rfl)
    obtain ⟨hm, ⟨log, hready, hlog⟩, husable, hlast⟩ := h
    simp only [Sound, requestLog_append, socketLog_append, hr, hx, List.append_nil]
    exact ⟨hm, ⟨log, hready.mono es, hlog⟩, husable, hlast⟩
  | reading a pooled x =>
    have hx := socketLog_of_ne (hsock x rfl)
    obtain ⟨hm, ⟨log, hready, hlog⟩, husable, hlast⟩ := h
    simp only [Sound, requestLog_append, socketLog_append, hr, hx, List.append_nil]
    exact ⟨hm, ⟨log, hready.mono es, hlog⟩, husable, hlast⟩
  | releasing a x response =>
    have hx := socketLog_of_ne (hsock x rfl)
    obtain ⟨hm, hreceived, husable, hlast⟩ := h
    simp only [Sound, socketLog_append, hx, List.append_nil]
    exact ⟨hm, List.mem_append_left _ hreceived, husable, hlast⟩
  | failed a pooled x =>
    have hx := hsock x rfl
    obtain ⟨hm, ⟨log, executed, hready, hlog⟩, ⟨j, ho⟩, hc⟩ := h
    simp only [Sound, requestLog_append, hr, List.append_nil]
    refine ⟨hm, ⟨log, executed, hready.mono es, hlog⟩, ⟨j, List.mem_append_left _ ho⟩, ?_⟩
    rw [List.mem_append, not_or]
    exact ⟨hc, fun he => hx _ he rfl⟩
  | returned response =>
    rcases h with ⟨x, r, hreceived, hresponse⟩ | ⟨status, hresponse, hanswered⟩
    · exact .inl ⟨x, r, List.mem_append_left _ hreceived, hresponse⟩
    · exact .inr ⟨status, hresponse, List.mem_append_left _ hanswered⟩

theorem Sound.owned {services : Services} {history : List Event} {i : ℕ} {request : Request} {pc : HandlePc}
    (h : Sound services history i request pc) {x : ℕ} (hx : pc.owned = some x) :
    (∃ j upstream, .opened j x upstream ∈ history) ∧ .closed x ∉ history := by
  have husable : ∀ config, Usable x config (socketLog x history) →
      (∃ j upstream, .opened j x upstream ∈ history) ∧ .closed x ∉ history := by
    intro config hu
    obtain ⟨j, ho⟩ := hu.opened
    refine ⟨⟨j, config, (mem_socketLog.mp ho).1⟩, fun hc => ?_⟩
    cases hu.unbroken _ (mem_socketLog.mpr ⟨hc, rfl⟩)
  cases pc with
  | sending a pooled y => cases hx; exact husable _ h.2.2.1
  | writing a pooled y => cases hx; exact husable _ h.2.2.1
  | reading a pooled y => cases hx; exact husable _ h.2.2.1
  | releasing a y response => cases hx; exact husable _ h.2.2.1
  | failed a pooled y =>
    cases hx
    obtain ⟨-, -, ⟨j, ho⟩, hc⟩ := h
    exact ⟨⟨j, _, ho⟩, hc⟩
  | _ => cases hx

def ExecutedAtMostStale (i : ℕ) (before : List Event) : Prop :=
  executions i before = [] ∨ ∃ j x upstream, j ≠ i ∧ .opened j x upstream ∈ before ∧
    executions i before = [.exchangeFailed i x true]

def Lawful (before : List Event) : Event → Prop
  | .opened _ x _ => socketLog x before = []
  | .wrote i x _ =>
    (∀ e ∈ socketLog x before, e.breaks = false) ∧
      (exchanges i before = [] ∨
        (exchanges i before).length = 1 ∧ ∃ config, socketLog x before = [.opened i x config])
  | .received i x _ =>
    (∀ e ∈ socketLog x before, e.breaks = false) ∧
      (∃ request host, .began i request ∈ before ∧
        (socketLog x before).getLast? = some (.wrote i x (exchangeRequest request host))) ∧
      ExecutedAtMostStale i before
  | .exchangeFailed i x executed =>
    (∀ e ∈ socketLog x before, e.breaks = false) ∧ (executed = true → ExecutedAtMostStale i before)
  | .answered i status => status = .badGateway → .openFailed i ∈ before ∨
      ∃ x upstream executed, .opened i x upstream ∈ before ∧ .exchangeFailed i x executed ∈ before
  | _ => True

theorem Attempted.lt_two {history : List Event} {i n : ℕ} {request : Request} {log : List Event}
    (h : Attempted history i request n log) : n < 2 := by
  cases h <;> omega

theorem Attempted.none_opened {history : List Event} {i n j x : ℕ} {request : Request} {log : List Event}
    {upstream : UpstreamConfiguration} (h : Attempted history i request n log) :
    .opened j x upstream ∉ log := by
  cases h <;> simp

theorem Attempted.ready {history : List Event} {i n j x : ℕ} {request : Request} {log : List Event}
    {config upstream : UpstreamConfiguration} (h : Attempted history i request n log) (hn : n ≠ 1) (hj : j ≠ i)
    (ho : .opened j x upstream ∈ history) : Ready history i request x config n true log := by
  cases h with
  | first => exact .pooled hj ho
  | retried _ _ => exact absurd rfl hn

theorem Ready.retry {history : List Event} {i x n : ℕ} {request : Request} {config : UpstreamConfiguration}
    {log : List Event} (h : Ready history i request x config n true log) (message : BeastRequest)
    (executed : Bool) :
    Attempted history i request (n + 1) (log ++ [.wrote i x message, .exchangeFailed i x executed]) := by
  cases h with
  | pooled hj ho => exact .retried hj ho

theorem Ready.opened {history : List Event} {i x n : ℕ} {request : Request} {config : UpstreamConfiguration}
    {log : List Event} (h : Ready history i request x config n false log) : .opened i x config ∈ log := by
  cases h with
  | fresh ha => simp

theorem Ready.began {history : List Event} {i x n : ℕ} {request : Request} {config : UpstreamConfiguration}
    {pooled : Bool} {log : List Event} (h : Ready history i request x config n pooled log) :
    .began i request ∈ log := by
  cases h with
  | pooled hj ho => simp
  | fresh ha => cases ha <;> simp

theorem Ready.writes {history : List Event} {i x n : ℕ} {request : Request} {config : UpstreamConfiguration}
    {pooled : Bool} {log : List Event} (h : Ready history i request x config n pooled log) :
    log.filter Event.writes = [] ∨ (log.filter Event.writes).length = 1 ∧ pooled = false := by
  cases h with
  | pooled hj ho => exact .inl rfl
  | fresh ha =>
    cases ha with
    | first => exact .inl rfl
    | retried hj ho => exact .inr ⟨rfl, rfl⟩

theorem Ready.executedAtMostStale {history : List Event} {i x n : ℕ} {request : Request} {config : UpstreamConfiguration}
    {pooled : Bool} {log rest : List Event} (h : Ready history i request x config n pooled log)
    (hlog : requestLog i history = log ++ rest) (hrest : rest.filter Event.executed = []) :
    ExecutedAtMostStale i history := by
  have he : executions i history = log.filter Event.executed := by
    rw [executions, hlog, List.filter_append, hrest, List.append_nil]
  unfold ExecutedAtMostStale
  rw [he]
  cases h with
  | pooled hj ho => exact .inl rfl
  | fresh ha =>
    cases ha with
    | first => exact .inl rfl
    | @retried j y upstream message executed hj ho =>
      cases executed with
      | false => exact .inl rfl
      | true => exact .inr ⟨j, y, upstream, hj, ho, rfl⟩

theorem Usable.concat {x : ℕ} {config : UpstreamConfiguration} {log : List Event} (h : Usable x config log)
    {e : Event} (he : e.breaks = false) : Usable x config (log ++ [e]) := by
  obtain ⟨j, ho⟩ := h.opened
  refine ⟨⟨j, List.mem_append_left _ ho⟩, fun f hf => ?_⟩
  rcases List.mem_append.mp hf with hf | hf
  · exact h.unbroken f hf
  · rw [List.mem_singleton.mp hf]
    exact he

theorem Services.config_unique (services : Services) {p : String} {config config' : UpstreamConfiguration}
    (h : (p, config) ∈ services.entries) (h' : (p, config') ∈ services.entries) : config = config' :=
  congrArg Prod.snd (List.inj_on_of_nodup_map services.nodup h h' rfl)

end LiquidPetProject.Gateway
