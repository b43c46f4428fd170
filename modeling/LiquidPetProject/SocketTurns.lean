import LiquidPetProject.RequestRouting

namespace LiquidPetProject.Gateway

open Models Http ProxyHandler

def HandlePc.exchanging : HandlePc → Option ℕ
  | .writing _ _ x => some x
  | .reading _ _ x => some x
  | _ => none

theorem HandlePc.owned_of_exchanging {pc : HandlePc} {x : ℕ} (h : pc.exchanging = some x) : pc.owned = some x := by
  cases pc <;> first | exact h | cases h

namespace ProxyHandler

def exchanging (s : ProxyHandler) (i : ℕ) : Option ℕ := (s.requests[i]?).bind (fun r => r.2.exchanging)

def Spoiled (s : ProxyHandler) (x : ℕ) : Prop := ∃ e ∈ s.history, e.socket = some x ∧ e.breaks = true

def Asked (s : ProxyHandler) (i : ℕ) (request : Request) : Prop := ∃ pc, s.requests[i]? = some (request, pc)

end ProxyHandler

structure Kept (s t : ProxyHandler) (es : List Event) : Prop where
  asked : ∀ i request, s.Asked i request → t.Asked i request
  history : t.history = s.history ++ es
  exchanging : ∀ i x, s.exchanging i = some x →
    t.exchanging i = some x ∨ t.Spoiled x ∨ ∃ response, .received i x response ∈ es

variable {services : Services} {s t : ProxyHandler} {i x : ℕ} {request : Request} {pc pc' : HandlePc} {es : List Event}

theorem exchanging_eq (hi : s.requests[i]? = some (request, pc)) : s.exchanging i = pc.exchanging := by
  unfold ProxyHandler.exchanging
  rw [hi]
  rfl

theorem Kept.move (hi : s.requests[i]? = some (request, pc)) (hrequests : t.requests = s.requests.set i (request, pc'))
    (hhistory : t.history = s.history ++ es)
    (hexchanging : ∀ x, pc.exchanging = some x → pc'.exchanging = some x ∨
      (∃ e ∈ es, e.socket = some x ∧ e.breaks = true) ∨ ∃ response, .received i x response ∈ es) : Kept s t es := by
  have hlt : i < s.requests.length := (List.getElem?_eq_some_iff.mp hi).1
  have hself : t.requests[i]? = some (request, pc') := by
    rw [hrequests]
    exact List.getElem?_set_self hlt
  have hother : ∀ j, i ≠ j → t.requests[j]? = s.requests[j]? := by
    intro j hij
    rw [hrequests]
    exact List.getElem?_set_ne hij
  constructor
  · rintro j asked ⟨pc'', hj⟩
    by_cases hij : i = j
    · subst hij
      obtain ⟨rfl, -⟩ := Prod.mk.inj (Option.some.inj (hi.symm.trans hj))
      exact ⟨pc', hself⟩
    · exact ⟨pc'', (hother j hij).trans hj⟩
  · exact hhistory
  · intro j y hj
    by_cases hij : i = j
    · subst hij
      rw [exchanging_eq hi] at hj
      rw [exchanging_eq hself]
      rcases hexchanging y hj with hsame | ⟨e, he, hsocket, hbreaks⟩ | hreceived
      · exact .inl hsame
      · refine .inr (.inl ⟨e, ?_, hsocket, hbreaks⟩)
        rw [hhistory]
        exact List.mem_append_right _ he
      · exact .inr (.inr hreceived)
    · left
      unfold ProxyHandler.exchanging at hj ⊢
      rwa [hother j hij]

theorem Kept.refl (s : ProxyHandler) : Kept s s [] :=
  ⟨fun _ _ h => h, (List.append_nil _).symm, fun _ _ h => .inl h⟩

theorem Kept.quiet (hi : s.requests[i]? = some (request, pc)) (hrequests : t.requests = s.requests.set i (request, pc'))
    (hhistory : t.history = s.history ++ es) (hnone : pc.exchanging = none) : Kept s t es :=
  Kept.move hi hrequests hhistory (fun x hx => by rw [hnone] at hx; cases hx)

theorem Kept.began (hrequests : t.requests = s.requests ++ [(request, .started)]) (hhistory : t.history = s.history ++ es) :
    Kept s t es := by
  have hold : ∀ (j : ℕ) r, s.requests[j]? = some r → t.requests[j]? = some r := by
    intro j r hj
    rw [hrequests, List.getElem?_append_left (List.getElem?_eq_some_iff.mp hj).1, hj]
  constructor
  · rintro j asked ⟨pc, hj⟩
    exact ⟨pc, hold j _ hj⟩
  · exact hhistory
  · intro j y hj
    left
    obtain ⟨r, hr, hexchanging⟩ := Option.bind_eq_some_iff.mp hj
    exact Option.bind_eq_some_iff.mpr ⟨r, hold j r hr, hexchanging⟩

def Event.receives : Event → Bool
  | .received _ _ _ => true
  | _ => false

structure Undelivered (s t : ProxyHandler) : Prop where
  kept : ∃ es, Kept s t es ∧ ∀ e ∈ es, e.receives = false
  nextSocket : t.nextSocket = s.nextSocket

theorem Undelivered.advance (hi : s.requests[i]? = some (request, pc)) (hnone : pc.exchanging = none)
    (hes : ∀ e ∈ es, e.receives = false) : Undelivered s (s.advance i request pc' es) :=
  ⟨⟨es, Kept.quiet hi rfl rfl hnone, hes⟩, rfl⟩

theorem Undelivered.answer (hi : s.requests[i]? = some (request, pc)) (hnone : pc.exchanging = none) {status : Status}
    (hes : ∀ e ∈ es, e.receives = false) : Undelivered s (s.answer i request status es) := by
  apply Undelivered.advance hi hnone
  intro e he
  rcases List.mem_append.mp he with hold | hnew
  · exact hes e hold
  · rw [List.mem_singleton.mp hnew]
    rfl

theorem Undelivered.setPool (h : Undelivered s t) (p : String) (sockets : List ℕ) : Undelivered s (t.setPool p sockets) := by
  obtain ⟨⟨es, hkept, hes⟩, hnext⟩ := h
  exact ⟨⟨es, ⟨hkept.asked, hkept.history, hkept.exchanging⟩, hes⟩, hnext⟩

def ProxyAction.isLocal : ProxyAction → Bool
  | .connected _ succeeded => !succeeded
  | .send _ => false
  | .received _ _ => false
  | _ => true

theorem undelivered_route (hi : s.requests[i]? = some (request, .started)) :
    Undelivered s (routeRequest services s i request) := by
  unfold routeRequest
  split_ifs
  · exact Undelivered.answer hi rfl (by simp)
  · split
    · exact Undelivered.answer hi rfl (by simp)
    · exact Undelivered.advance hi rfl (by simp)

theorem undelivered_acquire {a : Attempt} (hi : s.requests[i]? = some (request, .attempting a)) :
    Undelivered s (s.acquireSocket i request a) := by
  unfold acquireSocket
  split_ifs
  · exact Undelivered.advance hi rfl (by simp)
  · split
    · exact Undelivered.advance hi rfl (by simp)
    · exact (Undelivered.advance hi rfl (by simp)).setPool _ _
  · exact Undelivered.answer hi rfl (by simp)

theorem undelivered_release {a : Attempt} {response : BeastResponse} {isOpen : Bool}
    (hi : s.requests[i]? = some (request, .releasing a x response)) :
    Undelivered s (s.releaseSocketIfReusable i request a x response isOpen) := by
  unfold releaseSocketIfReusable
  split_ifs
  · exact Undelivered.advance hi rfl (by simp [Event.receives])
  · exact (Undelivered.advance hi rfl (by simp [Event.receives])).setPool _ _

theorem undelivered_abandon {a : Attempt} {pooled : Bool} (hi : s.requests[i]? = some (request, .failed a pooled x)) :
    Undelivered s (s.abandonSocket i request a pooled x) := by
  unfold abandonSocket
  split_ifs
  · exact Undelivered.answer hi rfl (by simp [Event.receives])
  · exact Undelivered.advance hi rfl (by simp [Event.receives])

theorem undelivered_broken {a : Attempt} {pooled executed : Bool} (hi : s.requests[i]? = some (request, pc))
    (hpc : pc.exchanging = some x) :
    Undelivered s (s.advance i request (.failed a pooled x) [.exchangeFailed i x executed]) := by
  refine ⟨⟨_, Kept.move hi rfl rfl ?_, by simp [Event.receives]⟩, rfl⟩
  intro y hy
  rw [hpc] at hy
  obtain rfl := Option.some.inj hy
  exact .inr (.inl ⟨_, List.mem_singleton_self _, rfl, rfl⟩)

theorem undelivered_step {action : ProxyAction} (hlocal : action.isLocal = true)
    (h : ProxyHandler.step services s action = some t) : Undelivered s t := by
  cases action with
  | handle request =>
    obtain rfl := Option.some.inj h
    exact ⟨⟨_, Kept.began rfl rfl, by simp [Event.receives]⟩, rfl⟩
  | route i =>
    simp only [ProxyHandler.step] at h
    split at h
    · rename_i request hi
      obtain rfl := Option.some.inj h
      exact undelivered_route hi
    · cases h
  | acquire i =>
    simp only [ProxyHandler.step] at h
    split at h
    · rename_i request a hi
      obtain rfl := Option.some.inj h
      exact undelivered_acquire hi
    · cases h
  | resolved i succeeded =>
    simp only [ProxyHandler.step] at h
    split at h
    · rename_i request a hi
      split_ifs at h
      · obtain rfl := Option.some.inj h
        exact Undelivered.advance hi rfl (by simp)
      · obtain rfl := Option.some.inj h
        exact Undelivered.answer hi rfl (by simp [Event.receives])
    · cases h
  | connected i succeeded =>
    cases succeeded with
    | true => cases hlocal
    | false =>
      simp only [ProxyHandler.step] at h
      split at h
      · rename_i request a hi
        obtain rfl := Option.some.inj h
        exact Undelivered.answer hi rfl (by simp [Event.receives])
      · cases h
  | send i => cases hlocal
  | written i =>
    simp only [ProxyHandler.step] at h
    split at h
    · rename_i request a pooled x hi
      obtain rfl := Option.some.inj h
      exact ⟨⟨[], Kept.move hi rfl rfl (fun _ hy => .inl hy), by simp⟩, rfl⟩
    · cases h
  | received i response => cases hlocal
  | broken i executed =>
    simp only [ProxyHandler.step] at h
    split at h
    · rename_i request a pooled x hi
      obtain rfl := Option.some.inj h
      exact undelivered_broken hi rfl
    · rename_i request a pooled x hi
      obtain rfl := Option.some.inj h
      exact undelivered_broken hi rfl
    · cases h
  | release i isOpen =>
    simp only [ProxyHandler.step] at h
    split at h
    · rename_i request a x response hi
      obtain rfl := Option.some.inj h
      exact undelivered_release hi
    · cases h
  | abandon i =>
    simp only [ProxyHandler.step] at h
    split at h
    · rename_i request a pooled x hi
      obtain rfl := Option.some.inj h
      exact undelivered_abandon hi
    · cases h

def OwnAnswer (services : Services) (request : Request) (status : Status) : Prop :=
  status = .methodNotAllowed ∧ request.method = .unknown ∨ status = .notFound ∧ Unmatched services request ∨
    status = .badGateway

structure GatewaySound (services : Services) (s : ProxyHandler) : Prop where
  disciplined : Disciplined services s
  routed : Routed services s
  own : ∀ i status, .answered i status ∈ s.history → ∃ request, s.Asked i request ∧ OwnAnswer services request status

theorem GatewaySound.initial (services : Services) : GatewaySound services {} := by
  refine ⟨Disciplined.initial services, Routed.initial services, ?_⟩
  intro i status hanswered
  cases hanswered

theorem Moves.own {j : ℕ} {status : Status} (h : Moves services i request pc pc' es) (he : .answered j status ∈ es) :
    j = i ∧ OwnAnswer services request status := by
  cases h with
  | rejected hm =>
    cases List.mem_singleton.mp he
    exact ⟨rfl, .inl ⟨rfl, hm⟩⟩
  | notFound hm hr =>
    cases List.mem_singleton.mp he
    exact ⟨rfl, .inr (.inl ⟨rfl, hm, hr⟩)⟩
  | routed hm hr => cases he
  | onward hpc hnot hkeep hes =>
    obtain ⟨rfl, rfl⟩ := hes _ he
    exact ⟨rfl, .inr (.inr rfl)⟩

theorem Moved.asked (hm : Moved services s t i request pc pc' es) {j : ℕ} {asked : Request} (h : s.Asked j asked) :
    t.Asked j asked := by
  have hlt : i < s.requests.length := (List.getElem?_eq_some_iff.mp hm.before).1
  obtain ⟨pc'', hj⟩ := h
  by_cases hij : i = j
  · subst hij
    obtain ⟨rfl, -⟩ := Prod.mk.inj (Option.some.inj (hm.before.symm.trans hj))
    exact ⟨pc', by rw [hm.requests]; exact List.getElem?_set_self hlt⟩
  · exact ⟨pc'', by rw [hm.requests, List.getElem?_set_ne hij, hj]⟩

theorem GatewaySound.step {action : ProxyAction} (h : GatewaySound services s)
    (hstep : ProxyHandler.step services s action = some t) : GatewaySound services t := by
  refine ⟨h.disciplined.step hstep, h.routed.step h.disciplined hstep, ?_⟩
  intro j status hanswered
  rcases step_moved hstep with ⟨request, -, hrequests, hhistory⟩ | ⟨i, request, pc, pc', es, hm⟩
  · rw [hhistory] at hanswered
    rcases List.mem_append.mp hanswered with hold | hnew
    · obtain ⟨asked, hasked, hown⟩ := h.own j status hold
      exact ⟨asked, (Kept.began hrequests hhistory).asked j asked hasked, hown⟩
    · cases List.mem_singleton.mp hnew
  · rw [hm.history] at hanswered
    rcases List.mem_append.mp hanswered with hold | hnew
    · obtain ⟨asked, hasked, hown⟩ := h.own j status hold
      exact ⟨asked, hm.asked hasked, hown⟩
    · obtain ⟨rfl, hown⟩ := hm.moves.own hnew
      exact ⟨request, hm.asked ⟨pc, hm.before⟩, hown⟩

theorem asked_unique {request' : Request} (h : s.Asked i request) (h' : s.Asked i request') : request = request' := by
  obtain ⟨pc, hi⟩ := h
  obtain ⟨pc', hi'⟩ := h'
  exact (Prod.mk.inj (Option.some.inj (hi.symm.trans hi'))).1

theorem GatewaySound.chosen (h : GatewaySound services s) (hwritten : exchanges i s.history ≠ []) {asked : Request}
    (hasked : s.Asked i asked) : ∃ entry, Chosen services asked entry := by
  obtain ⟨e, he⟩ := List.exists_mem_of_ne_nil _ hwritten
  obtain ⟨hlog, hwrites⟩ := List.mem_filter.mp he
  obtain ⟨hmem, hrequest⟩ := mem_requestLog.mp hlog
  obtain ⟨request, pc, hi, hallowed⟩ := h.routed.events e hmem i hrequest
  obtain rfl := asked_unique hasked ⟨pc, hi⟩
  cases e with
  | wrote j x message =>
    obtain ⟨p, upstream, hchosen, -⟩ := hallowed
    exact ⟨_, hchosen⟩
  | _ => cases hwrites

end LiquidPetProject.Gateway
