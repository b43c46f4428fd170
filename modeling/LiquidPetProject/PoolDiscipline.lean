import LiquidPetProject.SocketHolders

namespace LiquidPetProject.Gateway

open Models Http Transitions ProxyHandler

structure Disciplined (services : Services) (s : ProxyHandler) : Prop where
  fresh : ∀ x, s.nextSocket ≤ x → socketLog x s.history = []
  begun : ∀ i, s.requests.length ≤ i → requestLog i s.history = []
  held : Held s
  pools : ∀ p, ∀ x ∈ s.pools p, ∃ config, (p, config) ∈ services.entries ∧
    Usable x config (socketLog x s.history) ∧ Idle x (socketLog x s.history)
  requests : ∀ i request pc, s.requests[i]? = some (request, pc) → Sound services s.history i request pc
  events : Throughout Lawful s.history

section Moves

variable {services : Services} {s : ProxyHandler} {i : ℕ} {request : Request} {pc pc' : HandlePc}

theorem Disciplined.pool_opened (h : Disciplined services s) {p : String} {x : ℕ} (hx : x ∈ s.pools p) :
    (∃ j upstream, .opened j x upstream ∈ s.history) ∧ .closed x ∉ s.history := by
  obtain ⟨config, -, husable, -⟩ := h.pools p x hx
  obtain ⟨j, ho⟩ := husable.opened
  refine ⟨⟨j, config, (mem_socketLog.mp ho).1⟩, fun hc => ?_⟩
  cases husable.unbroken _ (mem_socketLog.mpr ⟨hc, rfl⟩)

theorem Disciplined.held_live (h : Disciplined services s) {holder : Holder} {x : ℕ}
    (hx : s.holds holder = some x) : s.Live x := by
  cases holder with
  | request i =>
    obtain ⟨⟨request, pc⟩, hi, hown⟩ := Option.bind_eq_some_iff.mp hx
    exact (h.requests i request pc hi).owned hown
  | pool p k => exact h.pool_opened (List.mem_of_getElem? hx)

theorem Disciplined.held_lt (h : Disciplined services s) {holder : Holder} {x : ℕ}
    (hx : s.holds holder = some x) : x < s.nextSocket := by
  obtain ⟨⟨j, upstream, ho⟩, -⟩ := h.held_live hx
  by_contra hlt
  have hmem : .opened j x upstream ∈ socketLog x s.history := mem_socketLog.mpr ⟨ho, rfl⟩
  rw [h.fresh x (by omega)] at hmem
  cases hmem

theorem Disciplined.move (h : Disciplined services s) (hi : s.requests[i]? = some (request, pc))
    {pools : String → List ℕ} {next : ℕ} {es : List Event} (hnext : s.nextSocket ≤ next)
    (hreq : ∀ e ∈ es, e.request = some i ∨ e.request = none)
    (hsock : ∀ e ∈ es, ∀ x, e.socket = some x → pc.owned = some x ∨ x = s.nextSocket ∧ x < next)
    (hheld : Held ⟨pools, s.requests.set i (request, pc'), next, s.history ++ es⟩)
    (hpools : ∀ p, ∀ x ∈ pools p, x ∈ s.pools p ∨ ∃ config, (p, config) ∈ services.entries ∧
      Usable x config (socketLog x (s.history ++ es)) ∧ Idle x (socketLog x (s.history ++ es)))
    (hsound : Sound services (s.history ++ es) i request pc') (hevents : Throughout Lawful (s.history ++ es)) :
    Disciplined services ⟨pools, s.requests.set i (request, pc'), next, s.history ++ es⟩ := by
  have hown : ∀ holder x, s.holds holder = some x → holder ≠ .request i → ∀ e ∈ es, e.socket ≠ some x := by
    intro holder x hx hne e he hsocket
    rcases hsock e he x hsocket with ho | ⟨rfl, -⟩
    · exact hne (h.held.exclusive _ _ x hx ((holds_request hi).trans ho))
    · exact absurd (h.held_lt hx) (by omega)
  refine ⟨?_, ?_, hheld, ?_, ?_, hevents⟩
  · intro x hx
    dsimp only at hx ⊢
    rw [socketLog_append, h.fresh x (Nat.le_trans hnext hx), List.nil_append]
    apply socketLog_of_ne
    intro e he hsocket
    rcases hsock e he x hsocket with ho | ⟨-, hlt⟩
    · exact absurd (h.held_lt ((holds_request hi).trans ho)) (by omega)
    · omega
  · intro j hj
    simp only [List.length_set] at hj
    have hlt : i < s.requests.length := (List.getElem?_eq_some_iff.mp hi).1
    dsimp only
    rw [requestLog_append, h.begun j hj, List.nil_append]
    apply requestLog_of_ne
    intro e he hrequest
    rcases hreq e he with hr | hr
    · rw [hr] at hrequest
      have := Option.some.inj hrequest
      omega
    · rw [hr] at hrequest
      cases hrequest
  · intro p x hx
    rcases hpools p x hx with hold | hnew
    · obtain ⟨config, hmem, husable, hidle⟩ := h.pools p x hold
      obtain ⟨k, hk⟩ := List.mem_iff_getElem?.mp hold
      have hlog := socketLog_of_ne (hown (.pool p k) x hk (by simp))
      refine ⟨config, hmem, ?_⟩
      dsimp only
      rw [socketLog_append, hlog, List.append_nil]
      exact ⟨husable, hidle⟩
    · exact hnew
  · intro j request' pc'' hj
    dsimp only at hj ⊢
    rw [List.getElem?_set] at hj
    split_ifs at hj with hij hlt
    · obtain ⟨rfl, rfl⟩ := Prod.mk.inj (Option.some.inj hj)
      rw [← hij]
      exact hsound
    · have hframe := h.requests j request' pc'' hj
      apply hframe.frame
      · intro e he hrequest
        rcases hreq e he with hr | hr
        · rw [hr] at hrequest
          exact hij (Option.some.inj hrequest)
        · rw [hr] at hrequest
          cases hrequest
      · intro x hx
        exact hown (.request j) x ((holds_request hj).trans hx) (by simpa using Ne.symm hij)

theorem Disciplined.advance (h : Disciplined services s) (hi : s.requests[i]? = some (request, pc))
    {es : List Event} (hreq : ∀ e ∈ es, e.request = some i ∨ e.request = none)
    (hsock : ∀ e ∈ es, ∀ x, e.socket = some x → pc.owned = some x)
    (hopen : ∀ e ∈ es, ∀ j y upstream, e ≠ .opened j y upstream)
    (hown : pc'.owned = pc.owned ∨ pc'.owned = none ∧ ∀ x, pc.owned = some x → .closed x ∈ es)
    (hsound : Sound services (s.history ++ es) i request pc') (hevents : Throughout Lawful (s.history ++ es)) :
    Disciplined services (s.advance i request pc' es) :=
  h.move hi (Nat.le_refl _) hreq (fun e he x hx => .inl (hsock e he x hx)) (h.held.settle hi hopen hown)
    (fun _ _ hx => .inl hx) hsound hevents

theorem Disciplined.answer (h : Disciplined services s) (hi : s.requests[i]? = some (request, pc))
    {status : Status} {es : List Event} (hreq : ∀ e ∈ es, e.request = some i ∨ e.request = none)
    (hsock : ∀ e ∈ es, ∀ x, e.socket = some x → pc.owned = some x)
    (hopen : ∀ e ∈ es, ∀ j y upstream, e ≠ .opened j y upstream)
    (hclosed : ∀ x, pc.owned = some x → .closed x ∈ es) (hevents : Throughout Lawful (s.history ++ es))
    (hlawful : Lawful (s.history ++ es) (.answered i status)) :
    Disciplined services (s.answer i request status es) := by
  apply h.advance hi
  · intro e he
    rcases List.mem_append.mp he with he | he
    · exact hreq e he
    · rw [List.mem_singleton.mp he]
      exact .inl rfl
  · intro e he x hx
    rcases List.mem_append.mp he with he | he
    · exact hsock e he x hx
    · rw [List.mem_singleton.mp he] at hx
      cases hx
  · intro e he j y upstream
    rcases List.mem_append.mp he with he | he
    · exact hopen e he j y upstream
    · rw [List.mem_singleton.mp he]
      simp
  · exact .inr ⟨rfl, fun x hx => List.mem_append_left _ (hclosed x hx)⟩
  · exact .inr ⟨status, rfl, by simp⟩
  · rw [← List.append_assoc]
    exact hevents.concat hlawful

theorem Disciplined.handle (h : Disciplined services s) (request : Request) :
    Disciplined services { s with
      requests := s.requests ++ [(request, .started)]
      history := s.history ++ [.began s.requests.length request] } := by
  have hholds : ∀ a x, ({ s with
      requests := s.requests ++ [(request, .started)]
      history := s.history ++ [.began s.requests.length request] } : ProxyHandler).holds a = some x ↔
      s.holds a = some x := by
    intro a x
    cases a with
    | pool p k => rfl
    | request j =>
      simp only [holds, List.getElem?_append]
      split_ifs with hj
      · rfl
      · have hnone : s.requests[j]? = none := List.getElem?_eq_none (by omega)
        rw [hnone]
        cases j - s.requests.length with
        | zero => simp [HandlePc.owned]
        | succ k => simp
  refine ⟨?_, ?_, ?_, ?_, ?_, ?_⟩
  · intro x hx
    rw [socketLog_append, h.fresh x hx]
    rfl
  · intro j hj
    simp only [List.length_append, List.length_singleton] at hj
    rw [requestLog_append, h.begun j (by omega), List.nil_append]
    apply requestLog_of_ne
    intro e he hrequest
    rw [List.mem_singleton.mp he] at hrequest
    have := Option.some.inj hrequest
    omega
  · constructor
    · intro a b x ha hb
      exact h.held.exclusive a b x ((hholds a x).mp ha) ((hholds b x).mp hb)
    · intro x hx
      obtain ⟨a, ha⟩ := h.held.live x (live_of_append (by simp) hx)
      exact ⟨a, (hholds a x).mpr ha⟩
  · intro p x hx
    have hlog : socketLog x [.began s.requests.length request] = [] := rfl
    dsimp only
    rw [socketLog_append, hlog, List.append_nil]
    exact h.pools p x hx
  · intro j request' pc hj
    simp only [List.getElem?_append] at hj
    split_ifs at hj with hlt
    · apply (h.requests j request' pc hj).frame
      · intro e he hrequest
        rw [List.mem_singleton.mp he] at hrequest
        have := Option.some.inj hrequest
        omega
      · intro x _ e he hsocket
        rw [List.mem_singleton.mp he] at hsocket
        cases hsocket
    · have hlen := (List.getElem?_eq_some_iff.mp hj).1
      simp only [List.length_singleton] at hlen
      have hj0 : j = s.requests.length := by omega
      subst hj0
      obtain ⟨rfl, rfl⟩ : request = request' ∧ HandlePc.started = pc := by simpa using hj
      have hbegun := h.begun s.requests.length (Nat.le_refl _)
      simp only [Sound, requestLog_append, hbegun, List.nil_append]
      simp [requestLog, Event.request]
  · exact h.events.concat trivial

theorem Disciplined.silent (h : Disciplined services s) (hi : s.requests[i]? = some (request, pc))
    (hown : pc'.owned = pc.owned) (hsound : Sound services s.history i request pc') :
    Disciplined services (s.advance i request pc' []) := by
  apply h.advance hi
  · simp
  · simp
  · simp
  · exact .inl hown
  · rw [List.append_nil]
    exact hsound
  · rw [List.append_nil]
    exact h.events

theorem Disciplined.routeRequest (h : Disciplined services s) (hi : s.requests[i]? = some (request, .started)) :
    Disciplined services (routeRequest services s i request) := by
  have hlog := h.requests i request _ hi
  unfold LiquidPetProject.Gateway.ProxyHandler.routeRequest
  split_ifs with hm
  · apply h.answer hi <;> simp [HandlePc.owned, Lawful, h.events, Status.methodNotAllowed, Status.badGateway]
  · split
    · apply h.answer hi <;> simp [HandlePc.owned, Lawful, h.events, Status.notFound, Status.badGateway]
    · rename_i p config hroute
      refine h.silent hi rfl ⟨List.mem_of_find?_eq_some hroute, ?_⟩
      simp only [Sound] at hlog
      rw [hlog]
      exact .first

theorem Disciplined.openFailed (h : Disciplined services s) (hi : s.requests[i]? = some (request, pc))
    (hown : pc.owned = none) : Disciplined services (s.answer i request .badGateway [.openFailed i]) := by
  apply h.answer hi
  · simp [Event.request]
  · simp [Event.socket]
  · simp
  · simp [hown]
  · exact h.events.concat trivial
  · intro _
    simp

theorem Disciplined.acquireSocket (h : Disciplined services s) {a : Attempt}
    (hi : s.requests[i]? = some (request, .attempting a)) :
    Disciplined services (s.acquireSocket i request a) := by
  obtain ⟨hm, hattempted⟩ := h.requests i request _ hi
  unfold ProxyHandler.acquireSocket
  rw [if_pos hattempted.lt_two]
  split_ifs with hone
  · exact h.silent hi rfl ⟨hm, hattempted⟩
  · cases hlast : (s.pools a.pathPrefix).getLast? with
    | none => exact h.silent hi rfl ⟨hm, hattempted⟩
    | some x =>
      obtain ⟨config, hm', husable, hidle⟩ := h.pools a.pathPrefix x (List.mem_of_getLast? hlast)
      obtain rfl := services.config_unique hm hm'
      obtain ⟨j, ho⟩ := husable.opened
      have ho' := (mem_socketLog.mp ho).1
      have hj : j ≠ i := by
        rintro rfl
        exact hattempted.none_opened (mem_requestLog.mpr ⟨ho', rfl⟩)
      refine h.move hi (Nat.le_refl _) (by simp) (by simp) (h.held.acquire hi rfl rfl hlast) ?_ ?_ ?_
      · intro q y hy
        left
        by_cases hq : q = a.pathPrefix
        · subst hq
          rw [Function.update_self] at hy
          exact List.dropLast_subset _ hy
        · rwa [Function.update_of_ne hq] at hy
      · rw [List.append_nil]
        exact ⟨hm, hattempted.ready hone hj ho', husable, by simp⟩
      · rw [List.append_nil]
        exact h.events

theorem Disciplined.connected (h : Disciplined services s) {a : Attempt}
    (hi : s.requests[i]? = some (request, .connecting a)) :
    Disciplined services
      { s.advance i request (.sending a false s.nextSocket) [.opened i s.nextSocket a.config] with
        nextSocket := s.nextSocket + 1 } := by
  obtain ⟨hm, hattempted⟩ := h.requests i request _ hi
  have hlog : socketLog s.nextSocket (s.history ++ [.opened i s.nextSocket a.config]) =
      [.opened i s.nextSocket a.config] := by
    rw [socketLog_append, h.fresh _ (Nat.le_refl _)]
    simp [socketLog, Event.socket]
  refine h.move hi (Nat.le_succ _) (by simp [Event.request]) ?_
    (h.held.open hi rfl rfl (fun _ _ ha => h.held_lt ha)) (fun _ _ hx => .inl hx) ?_ ?_
  · intro e he x hx
    rw [List.mem_singleton.mp he] at hx
    obtain rfl := Option.some.inj hx
    exact .inr ⟨rfl, Nat.lt_succ_self _⟩
  · refine ⟨hm, ?_, ?_, fun _ => hlog⟩
    · have hr : requestLog i [.opened i s.nextSocket a.config] = [.opened i s.nextSocket a.config] := by
        simp [requestLog, Event.request]
      rw [requestLog_append, hr]
      exact .fresh (hattempted.mono _)
    · rw [hlog]
      exact ⟨⟨i, by simp⟩, by simp [Event.breaks]⟩
  · exact h.events.concat (h.fresh _ (Nat.le_refl _))

theorem Disciplined.send (h : Disciplined services s) {a : Attempt} {pooled : Bool} {x : ℕ}
    (hi : s.requests[i]? = some (request, .sending a pooled x)) :
    Disciplined services (s.advance i request (.writing a pooled x)
      [.wrote i x (exchangeRequest request a.config.host)]) := by
  obtain ⟨hm, hready, husable, hfresh⟩ := h.requests i request _ hi
  have hr : requestLog i [.wrote i x (exchangeRequest request a.config.host)] =
      [.wrote i x (exchangeRequest request a.config.host)] := by simp [requestLog, Event.request]
  have hx : socketLog x [.wrote i x (exchangeRequest request a.config.host)] =
      [.wrote i x (exchangeRequest request a.config.host)] := by simp [socketLog, Event.socket]
  apply h.advance hi
  · simp [Event.request]
  · simp [Event.socket, HandlePc.owned]
  · simp
  · exact .inl rfl
  · refine ⟨hm, ⟨_, hready.mono _, ?_⟩, ?_, ?_⟩
    · rw [requestLog_append, hr]
    · rw [socketLog_append, hx]
      exact husable.concat rfl
    · rw [socketLog_append, hx]
      simp
  · refine h.events.concat ⟨husable.unbroken, ?_⟩
    rcases hready.writes with hnone | ⟨hone, hpooled⟩
    · exact .inl hnone
    · exact .inr ⟨hone, a.config, hfresh hpooled⟩

theorem Disciplined.written (h : Disciplined services s) {a : Attempt} {pooled : Bool} {x : ℕ}
    (hi : s.requests[i]? = some (request, .writing a pooled x)) :
    Disciplined services (s.advance i request (.reading a pooled x) []) := by
  have hsound := h.requests i request _ hi
  exact h.silent hi rfl hsound

theorem Disciplined.received (h : Disciplined services s) {a : Attempt} {pooled : Bool} {x : ℕ}
    (hi : s.requests[i]? = some (request, .reading a pooled x)) (response : BeastResponse) :
    Disciplined services (s.advance i request (.releasing a x response) [.received i x response]) := by
  obtain ⟨hm, ⟨log, hready, hlog⟩, husable, hlast⟩ := h.requests i request _ hi
  have hx : socketLog x [.received i x response] = [.received i x response] := by
    simp [socketLog, Event.socket]
  apply h.advance hi
  · simp [Event.request]
  · simp [Event.socket, HandlePc.owned]
  · simp
  · exact .inl rfl
  · refine ⟨hm, by simp, ?_, ?_⟩
    · rw [socketLog_append, hx]
      exact husable.concat rfl
    · rw [socketLog_append, hx]
      simp
  · have hbegan : .began i request ∈ requestLog i s.history := by
      rw [hlog]
      exact List.mem_append_left _ hready.began
    exact h.events.concat ⟨husable.unbroken, ⟨request, a.config.host, (mem_requestLog.mp hbegan).1, hlast⟩,
      hready.executedAtMostStale hlog rfl⟩

theorem Disciplined.broken (h : Disciplined services s) {a : Attempt} {pooled : Bool} {x : ℕ}
    (hi : s.requests[i]? = some (request, pc)) (hpc : pc = .writing a pooled x ∨ pc = .reading a pooled x)
    (executed : Bool) :
    Disciplined services (s.advance i request (.failed a pooled x) [.exchangeFailed i x executed]) := by
  have hsound : Sound services s.history i request (.writing a pooled x) := by
    have := h.requests i request pc hi
    rcases hpc with rfl | rfl <;> exact this
  have hown : pc.owned = some x := by rcases hpc with rfl | rfl <;> rfl
  obtain ⟨hm, ⟨log, hready, hlog⟩, husable, -⟩ := hsound
  have hr : requestLog i [.exchangeFailed i x executed] = [.exchangeFailed i x executed] := by
    simp [requestLog, Event.request]
  apply h.advance hi
  · simp [Event.request]
  · simp [Event.socket, hown]
  · simp
  · exact .inl hown.symm
  · refine ⟨hm, ⟨log, executed, hready.mono _, ?_⟩, ?_, ?_⟩
    · rw [requestLog_append, hr, hlog]
      simp
    · obtain ⟨j, ho⟩ := husable.opened
      exact ⟨j, List.mem_append_left _ (mem_socketLog.mp ho).1⟩
    · intro hc
      have hc : .closed x ∈ s.history := by simpa using hc
      cases husable.unbroken _ (mem_socketLog.mpr ⟨hc, rfl⟩)
  · exact h.events.concat ⟨husable.unbroken, fun _ => hready.executedAtMostStale hlog rfl⟩

theorem Disciplined.release (h : Disciplined services s) {a : Attempt} {x : ℕ} {response : BeastResponse}
    (hi : s.requests[i]? = some (request, .releasing a x response)) (isOpen : Bool) :
    Disciplined services (s.releaseSocketIfReusable i request a x response isOpen) := by
  obtain ⟨hm, hreceived, husable, hlast⟩ := h.requests i request _ hi
  unfold releaseSocketIfReusable
  split_ifs with hkeep
  · apply h.advance hi
    · simp [Event.request]
    · simp [Event.socket, HandlePc.owned]
    · simp
    · exact .inr ⟨rfl, by simp [HandlePc.owned]⟩
    · exact .inl ⟨x, response, List.mem_append_left _ hreceived, rfl⟩
    · have hclosed : Throughout Lawful (s.history ++ [.closed x]) := h.events.concat trivial
      have hforwarded : Throughout Lawful (s.history ++ [.closed x] ++
          [.forwarded i (HttpMessageConverter.toHttpResponse response)]) := hclosed.concat trivial
      simpa using hforwarded
  · have hx : socketLog x [.forwarded i (HttpMessageConverter.toHttpResponse response)] = [] := rfl
    refine h.move hi (Nat.le_refl _) (by simp [Event.request]) (by simp [Event.socket])
      (h.held.release hi (by simp) rfl rfl) ?_ ?_ ?_
    · intro q y hy
      by_cases hq : q = a.pathPrefix
      · subst hq
        rw [Function.update_self] at hy
        rcases List.mem_append.mp hy with hy | hy
        · exact .inl hy
        · obtain rfl := List.mem_singleton.mp hy
          rw [socketLog_append, hx, List.append_nil]
          refine .inr ⟨a.config, hm, husable, i, response, hlast, ?_⟩
          simp only [Bool.or_eq_true, Bool.not_eq_true', not_or, Bool.not_eq_false] at hkeep
          exact hkeep.1
      · rw [Function.update_of_ne hq] at hy
        exact .inl hy
    · exact .inl ⟨x, response, List.mem_append_left _ hreceived, rfl⟩
    · exact h.events.concat trivial

theorem Disciplined.abandon (h : Disciplined services s) {a : Attempt} {pooled : Bool} {x : ℕ}
    (hi : s.requests[i]? = some (request, .failed a pooled x)) :
    Disciplined services (s.abandonSocket i request a pooled x) := by
  obtain ⟨hm, ⟨log, executed, hready, hlog⟩, -, -⟩ := h.requests i request _ hi
  have hclosed : Throughout Lawful (s.history ++ [.closed x]) := h.events.concat trivial
  have hr : requestLog i [.closed x] = [] := rfl
  unfold abandonSocket
  cases pooled with
  | false =>
    have hopened : .opened i x a.config ∈ requestLog i s.history := by
      rw [hlog]
      exact List.mem_append_left _ hready.opened
    have hfailed : .exchangeFailed i x executed ∈ requestLog i s.history := by
      rw [hlog]
      simp
    apply h.answer hi
    · simp [Event.request]
    · simp [Event.socket, HandlePc.owned]
    · simp
    · simp [HandlePc.owned]
    · exact hclosed
    · intro _
      exact .inr ⟨x, a.config, executed, List.mem_append_left _ (mem_requestLog.mp hopened).1,
        List.mem_append_left _ (mem_requestLog.mp hfailed).1⟩
  | true =>
    apply h.advance hi
    · simp [Event.request]
    · simp [Event.socket, HandlePc.owned]
    · simp
    · exact .inr ⟨rfl, by simp [HandlePc.owned]⟩
    · refine ⟨hm, ?_⟩
      rw [requestLog_append, hr, List.append_nil, hlog]
      exact (hready.retry _ _).mono _
    · exact hclosed

end Moves

theorem Disciplined.initial (services : Services) : Disciplined services {} := by
  refine ⟨fun _ _ => rfl, fun _ _ => rfl, ⟨?_, ?_⟩, ?_, ?_, Throughout.nil _⟩
  · intro a b x ha
    cases a <;> simp [holds] at ha
  · rintro x ⟨⟨i, upstream, ho⟩, -⟩
    simp at ho
  · intro p x hx
    simp at hx
  · intro i request pc hi
    simp at hi

theorem Disciplined.step {services : Services} {s s' : ProxyHandler} {action : ProxyAction}
    (h : Disciplined services s) (hstep : s.step services action = some s') : Disciplined services s' := by
  cases action with
  | handle request =>
    obtain rfl := Option.some.inj hstep
    exact h.handle request
  | route i =>
    simp only [ProxyHandler.step] at hstep
    split at hstep
    · rename_i request hi
      obtain rfl := Option.some.inj hstep
      exact h.routeRequest hi
    · cases hstep
  | acquire i =>
    simp only [ProxyHandler.step] at hstep
    split at hstep
    · rename_i request a hi
      obtain rfl := Option.some.inj hstep
      exact h.acquireSocket hi
    · cases hstep
  | resolved i succeeded =>
    simp only [ProxyHandler.step] at hstep
    split at hstep
    · rename_i request a hi
      split_ifs at hstep
      · obtain rfl := Option.some.inj hstep
        have hsound := h.requests i request _ hi
        exact h.silent hi rfl hsound
      · obtain rfl := Option.some.inj hstep
        exact h.openFailed hi rfl
    · cases hstep
  | connected i succeeded =>
    simp only [ProxyHandler.step] at hstep
    split at hstep
    · rename_i request a hi
      split_ifs at hstep
      · obtain rfl := Option.some.inj hstep
        exact h.connected hi
      · obtain rfl := Option.some.inj hstep
        exact h.openFailed hi rfl
    · cases hstep
  | send i =>
    simp only [ProxyHandler.step] at hstep
    split at hstep
    · rename_i request a pooled x hi
      obtain rfl := Option.some.inj hstep
      exact h.send hi
    · cases hstep
  | written i =>
    simp only [ProxyHandler.step] at hstep
    split at hstep
    · rename_i request a pooled x hi
      obtain rfl := Option.some.inj hstep
      exact h.written hi
    · cases hstep
  | received i response =>
    simp only [ProxyHandler.step] at hstep
    split at hstep
    · rename_i request a pooled x hi
      obtain rfl := Option.some.inj hstep
      exact h.received hi response
    · cases hstep
  | broken i executed =>
    simp only [ProxyHandler.step] at hstep
    split at hstep
    · rename_i request a pooled x hi
      obtain rfl := Option.some.inj hstep
      exact h.broken hi (.inl rfl) executed
    · rename_i request a pooled x hi
      obtain rfl := Option.some.inj hstep
      exact h.broken hi (.inr rfl) executed
    · cases hstep
  | release i isOpen =>
    simp only [ProxyHandler.step] at hstep
    split at hstep
    · rename_i request a x response hi
      obtain rfl := Option.some.inj hstep
      exact h.release hi isOpen
    · cases hstep
  | abandon i =>
    simp only [ProxyHandler.step] at hstep
    split at hstep
    · rename_i request a pooled x hi
      obtain rfl := Option.some.inj hstep
      exact h.abandon hi
    · cases hstep

theorem Disciplined.run {services : Services} {s : ProxyHandler} {actions : List ProxyAction}
    (h : run (ProxyHandler.step services) {} actions = some s) : Disciplined services s :=
  run_invariant (fun _ _ _ hs hstep => hs.step hstep) (Disciplined.initial services) h

theorem Lawful.exchanges_lt {history : List Event} {i : ℕ} {e : Event} (h : Lawful history e)
    (he : (decide (e.request = some i) && e.writes) = true) : (exchanges i history).length < 2 := by
  cases e with
  | wrote j x message =>
    obtain rfl : j = i := by simpa [Event.request, Event.writes] using he
    rcases h.2 with hnone | ⟨hone, -⟩
    · rw [hnone]
      exact Nat.zero_lt_two
    · omega
  | _ => simp [Event.writes] at he

theorem exchanges_le_two {history : List Event} (h : Throughout Lawful history) (i : ℕ) :
    (exchanges i history).length ≤ 2 := by
  have hfilter : ∀ l, exchanges i l = l.filter (fun e => decide (e.request = some i) && e.writes) := by
    intro l
    rw [exchanges, requestLog, List.filter_filter]
    simp only [Bool.and_comm]
  rw [hfilter]
  apply h.filter_length_le
  intro before e hlaw he
  rw [← hfilter]
  exact hlaw.exchanges_lt he

structure PoolDiscipline (services : Services) (s : ProxyHandler) : Prop where
  exclusive : ∀ x, s.Live x → ∃! holder, s.holds holder = some x
  alive : ∀ holder x, s.holds holder = some x → s.Live x
  pooled : ∀ p, ∀ x ∈ s.pools p, ∃ config, (p, config) ∈ services.entries ∧
    (∃ i, .opened i x config ∈ s.history) ∧
    ∃ i response, (socketLog x s.history).getLast? = some (.received i x response) ∧ response.keepAlive = true
  unusedAfterFailure : Throughout (fun before e => ∀ x i executed, e.socket = some x → e ≠ .closed x →
    .exchangeFailed i x executed ∉ before) s.history
  ownResponse : Throughout (fun before e => ∀ i x response, e = .received i x response →
    ∃ request host, .began i request ∈ before ∧
      (socketLog x before).getLast? = some (.wrote i x (exchangeRequest request host))) s.history
  returned : ∀ i request response, s.requests[i]? = some (request, .returned response) →
    (∃ x r, .received i x r ∈ s.history ∧ response = HttpMessageConverter.toHttpResponse r) ∨
      ∃ status, response = { status := status } ∧ .answered i status ∈ s.history
  exchangesLe : ∀ i, (exchanges i s.history).length ≤ 2
  secondFresh : Throughout (fun before e => ∀ i x message, e = .wrote i x message → exchanges i before ≠ [] →
    ∃ config, socketLog x before = [.opened i x config]) s.history
  badGateway : ∀ i, .answered i .badGateway ∈ s.history → .openFailed i ∈ s.history ∨
    ∃ x upstream executed, .opened i x upstream ∈ s.history ∧ .exchangeFailed i x executed ∈ s.history

theorem Lawful.unfailed {before : List Event} {e : Event} (h : Lawful before e) {x : ℕ} (hx : e.socket = some x)
    (hne : e ≠ .closed x) (i : ℕ) (executed : Bool) : .exchangeFailed i x executed ∉ before := by
  intro hf
  have hmem : .exchangeFailed i x executed ∈ socketLog x before := mem_socketLog.mpr ⟨hf, rfl⟩
  cases e with
  | opened j y upstream =>
    obtain rfl := Option.some.inj hx
    rw [show socketLog y before = [] from h] at hmem
    cases hmem
  | wrote j y message =>
    obtain rfl := Option.some.inj hx
    cases h.1 _ hmem
  | received j y response =>
    obtain rfl := Option.some.inj hx
    cases h.1 _ hmem
  | exchangeFailed j y executed' =>
    obtain rfl := Option.some.inj hx
    cases h.1 _ hmem
  | closed y =>
    obtain rfl := Option.some.inj hx
    exact hne rfl
  | _ => cases hx

/-- Whatever the coroutines, the network and the upstreams do, and in whatever order. -/
theorem pool_discipline (services : Services) (actions : List ProxyAction) (s : ProxyHandler)
    (h : run (ProxyHandler.step services) {} actions = some s) : PoolDiscipline services s := by
  have hs := Disciplined.run h
  constructor
  · intro x hx
    obtain ⟨a, ha⟩ := hs.held.live x hx
    exact ⟨a, ha, fun b hb => hs.held.exclusive b a x hb ha⟩
  · intro holder x hx
    exact hs.held_live hx
  · intro p x hx
    obtain ⟨config, hm, husable, hidle⟩ := hs.pools p x hx
    obtain ⟨j, ho⟩ := husable.opened
    exact ⟨config, hm, ⟨j, (mem_socketLog.mp ho).1⟩, hidle⟩
  · intro before e after he x i executed hx hne
    exact (hs.events before e after he).unfailed hx hne i executed
  · rintro before e after he i x response rfl
    exact (hs.events before _ after he).2.1
  · intro i request response hi
    exact hs.requests i request _ hi
  · exact exchanges_le_two hs.events
  · rintro before e after he i x message rfl hsome
    rcases (hs.events before _ after he).2 with hnone | ⟨-, hfresh⟩
    · exact absurd hnone hsome
    · exact hfresh
  · intro i hi
    obtain ⟨before, after, he⟩ := List.append_of_mem hi
    have hsub : before ⊆ s.history := by
      rw [he]
      exact List.subset_append_left ..
    rcases hs.events before _ after he rfl with hfailed | ⟨x, upstream, executed, ho, hf⟩
    · exact .inl (hsub hfailed)
    · exact .inr ⟨x, upstream, executed, hsub ho, hsub hf⟩

def ordersService : Services where
  entries := [("/orders", ⟨"order-service", 8080⟩)]
  nodup := List.nodup_singleton _

def retriedActions : List ProxyAction :=
  [.handle ⟨.get, "/orders/1", ""⟩, .route 0, .acquire 0, .resolved 0 true, .connected 0 true, .send 0,
    .written 0, .received 0 ⟨200, "[]", true⟩, .release 0 true,
    .handle ⟨.post, "/orders", "{}"⟩, .route 1, .acquire 1, .send 1, .written 1, .broken 1 true, .abandon 1,
    .acquire 1, .resolved 1 true, .connected 1 true, .send 1, .written 1, .received 1 ⟨201, "{}", true⟩,
    .release 1 true]

theorem pool_discipline_retried :
    ∃ s, run (ProxyHandler.step ordersService) {} retriedActions = some s ∧ s.pools "/orders" = [1] ∧
      PoolDiscipline ordersService s := by
  have hpool : (run (ProxyHandler.step ordersService) {} retriedActions).map (fun s => s.pools "/orders") =
      some [1] := by decide +kernel
  obtain ⟨s, hs, hp⟩ := Option.map_eq_some_iff.mp hpool
  exact ⟨s, hs, hp, pool_discipline ordersService retriedActions s hs⟩

end LiquidPetProject.Gateway
