import LiquidPetProject.OrderServiceExecutions

namespace LiquidPetProject.OrderService

open Models Http Repository Outbox OrderReservationHandler Models2JsonMapper HttpServer Transitions

/-- What the executions, in the order in which they ended, say of the tables. -/
structure Explains (codec : TextCodec) (executions : List Execution) (db : OrderTables String) : Prop where
  consistent : db.Consistent
  evolved : ∀ e ∈ executions, OrderTables.Evolves codec.toCodec e.after db
  saved : ∀ key ∈ db.keys, ∃ e ∈ executions, ∃ order, e.Saves codec key order

def Session.Routed (session : Session) : Prop :=
  ∀ message handler, session.pc = .handling message handler →
    findHandler buildRoutes (HttpMessageConverter.toHttpRequest message).method
      (HttpMessageConverter.toHttpRequest message).path = some handler

def Routed (sessions : List Session) : Prop := ∀ session ∈ sessions, session.Routed

structure ServiceSound (codec : TextCodec) (s : ServiceState) : Prop where
  current : Explains codec s.executions s.db
  earlier : Throughout (fun before e => e.Answered codec ∧ Explains codec before e.before) s.executions
  routed : Routed s.sessions

variable {codec : TextCodec}

namespace Explains

variable {executions : List Execution} {db : OrderTables String} {e : Execution}

theorem empty (codec : TextCodec) : Explains codec [] .empty := by
  constructor
  · exact OrderTables.consistent_empty
  · intro e he
    cases he
  · intro key hkey
    cases hkey

theorem reserve (h : Explains codec executions db) (id : OrderId) (outcome : CommitOutcome) :
    Explains codec executions (db.changeStatus id .created .reserved outcome) := by
  have hwritten : OrderTables.Written codec.toCodec db (db.changeStatus id .created .reserved outcome) :=
    ⟨.changeStatus id .created .reserved outcome, ⟨rfl, rfl⟩, rfl⟩
  have hkeys : (db.changeStatus id .created .reserved outcome).keys = db.keys := by
    cases outcome with
    | committed => exact OrderTables.keys_updateOrderStatus _ _ _ _
    | failed e => rfl
    | inDoubt e => exact OrderTables.keys_updateOrderStatus _ _ _ _
  constructor
  · exact hwritten.evolves.consistent h.consistent
  · exact fun e he => (h.evolved e he).trans hwritten.evolves
  · rw [hkeys]
    exact h.saved

theorem record (h : Explains codec executions e.before) (he : e.Answered codec) :
    Explains codec (executions ++ [e]) e.after := by
  have hevolves := he.evolves
  constructor
  · exact hevolves.consistent h.consistent
  · intro f hf
    rcases List.mem_append.mp hf with hold | hnew
    · exact (h.evolved f hold).trans hevolves
    · obtain rfl := List.mem_singleton.mp hnew
      exact .refl _
  · intro key hkey
    rcases he.effect with ⟨hsame, -⟩ | ⟨generated, order, hsaves, -, -⟩
    · rw [hsame] at hkey
      obtain ⟨f, hf, hfsaves⟩ := h.saved key hkey
      exact ⟨f, List.mem_append_left _ hf, hfsaves⟩
    · have hsaved := hsaves
      obtain ⟨-, -, -, eventId, payload, createdAt, -, hafter⟩ := hsaved
      rw [hafter, OrderTables.keys_withOrder] at hkey
      rcases List.mem_append.mp hkey with hold | hnew
      · obtain ⟨f, hf, hfsaves⟩ := h.saved key hold
        exact ⟨f, List.mem_append_left _ hf, hfsaves⟩
      · obtain rfl := List.mem_singleton.mp hnew
        exact ⟨e, List.mem_append_right _ (List.mem_singleton_self e), order, hsaves⟩

end Explains

theorem Routed.concat {sessions : List Session} (h : Routed sessions) : Routed (sessions ++ [({} : Session)]) := by
  intro session hmem
  rcases List.mem_append.mp hmem with hold | hnew
  · exact h session hold
  · obtain rfl := List.mem_singleton.mp hnew
    intro message handler hpc
    cases hpc

theorem Routed.set {sessions : List Session} (h : Routed sessions) (k : ℕ) {session : Session}
    (hsession : session.Routed) : Routed (sessions.set k session) := by
  intro other hmem
  rcases List.mem_or_eq_of_mem_set hmem with hold | rfl
  · exact h other hold
  · exact hsession

namespace ServiceState

def answered (s : ServiceState) (sessions : List Session) (e : Execution) : ServiceState where
  db := e.after
  sessions := sessions
  executions := s.executions ++ [e]

inductive StepEffect (codec : TextCodec) (s : ServiceState) : ServiceState → Prop
  | moved (sessions : List Session) (h : Routed sessions) : StepEffect codec s { s with sessions := sessions }
  | answered (sessions : List Session) (e : Execution) (h : Routed sessions) (hbefore : e.before = s.db)
      (he : e.Answered codec) : StepEffect codec s (s.answered sessions e)
  | reserved (id : OrderId) (outcome : CommitOutcome) :
      StepEffect codec s { s with db := s.db.changeStatus id .created .reserved outcome }

theorem readStep_effect {s s' : ServiceState} (h : Routed s.sessions) {k sender : ℕ} {message : BeastRequest}
    {session : Session} (hstep : s.readStep k sender message session = some s') : StepEffect codec s s' := by
  unfold readStep at hstep
  obtain ⟨pc, hpc, rfl⟩ := Option.map_eq_some_iff.mp hstep
  have hread : pc = afterRead buildRoutes message := by
    unfold sessionStep at hpc
    split at hpc
    all_goals simp_all
  have hset : Routed (s.sessions.set k ⟨pc, sender⟩) := by
    apply h.set
    intro other handler hother
    change pc = _ at hother
    rw [hread] at hother
    unfold afterRead at hother
    split at hother
    · cases hother
    · rename_i found hfound
      cases hother
      exact hfound
  split
  · rename_i hnone
    exact .answered _ ⟨k, sender, _, none, s.db, .unused, s.db, { status := .notFound }⟩ hset rfl ⟨hnone, rfl, rfl⟩
  · exact .moved _ hset

theorem handleStep_effect {s s' : ServiceState} (h : Routed s.sessions) {k : ℕ} {reply : DatabaseReply}
    {session : Session} (hmem : session ∈ s.sessions) (hstep : s.handleStep codec k reply session = some s') :
    StepEffect codec s s' := by
  unfold handleStep at hstep
  split at hstep
  · rename_i message handler hpc
    obtain ⟨⟨db, answer⟩, hhandle, hstep⟩ := Option.bind_eq_some_iff.mp hstep
    obtain ⟨pc, hnext, rfl⟩ := Option.map_eq_some_iff.mp hstep
    rw [hpc] at hnext
    obtain rfl := Option.some.inj hnext
    refine .answered _ ⟨k, session.sender, _, some handler, s.db, reply, db, handlerResponse answer⟩ ?_ rfl
      ⟨h session hmem message handler hpc, answer, hhandle, rfl⟩
    apply h.set
    intro other handler hother
    cases hother
  · cases hstep

theorem moveStep_effect {s s' : ServiceState} (h : Routed s.sessions) {k : ℕ} {a : SessionAction} {session : Session}
    (ha : a = .written ∨ a = .failed) (hstep : s.moveStep k a session = some s') : StepEffect codec s s' := by
  unfold moveStep at hstep
  obtain ⟨pc, hpc, rfl⟩ := Option.map_eq_some_iff.mp hstep
  refine .moved _ (h.set k ?_)
  intro message handler hother
  change pc = _ at hother
  rw [hother] at hpc
  rcases ha with rfl | rfl
  · unfold sessionStep at hpc
    split at hpc
    all_goals simp_all
    split_ifs at hpc
  · unfold sessionStep at hpc
    split at hpc
    all_goals simp_all

theorem step_effect {s s' : ServiceState} {a : ServiceAction} (h : Routed s.sessions)
    (hstep : step codec s a = some s') : StepEffect codec s s' := by
  cases a with
  | accept =>
    obtain rfl := Option.some.inj hstep
    exact .moved _ (Routed.concat h)
  | read k sender message =>
    obtain ⟨session, -, hread⟩ := Option.bind_eq_some_iff.mp hstep
    exact readStep_effect h hread
  | handle k reply =>
    obtain ⟨session, hsession, hhandle⟩ := Option.bind_eq_some_iff.mp hstep
    exact handleStep_effect h (List.mem_of_getElem? hsession) hhandle
  | written k =>
    obtain ⟨session, -, hmove⟩ := Option.bind_eq_some_iff.mp hstep
    exact moveStep_effect h (.inl rfl) hmove
  | failed k =>
    obtain ⟨session, -, hmove⟩ := Option.bind_eq_some_iff.mp hstep
    exact moveStep_effect h (.inr rfl) hmove
  | reserve id outcome =>
    obtain rfl := Option.some.inj hstep
    exact .reserved id outcome

end ServiceState

theorem ServiceSound.start (codec : TextCodec) : ServiceSound codec {} := by
  constructor
  · exact Explains.empty codec
  · exact Throughout.nil _
  · intro session hmem
    cases hmem

theorem ServiceSound.effect {s s' : ServiceState} (h : ServiceSound codec s)
    (heffect : ServiceState.StepEffect codec s s') : ServiceSound codec s' := by
  cases heffect with
  | moved sessions hrouted => exact ⟨h.current, h.earlier, hrouted⟩
  | answered sessions e hrouted hbefore he =>
    have hcurrent : Explains codec s.executions e.before := hbefore ▸ h.current
    exact ⟨hcurrent.record he, h.earlier.concat ⟨he, hcurrent⟩, hrouted⟩
  | reserved id outcome => exact ⟨h.current.reserve id outcome, h.earlier, h.routed⟩

theorem ServiceSound.step {s s' : ServiceState} {a : ServiceAction} (h : ServiceSound codec s)
    (hstep : s.step codec a = some s') : ServiceSound codec s' :=
  h.effect (ServiceState.step_effect h.routed hstep)

theorem ServiceSound.run {s : ServiceState} {actions : List ServiceAction}
    (h : run (ServiceState.step codec) {} actions = some s) : ServiceSound codec s :=
  run_invariant (fun _ _ _ hs hstep => hs.step hstep) (ServiceSound.start codec) h

end LiquidPetProject.OrderService
