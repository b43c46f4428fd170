import LiquidPetProject.DeadLetters
import LiquidPetProject.OrderMirror
import LiquidPetProject.OrderPlatform
import LiquidPetProject.OrderSystemContract

namespace LiquidPetProject.OrderReservedHandler.State

open Models Repository Events

variable {π : Type} {parse : π → Except ParseException Json} {s t : State π} {i : ℕ}

theorem step_call (h : s.step parse (.call i) = some t) : t.orders = s.orders := by
  simp only [step] at h
  split at h
  · cases h
  · simp only [handlerStep] at h
    split_ifs at h
    obtain rfl := Option.some.inj h
    rfl

theorem step_find {failure : Option PqxxException} (h : s.step parse (.find i failure) = some t) : t.orders = s.orders := by
  simp only [step] at h
  split at h
  · cases h
  · simp only [handlerStep] at h
    split at h
    · obtain rfl := Option.some.inj h
      rfl
    · cases h

theorem step_change {outcome : CommitOutcome} {r : RecordCalls π} {orderId : OrderId} {previousStatus newStatus : OrderStatus}
    (hr : s.records[i]? = some r) (hpc : r.pc = .changing orderId previousStatus newStatus)
    (h : s.step parse (.change i outcome) = some t) :
    t.orders = (changeStatus s.orders orderId previousStatus newStatus outcome).1 := by
  simp only [step, hr, handlerStep, hpc] at h
  obtain rfl := Option.some.inj h
  rfl

end LiquidPetProject.OrderReservedHandler.State

namespace LiquidPetProject.OrderPipeline.PipelineState

open Models Repository Outbox OrderReservationHandler Choreography Platform

variable {codec : Codec String} {s t : PipelineState String}

def SameOrders (s t : PipelineState String) : Prop :=
  t.orders = s.orders ∧ t.orderOutbox.known = s.orderOutbox.known

theorem reserveStep_same {a : OrderReservedHandler.Action} (ha : leavesTables (.pipeline (.reserve a)) = true)
    (h : s.reserveStep codec a = some t) : SameOrders s t := by
  unfold reserveStep at h
  split_ifs at h with hhandler
  obtain ⟨service, hstep, rfl⟩ := Option.map_eq_some_iff.mp h
  cases a with
  | call i => exact ⟨OrderReservedHandler.State.step_call hstep, rfl⟩
  | find i failure => exact ⟨OrderReservedHandler.State.step_find hstep, rfl⟩
  | change i outcome => cases ha
  | written orderId status => cases hhandler
  | inserted order orderId => cases hhandler

theorem step_same {a : PipelineAction String} (ha : leavesTables (.pipeline a) = true) (hs : s.Consistent codec)
    (h : s.step codec a = some t) : SameOrders s t := by
  have heffect := step_effect hs h
  cases heffect with
  | createOrder service rows hrecords horders => cases ha
  | orderPublisher outbox houtbox => exact ⟨rfl, OutboxState.publisher_known houtbox⟩
  | orderBroker outbox houtbox => exact ⟨rfl, OutboxState.broker_known houtbox⟩
  | reserve i r orders progress hr horders => exact reserveStep_same ha h
  | _ => exact ⟨rfl, rfl⟩

end LiquidPetProject.OrderPipeline.PipelineState

namespace LiquidPetProject.Choreography

open OrderReservationHandler OrderPipeline OrderPipeline.PipelineState Messaging ServiceConsumer Platform

variable {codec : Codec String} {s t : OrderFlow}

theorem flow_same {a : FlowAction} (ha : leavesTables a = true) (hs : FlowSound codec s) (h : s.step codec a = some t) :
    SameOrders s.pipeline t.pipeline := by
  have hconsistent := hs.pipeline.consistent
  cases a with
  | pipeline b =>
    simp only [OrderFlow.step] at h
    split_ifs at h
    obtain ⟨p, hp, rfl⟩ := Option.map_eq_some_iff.mp h
    exact step_same ha hconsistent hp
  | createdStored f partition offset =>
    obtain ⟨group, -, h⟩ := Option.bind_eq_some_iff.mp h
    obtain ⟨p, hp, rfl⟩ := Option.map_eq_some_iff.mp h
    exact step_same (a := .orderBroker f .stored) rfl hconsistent hp
  | reservedStored f partition offset =>
    obtain ⟨group, -, h⟩ := Option.bind_eq_some_iff.mp h
    obtain ⟨p, hp, rfl⟩ := Option.map_eq_some_iff.mp h
    exact step_same (a := .workerBroker f .stored) rfl hconsistent hp
  | worker b =>
    obtain ⟨⟨p, c⟩, hstep, rfl⟩ := Option.map_eq_some_iff.mp h
    obtain ⟨-, rfl | ⟨i, w, item, -, rfl⟩⟩ := step_service hstep
    · exact ⟨rfl, rfl⟩
    · exact ⟨rfl, rfl⟩
  | orders b =>
    obtain ⟨⟨p, c⟩, hstep, rfl⟩ := Option.map_eq_some_iff.mp h
    obtain ⟨-, rfl | ⟨i, w, item, -, rfl⟩⟩ := step_service hstep
    · exact ⟨rfl, rfl⟩
    · exact ⟨rfl, rfl⟩

end LiquidPetProject.Choreography

namespace LiquidPetProject.OrderService

open Models Http Repository Outbox Transitions

variable {codec : TextCodec} {s t u : ServiceState}

def Follows (codec : TextCodec) (s t : ServiceState) : Prop :=
  ∃ added, t.executions = s.executions ++ added ∧ (∀ f ∈ added, OrderTables.Evolves codec.toCodec s.db f.before) ∧
    OrderTables.Evolves codec.toCodec s.db t.db

theorem Follows.refl (s : ServiceState) : Follows codec s s :=
  ⟨[], (List.append_nil _).symm, fun _ hf => (nomatch hf), .refl _⟩

theorem Follows.trans (h : Follows codec s t) (h' : Follows codec t u) : Follows codec s u := by
  obtain ⟨first, hfirst, hbefore, hevolves⟩ := h
  obtain ⟨second, hsecond, hbefore', hevolves'⟩ := h'
  refine ⟨first ++ second, ?_, ?_, hevolves.trans hevolves'⟩
  · rw [hsecond, hfirst, List.append_assoc]
  · intro f hf
    rcases List.mem_append.mp hf with hold | hnew
    · exact hbefore f hold
    · exact hevolves.trans (hbefore' f hnew)

theorem Follows.effect (h : ServiceState.StepEffect codec s t) : Follows codec s t := by
  cases h with
  | moved sessions hrouted => exact .refl s
  | answered sessions e hrouted hbefore he =>
    refine ⟨[e], rfl, ?_, ?_⟩
    · intro f hf
      obtain rfl := List.mem_singleton.mp hf
      rw [hbefore]
      exact .refl _
    · rw [← hbefore]
      exact he.evolves
  | reserved id outcome =>
    refine ⟨[], (List.append_nil _).symm, fun _ hf => (nomatch hf), ?_⟩
    exact OrderTables.Written.evolves ⟨.changeStatus id .created .reserved outcome, ⟨rfl, rfl⟩, rfl⟩

end LiquidPetProject.OrderService

namespace LiquidPetProject.EndToEnd

open Models Http HttpServer Gateway OrderService Repository Platform

variable {codec : TextCodec} {services : Services} {s t : OrderSystem}

theorem SystemSound.follows {a : SystemAction} (hs : SystemSound codec services s)
    (h : s.step codec services a = some t) : Follows codec s.service t.service := by
  rcases (system_moves h).2 with hsame | ⟨b, -, hb⟩
  · rw [hsame]
    exact .refl _
  · exact .effect (ServiceState.step_effect hs.service.routed hb)

end LiquidPetProject.EndToEnd

namespace LiquidPetProject.OrderService

open Models Http HttpServer Repository Outbox

variable {codec : TextCodec} {s t : ServiceState}

theorem handle_tables {handler : OrderHandler} {db after : OrderTables String} {request : Request} {reply : DatabaseReply}
    {answer : HandlerAnswer} {k : ℕ} (hreads : (ServiceAction.handle k reply).readsTables = true)
    (h : handler.handle codec db request reply = some (after, answer)) : after = db := by
  cases reply with
  | save generated eventId createdAt outcome => cases hreads
  | find itemRows failure =>
    cases handler with
    | get =>
      simp only [OrderHandler.handle] at h
      split_ifs at h
      exact (Prod.mk.inj (Option.some.inj h)).1.symm
    | _ => cases h
  | unused =>
    cases handler with
    | health => exact (Prod.mk.inj (Option.some.inj h)).1.symm
    | _ => cases h

theorem step_tables {a : ServiceAction} (hreads : a.readsTables = true) (h : s.step codec a = some t) : t.db = s.db := by
  have moved {k : ℕ} {b : SessionAction} (h : s.sessions[k]?.bind (s.moveStep k b) = some t) : t.db = s.db := by
    obtain ⟨session, -, hmove⟩ := Option.bind_eq_some_iff.mp h
    obtain ⟨pc, -, rfl⟩ := Option.map_eq_some_iff.mp hmove
    rfl
  cases a with
  | accept =>
    obtain rfl := Option.some.inj h
    rfl
  | read k sender message =>
    obtain ⟨session, -, hread⟩ := Option.bind_eq_some_iff.mp h
    obtain ⟨pc, -, rfl⟩ := Option.map_eq_some_iff.mp hread
    split
    · rfl
    · rfl
  | handle k reply =>
    obtain ⟨session, -, hhandle⟩ := Option.bind_eq_some_iff.mp h
    unfold ServiceState.handleStep at hhandle
    split at hhandle
    · obtain ⟨⟨db, answer⟩, hanswer, hhandle⟩ := Option.bind_eq_some_iff.mp hhandle
      obtain ⟨pc, -, rfl⟩ := Option.map_eq_some_iff.mp hhandle
      exact handle_tables hreads hanswer
    · cases hhandle
  | written k => exact moved h
  | failed k => exact moved h
  | reserve id outcome => cases hreads

theorem step_create {k : ℕ} {session : Session} {message : BeastRequest} {generated : Uuid} {eventId : OutboxEventId}
    {createdAt : ℤ} {outcome : CommitOutcome} (hsession : s.sessions[k]? = some session)
    (hpc : session.pc = .handling message .create)
    (h : s.step codec (.handle k (.save generated eventId createdAt outcome)) = some t) :
    t.db = (CreateOrderHandler.handle codec s.db (HttpMessageConverter.toHttpRequest message) generated eventId createdAt
      outcome).1 := by
  simp only [ServiceState.step, hsession, Option.bind_some, ServiceState.handleStep, hpc] at h
  obtain ⟨⟨db, answer⟩, hanswer, h⟩ := Option.bind_eq_some_iff.mp h
  obtain ⟨pc, -, rfl⟩ := Option.map_eq_some_iff.mp h
  exact (congrArg Prod.fst (Option.some.inj hanswer)).symm

end LiquidPetProject.OrderService

namespace LiquidPetProject.Platform

open Models Http Gateway Repository Outbox OrderService EndToEnd Choreography OrderPipeline Transitions

structure PlatformSound (codec : TextCodec) (services : Services) (s : OrderPlatform) : Prop where
  web : SystemSound codec services s.web
  flow : FlowSound codec.toCodec s.flow
  copies : FlowCopies s.flow
  mirrors : s.web.service.db.Mirrors s.flow.pipeline

variable {codec : TextCodec} {services : Services} {s t : OrderPlatform}

theorem platformSound_start (orderPublishers workerPublishers : List Int32) :
    PlatformSound codec services (.start orderPublishers workerPublishers) :=
  ⟨SystemSound.start codec services, flowSound_start _ _, flowCopies_start _ _, OrderTables.mirrors_start _ _⟩

theorem web_tables {w w' : OrderSystem} {a : SystemAction} (hreads : a.readsTables = true)
    (h : w.step codec services a = some w') : w'.service.db = w.service.db := by
  rcases (system_moves h).2 with hsame | ⟨b, hb, hstep⟩
  · rw [hsame]
  · exact step_tables (hb hreads) hstep

theorem pipeline_some {s t : OrderFlow} {a : OrderPipeline.PipelineAction String}
    (h : s.step codec.toCodec (.pipeline a) = some t) :
    ∃ p, s.pipeline.step codec.toCodec a = some p ∧ t = { s with pipeline := p } := by
  simp only [OrderFlow.step] at h
  split_ifs at h
  obtain ⟨p, hp, rfl⟩ := Option.map_eq_some_iff.mp h
  exact ⟨p, hp, rfl⟩

theorem PlatformSound.saveStep (hs : PlatformSound codec services s) (hcodec : codec.toCodec.Faithful) {k : ℕ}
    {generated : Uuid} {eventId : OutboxEventId} {createdAt : ℤ} {outcome : CommitOutcome}
    (h : s.step codec services (.save k generated eventId createdAt outcome) = some t) :
    PlatformSound codec services t ∧ Follows codec s.web.service t.web.service := by
  obtain ⟨session, hsession, h⟩ := Option.bind_eq_some_iff.mp h
  unfold OrderPlatform.saveStep at h
  split at h
  · rename_i message hpc
    obtain ⟨web, hweb, h⟩ := Option.bind_eq_some_iff.mp h
    obtain ⟨flow, hflow, rfl⟩ := Option.map_eq_some_iff.mp h
    refine ⟨⟨hs.web.step hweb, hs.flow.step hcodec hflow, hs.copies.step hs.flow hflow, ?_⟩, hs.web.follows hweb⟩
    obtain ⟨service, hservice, rfl⟩ := Option.map_eq_some_iff.mp hweb
    obtain ⟨pipeline, hpipeline, rfl⟩ := pipeline_some hflow
    obtain rfl := Option.some.inj hpipeline
    have htables := step_create hsession hpc hservice
    dsimp only
    rw [htables]
    exact hs.mirrors.create codec (HttpMessageConverter.toHttpRequest message) generated eventId createdAt outcome
  · cases h

theorem PlatformSound.changeStep (hs : PlatformSound codec services s) (hcodec : codec.toCodec.Faithful) {i : ℕ}
    {outcome : CommitOutcome} (h : s.step codec services (.changeStatus i outcome) = some t) :
    PlatformSound codec services t ∧ Follows codec s.web.service t.web.service := by
  obtain ⟨r, hr, h⟩ := Option.bind_eq_some_iff.mp h
  unfold OrderPlatform.changeStep at h
  split at h
  · rename_i orderId hpc
    obtain ⟨flow, hflow, h⟩ := Option.bind_eq_some_iff.mp h
    obtain ⟨web, hweb, rfl⟩ := Option.map_eq_some_iff.mp h
    refine ⟨⟨hs.web.step hweb, hs.flow.step hcodec hflow, hs.copies.step hs.flow hflow, ?_⟩, hs.web.follows hweb⟩
    obtain rfl := Option.some.inj hweb
    obtain ⟨pipeline, hpipeline, rfl⟩ := pipeline_some hflow
    simp only [PipelineState.step, PipelineState.reserveStep, OrderReservedHandler.Action.isHandler, if_true] at hpipeline
    obtain ⟨orderService, hchange, rfl⟩ := Option.map_eq_some_iff.mp hpipeline
    exact hs.mirrors.changeStatus (OrderReservedHandler.State.step_change hr hpc hchange) rfl
  · cases h

theorem PlatformSound.step (hs : PlatformSound codec services s) (hcodec : codec.toCodec.Faithful) {a : PlatformAction}
    (h : s.step codec services a = some t) :
    PlatformSound codec services t ∧ Follows codec s.web.service t.web.service := by
  cases a with
  | web a =>
    simp only [OrderPlatform.step] at h
    split_ifs at h with hreads
    obtain ⟨web, hweb, rfl⟩ := Option.map_eq_some_iff.mp h
    refine ⟨⟨hs.web.step hweb, hs.flow, hs.copies, ?_⟩, hs.web.follows hweb⟩
    dsimp only
    rw [web_tables hreads hweb]
    exact hs.mirrors
  | flow a =>
    simp only [OrderPlatform.step] at h
    split_ifs at h with hleaves
    obtain ⟨flow, hflow, rfl⟩ := Option.map_eq_some_iff.mp h
    obtain ⟨horders, hevents⟩ := flow_same hleaves hs.flow hflow
    exact ⟨⟨hs.web, hs.flow.step hcodec hflow, hs.copies.step hs.flow hflow, hs.mirrors.frame horders hevents⟩, .refl _⟩
  | save k generated eventId createdAt outcome => exact hs.saveStep hcodec h
  | changeStatus i outcome => exact hs.changeStep hcodec h

theorem PlatformSound.run (hs : PlatformSound codec services s) (hcodec : codec.toCodec.Faithful)
    {actions : List PlatformAction} (h : run (OrderPlatform.step codec services) s actions = some t) :
    PlatformSound codec services t ∧ Follows codec s.web.service t.web.service := by
  constructor
  · exact run_invariant (fun _ _ _ hi hstep => (hi.step hcodec hstep).1) hs h
  · exact run_relates (I := PlatformSound codec services) (R := fun u v => Follows codec u.web.service v.web.service)
      (fun u => .refl _) (fun u v w => .trans) (fun u a v hi hstep => (hi.step hcodec hstep).1)
      (fun u a v hi hstep => (hi.step hcodec hstep).2) hs h

end LiquidPetProject.Platform
