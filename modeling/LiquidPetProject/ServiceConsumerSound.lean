import LiquidPetProject.OutboxSteps
import LiquidPetProject.ServiceConsumerSteps

namespace LiquidPetProject.Messaging

open Models Outbox ConsumerGroup

@[simp] theorem setThread_self (calls : ℕ → ℕ → Option ℕ) (i w : ℕ) (call : Option ℕ) :
    setThread calls i w call i w = call := by
  unfold setThread
  rw [Function.update_self, Function.update_self]

theorem setThread_other (calls : ℕ → ℕ → Option ℕ) {i w j v : ℕ} (h : (j, v) ≠ (i, w)) (call : Option ℕ) :
    setThread calls i w call j v = calls j v := by
  unfold setThread
  by_cases hj : j = i
  · subst hj
    rw [Function.update_self]
    apply Function.update_of_ne
    rintro rfl
    exact h rfl
  · rw [Function.update_of_ne hj]

theorem setThread_some {calls : ℕ → ℕ → Option ℕ} {i w j v n : ℕ} {call : Option ℕ}
    (h : setThread calls i w call j v = some n) : (j, v) = (i, w) ∧ call = some n ∨ (j, v) ≠ (i, w) ∧ calls j v = some n := by
  by_cases hthread : (j, v) = (i, w)
  · obtain ⟨rfl, rfl⟩ := Prod.mk.inj hthread
    rw [setThread_self] at h
    exact .inl ⟨rfl, h⟩
  · rw [setThread_other calls hthread] at h
    exact .inr ⟨hthread, h⟩

theorem afterGroup_some {a : GroupAction} {calls : ℕ → ℕ → Option ℕ} {i w n : ℕ}
    (h : afterGroup a calls i w = some n) : a ≠ .crash i ∧ calls i w = some n := by
  unfold afterGroup at h
  split at h
  · next j =>
    by_cases hj : i = j
    · subst hj
      rw [Function.update_self] at h
      cases h
    · rw [Function.update_of_ne hj] at h
      refine ⟨?_, h⟩
      intro hcrash
      exact hj (GroupAction.crash.inj hcrash).symm
  · next hcrash => exact ⟨hcrash i, h⟩

namespace ServiceConsumer

structure SinkSound (sink : OutboxState String) : Prop where
  stored : ∀ future ∈ sink.futures, future.stored = true → future.request ∈ sink.messages
  acknowledged : ∀ future ∈ sink.futures, future.result = some (.ok ()) → future.stored = true

theorem SinkSound.addFuture {sink : OutboxState String} (h : SinkSound sink) (request : PublishRequest String) :
    SinkSound (sink.addFuture request) := by
  constructor
  · intro future hf hstored
    rcases List.mem_append.mp hf with hold | hnew
    · exact h.stored future hold hstored
    · obtain rfl := List.mem_singleton.mp hnew
      cases hstored
  · intro future hf hok
    rcases List.mem_append.mp hf with hold | hnew
    · exact h.acknowledged future hold hok
    · obtain rfl := List.mem_singleton.mp hnew
      cases hok

theorem SinkSound.broker {sink sink' : OutboxState String} (h : SinkSound sink) {f : ℕ} {event : BrokerEvent}
    (hstep : sink.step (.broker f event) = some sink') :
    SinkSound sink' ∧ sink.messages ⊆ sink'.messages ∧
      ∀ (k : ℕ) (future : PublishFuture String), sink.futures[k]? = some future →
        ∃ future' : PublishFuture String, sink'.futures[k]? = some future' ∧ future'.request = future.request := by
  obtain ⟨future, hf, hbroker⟩ := OutboxState.step_broker hstep
  have hmem := List.mem_of_getElem? hf
  have placed (future' : PublishFuture String) (hrequest : future'.request = future.request) (k : ℕ)
      (old : PublishFuture String) (hk : sink.futures[k]? = some old) :
      ∃ new, (sink.futures.set f future')[k]? = some new ∧ new.request = old.request := by
    by_cases hkf : f = k
    · subst hkf
      obtain rfl := Option.some.inj (hf.symm.trans hk)
      exact ⟨future', List.getElem?_set_self (List.getElem?_eq_some_iff.mp hf).1, hrequest⟩
    · exact ⟨old, by rw [List.getElem?_set_ne hkf]; exact hk, rfl⟩
  cases event with
  | stored =>
    obtain rfl := Option.some.inj hbroker
    refine ⟨⟨?_, ?_⟩, List.subset_append_left _ _, placed _ rfl⟩
    · intro other hother hstored
      rcases List.mem_or_eq_of_mem_set hother with hold | rfl
      · exact List.mem_append_left _ (h.stored other hold hstored)
      · exact List.mem_append_right _ (List.mem_singleton_self _)
    · intro other hother hok
      rcases List.mem_or_eq_of_mem_set hother with hold | rfl
      · exact h.acknowledged other hold hok
      · rfl
  | acknowledged =>
    simp only [OutboxState.brokerStep] at hbroker
    split_ifs at hbroker with hguard
    obtain rfl := Option.some.inj hbroker
    refine ⟨⟨?_, ?_⟩, List.Subset.refl _, placed _ rfl⟩
    · intro other hother hstored
      rcases List.mem_or_eq_of_mem_set hother with hold | rfl
      · exact h.stored other hold hstored
      · exact h.stored future hmem hguard.1
    · intro other hother hok
      rcases List.mem_or_eq_of_mem_set hother with hold | rfl
      · exact h.acknowledged other hold hok
      · exact hguard.1
  | rejected e =>
    simp only [OutboxState.brokerStep] at hbroker
    split_ifs at hbroker with hguard
    obtain rfl := Option.some.inj hbroker
    refine ⟨⟨?_, ?_⟩, List.Subset.refl _, placed _ rfl⟩
    · intro other hother hstored
      rcases List.mem_or_eq_of_mem_set hother with hold | rfl
      · exact h.stored other hold hstored
      · exact h.stored future hmem hstored
    · intro other hother hok
      rcases List.mem_or_eq_of_mem_set hother with hold | rfl
      · exact h.acknowledged other hold hok
      · cases hok

section Calls

variable {σ : Type} (started : σ → ℕ → String → MessageMetadata → Prop) (done : σ → String → MessageMetadata → Prop)

structure Onward (s t : σ) : Prop where
  started : ∀ n payload metadata, started s n payload metadata → started t n payload metadata
  done : ∀ payload metadata, done s payload metadata → done t payload metadata

structure Holds (s : σ) (c : ServiceConsumer) : Prop where
  group : GroupSound c.group
  sink : SinkSound c.sink
  calls : ∀ i w n, c.calls i w = some n → ∃ item, c.group.callee i w = some (.handler item) ∧
    started s n item.payload item.metadata
  sends : ∀ i w f, c.sends i w = some f → ∃ (record : DeadLetterRecord) (future : PublishFuture String),
    c.group.callee i w = some (.sink record) ∧ c.sink.futures[f]? = some future ∧
      future.request = PublisherDeadLetterSink.publishRequest record
  handled : ∀ p o payload metadata, .handled p o payload metadata ∈ c.group.history → done s payload metadata
  deadLettered : ∀ record, .deadLettered record ∈ c.group.history →
    PublisherDeadLetterSink.publishRequest record ∈ c.sink.messages

/-- What is asked of a handler: where the service is sound, a call that reports success had its effect. -/
structure Serves (handler : EventHandler σ) (sound : σ → Prop) : Prop where
  begun : ∀ s payload metadata,
    started (handler.handle s payload metadata).1 (handler.handle s payload metadata).2 payload metadata
  kept : ∀ s payload metadata, Onward started done s (handler.handle s payload metadata).1
  succeeds : ∀ s n payload metadata, sound s → started s n payload metadata →
    handler.result s n = some (.returned true) → done s payload metadata

variable {started done} {s t : σ} {c c' : ServiceConsumer} {i w : ℕ}

theorem Holds.onward (hs : Holds started done s c) (h : Onward started done s t) : Holds started done t c := by
  refine ⟨hs.group, hs.sink, ?_, hs.sends, ?_, hs.deadLettered⟩
  · intro i w n hn
    obtain ⟨item, hcallee, hstarted⟩ := hs.calls i w n hn
    exact ⟨item, hcallee, h.started _ _ _ hstarted⟩
  · intro p o payload metadata hm
    exact h.done _ _ (hs.handled p o payload metadata hm)

theorem Holds.empty (s : σ) : Holds started done s {} := by
  refine ⟨ConsumerGroup.GroupSound.empty, ⟨?_, ?_⟩, ?_, ?_, ?_, ?_⟩
  · exact fun future hf => (nomatch hf)
  · exact fun future hf => (nomatch hf)
  · exact fun i w n hn => (nomatch hn)
  · exact fun i w f hf => (nomatch hf)
  · exact fun p o payload metadata hm => (nomatch hm)
  · exact fun record hm => (nomatch hm)

theorem Holds.produce (hs : Holds started done s c) {r : ConsumerRecord} {group : ConsumerGroup}
    (h : c.group.step (.produce r) = some group) : Holds started done s { c with group := group } := by
  have hgroup := (hs.group.step h).1
  obtain rfl := ConsumerGroup.produce_some h
  exact ⟨hgroup, hs.sink, hs.calls, hs.sends, hs.handled, hs.deadLettered⟩

theorem Holds.handle {handler : EventHandler σ} {sound : σ → Prop} (hserves : Serves started done handler sound)
    (hs : Holds started done s c) (h : c.handleStep handler s i w = some (t, c')) : Holds started done t c' := by
  unfold handleStep at h
  split at h
  · next item hnone hcallee =>
    obtain ⟨rfl, rfl⟩ := Prod.mk.inj (Option.some.inj h)
    have hon := hs.onward (hserves.kept s item.payload item.metadata)
    refine ⟨hon.group, hon.sink, ?_, hon.sends, hon.handled, hon.deadLettered⟩
    intro j v n hn
    rcases setThread_some hn with ⟨hthread, hcall⟩ | ⟨-, hold⟩
    · obtain ⟨rfl, rfl⟩ := Prod.mk.inj hthread
      obtain rfl := Option.some.inj hcall
      exact ⟨item, hcallee, hserves.begun s item.payload item.metadata⟩
    · exact hon.calls j v n hold
  · cases h

theorem Holds.send (hs : Holds started done s c) (h : c.sendStep i w = some c') : Holds started done s c' := by
  unfold sendStep at h
  split at h
  · next record hnone hcallee =>
    obtain rfl := Option.some.inj h
    refine ⟨hs.group, hs.sink.addFuture _, hs.calls, ?_, hs.handled, hs.deadLettered⟩
    intro j v f hf
    rcases setThread_some hf with ⟨hthread, hcall⟩ | ⟨-, hold⟩
    · obtain ⟨rfl, rfl⟩ := Prod.mk.inj hthread
      obtain rfl := Option.some.inj hcall
      exact ⟨record, _, hcallee, List.getElem?_concat_length, rfl⟩
    · obtain ⟨other, future, hother, hfuture, hrequest⟩ := hs.sends j v f hold
      refine ⟨other, future, hother, ?_, hrequest⟩
      exact (List.getElem?_append_left (List.getElem?_eq_some_iff.mp hfuture).1).trans hfuture
  · cases h

theorem Holds.broker (hs : Holds started done s c) {f : ℕ} {event : BrokerEvent} {sink : OutboxState String}
    (h : c.sink.step (.broker f event) = some sink) : Holds started done s { c with sink := sink } := by
  obtain ⟨hsink, hmessages, hplaced⟩ := hs.sink.broker h
  refine ⟨hs.group, hsink, hs.calls, ?_, hs.handled, fun record hm => hmessages (hs.deadLettered record hm)⟩
  intro j v k hk
  obtain ⟨record, future, hcallee, hfuture, hrequest⟩ := hs.sends j v k hk
  obtain ⟨future', hfuture', hsame⟩ := hplaced k future hfuture
  exact ⟨record, future', hcallee, hfuture', hsame.trans hrequest⟩

theorem Holds.answer (hs : Holds started done s c) {reply : Reply} (h : c.answer i w reply = some c')
    (hhandled : reply = .handler (.returned true) → ∀ item, c.group.callee i w = some (.handler item) →
      done s item.payload item.metadata)
    (hsent : reply = .sink (.returned (.ok ())) → ∀ record, c.group.callee i w = some (.sink record) →
      PublisherDeadLetterSink.publishRequest record ∈ c.sink.messages) : Holds started done s c' := by
  obtain ⟨group, hstep, rfl⟩ := Option.map_eq_some_iff.mp h
  obtain ⟨-, hhistory⟩ := ConsumerGroup.step_keeps hstep (fun r hr => GroupAction.noConfusion hr)
  have hother {j v : ℕ} {x : Callee} (hthread : (j, v) ≠ (i, w)) (hx : c.group.callee j v = some x) :
      group.callee j v = some x := by
    apply ConsumerGroup.callee_step hstep (fun hcrash => GroupAction.noConfusion hcrash) _ hx
    intro reply' hreply
    obtain ⟨rfl, hexecute⟩ := GroupAction.worker.inj hreply
    obtain ⟨rfl, -⟩ := PipelineAction.execute.inj hexecute
    exact absurd rfl hthread
  refine ⟨(hs.group.step hstep).1, hs.sink, ?_, ?_, ?_, ?_⟩
  · intro j v n hn
    rcases setThread_some hn with ⟨-, hnone⟩ | ⟨hthread, hold⟩
    · cases hnone
    · obtain ⟨item, hcallee, hstarted⟩ := hs.calls j v n hold
      exact ⟨item, hother hthread hcallee, hstarted⟩
  · intro j v f hf
    rcases setThread_some hf with ⟨-, hnone⟩ | ⟨hthread, hold⟩
    · cases hnone
    · obtain ⟨record, future, hcallee, hfuture⟩ := hs.sends j v f hold
      exact ⟨record, future, hother hthread hcallee, hfuture⟩
  · intro p o payload metadata hm
    rcases hhistory _ hm with hold | hnew
    · exact hs.handled p o payload metadata hold
    · generalize hy : Settlement.handled p o payload metadata = y at hnew
      cases hnew with
      | skipped p o => cases hy
      | handled ha hcallee =>
        obtain ⟨rfl, hexecute⟩ := GroupAction.worker.inj ha
        obtain ⟨rfl, hreply⟩ := PipelineAction.execute.inj hexecute
        obtain ⟨-, -, rfl, rfl⟩ := Settlement.handled.inj hy
        exact hhandled hreply _ hcallee
      | deadLettered ha hcallee => cases hy
  · intro record hm
    rcases hhistory _ hm with hold | hnew
    · exact hs.deadLettered record hold
    · generalize hy : Settlement.deadLettered record = y at hnew
      cases hnew with
      | skipped p o => cases hy
      | handled ha hcallee => cases hy
      | deadLettered ha hcallee =>
        obtain ⟨rfl, hexecute⟩ := GroupAction.worker.inj ha
        obtain ⟨rfl, hreply⟩ := PipelineAction.execute.inj hexecute
        obtain rfl := Settlement.deadLettered.inj hy
        exact hsent hreply _ hcallee

theorem Holds.groupStep (hs : Holds started done s c) {a : GroupAction} (ha : a.ofGroup = true) {group : ConsumerGroup}
    (h : c.group.step a = some group) :
    Holds started done s { c with group := group, calls := afterGroup a c.calls, sends := afterGroup a c.sends } := by
  have hunanswered {j v : ℕ} {reply : Reply} (hreply : a = .worker j (.execute v reply)) : reply = .none := by
    rw [hreply] at ha
    exact of_decide_eq_true ha
  have hproduce : ∀ r, a ≠ .produce r := by
    rintro r rfl
    cases ha
  obtain ⟨-, hhistory⟩ := ConsumerGroup.step_keeps h hproduce
  refine ⟨(hs.group.step h).1, hs.sink, ?_, ?_, ?_, ?_⟩
  · intro j v n hn
    obtain ⟨hcrash, hold⟩ := afterGroup_some hn
    obtain ⟨item, hcallee, hstarted⟩ := hs.calls j v n hold
    exact ⟨item, ConsumerGroup.callee_step h hcrash (fun _ => hunanswered) hcallee, hstarted⟩
  · intro j v f hf
    obtain ⟨hcrash, hold⟩ := afterGroup_some hf
    obtain ⟨record, future, hcallee, hfuture⟩ := hs.sends j v f hold
    exact ⟨record, future, ConsumerGroup.callee_step h hcrash (fun _ => hunanswered) hcallee, hfuture⟩
  · intro p o payload metadata hm
    rcases hhistory _ hm with hold | hnew
    · exact hs.handled p o payload metadata hold
    · generalize hy : Settlement.handled p o payload metadata = y at hnew
      cases hnew with
      | skipped p o => cases hy
      | handled hanswer hcallee => cases hunanswered hanswer
      | deadLettered hanswer hcallee => cases hy
  · intro record hm
    rcases hhistory _ hm with hold | hnew
    · exact hs.deadLettered record hold
    · generalize hy : Settlement.deadLettered record = y at hnew
      cases hnew with
      | skipped p o => cases hy
      | handled hanswer hcallee => cases hy
      | deadLettered hanswer hcallee => cases hunanswered hanswer

theorem Holds.step {handler : EventHandler σ} {sound : σ → Prop} (hserves : Serves started done handler sound)
    (hsound : sound s) (hs : Holds started done s c) {a : ConsumerAction} (h : c.step handler s a = some (t, c')) :
    Holds started done t c' := by
  cases a with
  | group a =>
    simp only [ServiceConsumer.step] at h
    split_ifs at h with ha
    obtain ⟨group, hstep, he⟩ := Option.map_eq_some_iff.mp h
    obtain ⟨rfl, rfl⟩ := Prod.mk.inj he
    exact hs.groupStep ha hstep
  | handle i w => exact hs.handle hserves h
  | handled i w =>
    obtain ⟨n, hn, h⟩ := Option.bind_eq_some_iff.mp h
    obtain ⟨r, hr, h⟩ := Option.bind_eq_some_iff.mp h
    obtain ⟨c', hanswer, he⟩ := Option.map_eq_some_iff.mp h
    obtain ⟨rfl, rfl⟩ := Prod.mk.inj he
    obtain ⟨item, hcallee, hstarted⟩ := hs.calls i w n hn
    apply hs.answer hanswer
    · intro hreply other hother
      obtain rfl := Reply.handler.inj hreply
      obtain rfl := Callee.handler.inj (Option.some.inj (hcallee.symm.trans hother))
      exact hserves.succeeds s n _ _ hsound hstarted hr
    · intro hreply
      cases hreply
  | send i w =>
    obtain ⟨c', hsend, he⟩ := Option.map_eq_some_iff.mp h
    obtain ⟨rfl, rfl⟩ := Prod.mk.inj he
    exact hs.send hsend
  | broker f event =>
    obtain ⟨sink, hbroker, he⟩ := Option.map_eq_some_iff.mp h
    obtain ⟨rfl, rfl⟩ := Prod.mk.inj he
    exact hs.broker hbroker
  | sent i w =>
    obtain ⟨f, hf, h⟩ := Option.bind_eq_some_iff.mp h
    obtain ⟨r, hr, h⟩ := Option.bind_eq_some_iff.mp h
    obtain ⟨c', hanswer, he⟩ := Option.map_eq_some_iff.mp h
    obtain ⟨rfl, rfl⟩ := Prod.mk.inj he
    obtain ⟨record, future, hcallee, hfuture, hrequest⟩ := hs.sends i w f hf
    apply hs.answer hanswer
    · intro hreply
      cases hreply
    · intro hreply other hother
      obtain rfl := SinkResult.returned.inj (Reply.sink.inj hreply)
      obtain rfl := Callee.sink.inj (Option.some.inj (hcallee.symm.trans hother))
      obtain ⟨found, hfound, hok⟩ := Option.bind_eq_some_iff.mp hr
      obtain rfl := Option.some.inj (hfuture.symm.trans hfound)
      have hmem := List.mem_of_getElem? hfuture
      rw [← hrequest]
      exact hs.sink.stored future hmem (hs.sink.acknowledged future hmem hok)
  | sendTimedOut i w =>
    obtain ⟨f, -, h⟩ := Option.bind_eq_some_iff.mp h
    split_ifs at h
    obtain ⟨c', hanswer, he⟩ := Option.map_eq_some_iff.mp h
    obtain ⟨rfl, rfl⟩ := Prod.mk.inj he
    apply hs.answer hanswer
    · intro hreply
      cases hreply
    · intro hreply
      cases hreply
  | sendThrew i w =>
    obtain ⟨f, -, h⟩ := Option.bind_eq_some_iff.mp h
    obtain ⟨c', hanswer, he⟩ := Option.map_eq_some_iff.mp h
    obtain ⟨rfl, rfl⟩ := Prod.mk.inj he
    apply hs.answer hanswer
    · intro hreply
      cases hreply
    · intro hreply
      cases hreply

end Calls

end ServiceConsumer

end LiquidPetProject.Messaging
