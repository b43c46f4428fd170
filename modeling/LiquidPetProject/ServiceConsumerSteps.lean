import LiquidPetProject.AtLeastOnce
import LiquidPetProject.PipelineAccounting
import LiquidPetProject.ServiceConsumer

namespace LiquidPetProject.Messaging

open Models

section Workers

variable {retry : RetryPolicy} {workers : List (Worker WorkItem ExecutorPc)} {i w : ℕ} {x : Callee}

theorem callee_set {old new : Worker WorkItem ExecutorPc} (hi : workers[i]? = some old)
    (hnew : old.callee retry = none ∨ new.callee retry = old.callee retry)
    (hw : workers[w]?.bind (Worker.callee retry) = some x) :
    (workers.set i new)[w]?.bind (Worker.callee retry) = some x := by
  by_cases hiw : i = w
  · subst hiw
    rw [hi, Option.bind_some] at hw
    rcases hnew with hnone | hsame
    · cases hnone.symm.trans hw
    · have hlt := (List.getElem?_eq_some_iff.mp hi).1
      rw [List.getElem?_set_self hlt, Option.bind_some, hsame]
      exact hw
  · rw [List.getElem?_set_ne hiw]
    exact hw

theorem callee_ended {item : WorkItem} {pc : ExecutorPc} {stop : Bool} (h : pc.ended = true) :
    Worker.callee retry ⟨.running item pc, stop⟩ = none := by
  cases pc with
  | handling attempt => cases h
  | sending => cases h
  | _ => rfl

theorem callee_idle {item : WorkItem} {pc : ExecutorPc} {stop : Bool} {reg : PartitionRegistry}
    {next : List ExecutorEvent × PartitionRegistry × ExecutorPc}
    (h : RecordExecutor.step retry item stop reg pc .none = some next) :
    Worker.callee retry ⟨.running item pc, stop⟩ = none := by
  cases pc with
  | handling attempt => cases h
  | sending => cases h
  | _ => rfl

end Workers

section Pipelines

variable {config : PipelineConfiguration} {s s' : ConsumerPipeline} {w : ℕ} {x : Callee}

theorem callee_readerStep (h : s.readerStep = some s')
    (hw : s.pool.workers[w]?.bind (Worker.callee config.retry) = some x) :
    s'.pool.workers[w]?.bind (Worker.callee config.retry) = some x := by
  rcases ConsumerPipeline.readerStep_pool h with ⟨hsame, -⟩ | ⟨-, i, hpool⟩
  · rw [hsame]
    exact hw
  · rw [hpool]
    cases hi : s.pool.workers[i]? with
    | none =>
      rw [WorkerPool.requestStop_of_none hi]
      exact hw
    | some worker =>
      rw [WorkerPool.requestStop_of_some hi]
      exact callee_set hi (.inr rfl) hw

theorem callee_pipelineStep {a : PipelineAction} (h : s.step config a = some s')
    (ha : ∀ reply, a = .execute w reply → reply = .none)
    (hw : s.pool.workers[w]?.bind (Worker.callee config.retry) = some x) :
    s'.pool.workers[w]?.bind (Worker.callee config.retry) = some x := by
  cases a with
  | ingest record =>
    simp only [ConsumerPipeline.step] at h
    split_ifs at h
    obtain rfl := Option.some.inj h
    rw [ConsumerPipeline.register_pool]
    exact hw
  | reader => exact callee_readerStep h hw
  | take i =>
    obtain ⟨pool, hp, rfl⟩ := Option.map_eq_some_iff.mp h
    obtain ⟨task, rest, hi, -, rfl⟩ := WorkerPool.take_eq_some hp
    exact callee_set hi (.inl rfl) hw
  | execute i reply =>
    simp only [ConsumerPipeline.step, ConsumerPipeline.executeStep] at h
    split at h
    · next item pc stop hi =>
      obtain ⟨⟨events, reg, pc'⟩, hstep, rfl⟩ := Option.map_eq_some_iff.mp h
      dsimp only
      rw [WorkerPool.advance_of_running hi]
      by_cases hiw : i = w
      · subst hiw
        obtain rfl := ha reply rfl
        exact callee_set hi (.inl (callee_idle hstep)) hw
      · rw [List.getElem?_set_ne hiw]
        exact hw
    · cases h
  | finish i =>
    obtain ⟨pool, hp, rfl⟩ := Option.map_eq_some_iff.mp h
    obtain ⟨task, pc, stop, hi, hended, rfl⟩ := WorkerPool.finish_eq_some hp
    exact callee_set hi (.inl (callee_ended hended)) hw
  | exit i =>
    obtain ⟨pool, hp, rfl⟩ := Option.map_eq_some_iff.mp h
    obtain ⟨hi, rfl⟩ := WorkerPool.exit_eq_some hp
    exact callee_set hi (.inl rfl) hw
  | _ =>
    simp only [ConsumerPipeline.step] at h
    split_ifs at h
    obtain rfl := Option.some.inj h
    exact hw

theorem KafkaEventConsumer.LoopStep.workers {c c' : KafkaEventConsumer} (h : c.LoopStep c') :
    c'.pipeline.pool.workers = c.pipeline.pool.workers ∧ c'.configuration = c.configuration := by
  cases h with
  | ingest r rest hpc herror => exact ⟨by rw [ConsumerPipeline.register_pool], rfl⟩
  | _ => exact ⟨rfl, rfl⟩

theorem KafkaEventConsumer.callee_proceed {c c' : KafkaEventConsumer} {due : Bool} {settled : List Settlement}
    (h : c.proceed due = some (settled, c')) (hw : c.callee w = some x) : c'.callee w = some x := by
  unfold KafkaEventConsumer.callee at hw ⊢
  rcases KafkaEventConsumer.proceed_some h with ⟨-, -, hloop⟩ | ⟨-, -, pipeline, hstep, rfl⟩
  · rw [hloop.workers.1, hloop.workers.2]
    exact hw
  · exact callee_readerStep hstep hw

end Pipelines

namespace ConsumerGroup

variable {g g' : ConsumerGroup} {a : GroupAction} {i w : ℕ} {x : Callee}

theorem callee_some : g.callee i w = some x ↔ ∃ c, g.processes i = some c ∧ c.callee w = some x :=
  Option.bind_eq_some_iff

theorem callee_of_processes (h : g'.processes i = g.processes i) : g'.callee i w = g.callee i w := by
  unfold callee
  rw [h]

theorem callee_step (h : g.step a = some g') (hcrash : a ≠ .crash i)
    (ha : ∀ reply, a = .worker i (.execute w reply) → reply = .none) (hw : g.callee i w = some x) :
    g'.callee i w = some x := by
  by_cases hactor : a.actor = some i
  · obtain ⟨c, hc, hx⟩ := callee_some.mp hw
    have known {d : KafkaEventConsumer} (hd : g.processes i = some d) : d.callee w = some x := by
      obtain rfl := Option.some.inj (hd.symm.trans hc)
      exact hx
    have kept {d d' : KafkaEventConsumer} (hd : g.processes i = some d) (hd' : g'.processes i = some d')
        (hsame : d'.callee w = d.callee w) : g'.callee i w = some x :=
      callee_some.mpr ⟨d', hd', hsame.trans (known hd)⟩
    cases a with
    | produce r => cases hactor
    | loseOwner p => cases hactor
    | crash j =>
      obtain rfl := Option.some.inj hactor
      exact absurd rfl hcrash
    | spawn j configuration =>
      obtain rfl := Option.some.inj hactor
      obtain ⟨hnone, -⟩ := spawn_some h
      cases hnone.symm.trans hc
    | requestStop j =>
      obtain rfl := Option.some.inj hactor
      obtain ⟨d, hd, rfl⟩ := requestStop_some h
      exact kept hd (setProcess_self ..) rfl
    | assigned j ps =>
      obtain rfl := Option.some.inj hactor
      obtain ⟨d, hd, -, -, rfl⟩ := assigned_some h
      exact kept hd (setProcess_self ..) rfl
    | revoked j ps =>
      obtain rfl := Option.some.inj hactor
      obtain ⟨d, hd, -, rfl⟩ := revoked_some h
      exact kept hd (setProcess_self ..) rfl
    | polled j batch =>
      obtain rfl := Option.some.inj hactor
      obtain ⟨d, hd, -, -, rfl⟩ := polled_some h
      exact kept hd (setProcess_self ..) rfl
    | kafkaError j =>
      obtain rfl := Option.some.inj hactor
      obtain ⟨d, hd, -, rfl⟩ := kafkaError_some h
      exact kept hd (setProcess_self ..) rfl
    | proceed j due =>
      obtain rfl := Option.some.inj hactor
      obtain ⟨d, d', settled, hd, hproceed, rfl⟩ := proceed_some h
      exact callee_some.mpr ⟨d', setProcess_self .., KafkaEventConsumer.callee_proceed hproceed (known hd)⟩
    | committed j =>
      obtain rfl := Option.some.inj hactor
      obtain ⟨d, positions, confirm, resume, hd, -, -, rfl⟩ := committed_some h
      exact kept hd (setProcess_self ..) rfl
    | commitFailed j applied =>
      obtain rfl := Option.some.inj hactor
      obtain ⟨d, positions, confirm, resume, hd, -, -, -, rfl⟩ := commitFailed_some h
      exact kept hd (setProcess_self ..) rfl
    | worker j b =>
      obtain rfl := Option.some.inj hactor
      obtain ⟨d, pipeline, hd, -, hstep, rfl⟩ := worker_some h
      refine callee_some.mpr ⟨_, setProcess_self .., callee_pipelineStep hstep ?_ (known hd)⟩
      rintro reply rfl
      exact ha reply rfl
  · rw [callee_of_processes (step_other h hactor)]
    exact hw

inductive Settles (g : ConsumerGroup) (a : GroupAction) : Settlement → Prop
  | skipped (p o) : Settles g a (.skipped p o)
  | handled {i w item} (ha : a = .worker i (.execute w (.handler (.returned true))))
      (hcallee : g.callee i w = some (.handler item)) :
      Settles g a (.handled item.ticket.partition item.ticket.offset item.payload item.metadata)
  | deadLettered {i w record} (ha : a = .worker i (.execute w (.sink (.returned (.ok ())))))
      (hcallee : g.callee i w = some (.sink record)) : Settles g a (.deadLettered record)

theorem settles_reader {c : KafkaEventConsumer} {y : Settlement} (hy : y ∈ c.settlements .reader) : g.Settles a y := by
  unfold KafkaEventConsumer.settlements at hy
  cases hr : c.pipeline.reader with
  | ingesting ticket record =>
    simp only [hr] at hy
    split at hy
    · cases hy
    · rw [List.mem_singleton.mp hy]
      exact .skipped _ _
  | _ =>
    simp only [hr] at hy
    cases hy

theorem settlements_unanswered {policy : RetryPolicy} {item : WorkItem} {stop : Bool} {reg reg' : PartitionRegistry}
    {pc pc' : ExecutorPc} {events : List ExecutorEvent}
    (h : RecordExecutor.step policy item stop reg pc .none = some (events, reg', pc')) :
    events.filterMap (KafkaEventConsumer.settlement item) = [] := by
  cases pc with
  | handling attempt => cases h
  | sending => cases h
  | returned o => cases h
  | escaped => cases h
  | finishing o =>
    obtain ⟨rfl, -⟩ := Prod.mk.inj (Option.some.inj h)
    rfl
  | _ =>
    simp only [RecordExecutor.step_stopCheck, RecordExecutor.step_currentCheck, RecordExecutor.step_sleeping,
      RecordExecutor.step_deadLetterStopCheck, RecordExecutor.step_deadLetterCurrentCheck,
      RecordExecutor.step_sendSleeping] at h
    split_ifs at h
    all_goals
      obtain ⟨rfl, -⟩ := Prod.mk.inj (Option.some.inj h)
      rfl

theorem settles_worker {c : KafkaEventConsumer} {b : PipelineAction} (hc : g.processes i = some c)
    (hb : b.ofWorker = true) {y : Settlement} (hy : y ∈ c.settlements b) : g.Settles (.worker i b) y := by
  unfold KafkaEventConsumer.settlements at hy
  cases b with
  | execute w reply =>
    dsimp only at hy
    split at hy
    · next item pc stop hw =>
      have hcallee {called : Callee} (h : Worker.callee c.configuration.retry ⟨.running item pc, stop⟩ = some called) :
          g.callee i w = some called := by
        refine callee_some.mpr ⟨c, hc, ?_⟩
        unfold KafkaEventConsumer.callee
        rw [hw, Option.bind_some]
        exact h
      split at hy
      · next events reg pc' hstep =>
        cases reply with
        | none =>
          rw [settlements_unanswered hstep] at hy
          cases hy
        | handler r =>
          cases pc with
          | handling attempt =>
            obtain ⟨rfl, -⟩ := Prod.mk.inj (Option.some.inj hstep)
            cases r with
            | returned handled =>
              cases handled with
              | true =>
                rw [List.mem_singleton.mp hy]
                exact .handled rfl (hcallee rfl)
              | false => cases hy
            | threw => cases hy
          | _ => cases hstep
        | sink r =>
          cases pc with
          | sending =>
            obtain ⟨rfl, -⟩ := Prod.mk.inj (Option.some.inj hstep)
            cases r with
            | returned sent =>
              cases sent with
              | ok u =>
                rw [List.mem_singleton.mp hy]
                exact .deadLettered rfl (hcallee rfl)
              | error e => cases hy
            | threw => cases hy
          | _ => cases hstep
      · cases hy
    · cases hy
  | take w => cases hy
  | finish w => cases hy
  | exit w => cases hy
  | _ => cases hb

theorem step_keeps (h : g.step a = some g') (ha : ∀ r, a ≠ .produce r) :
    g'.log = g.log ∧ ∀ y ∈ g'.history, y ∈ g.history ∨ g.Settles a y := by
  cases a with
  | produce r =>
    exact absurd rfl (ha r)
  | loseOwner p =>
    obtain rfl := Option.some.inj h
    exact ⟨rfl, fun y hy => .inl hy⟩
  | spawn j configuration =>
    obtain ⟨-, rfl⟩ := spawn_some h
    exact ⟨rfl, fun y hy => .inl hy⟩
  | crash j =>
    obtain rfl := Option.some.inj h
    exact ⟨rfl, fun y hy => .inl hy⟩
  | requestStop j =>
    obtain ⟨c, -, rfl⟩ := requestStop_some h
    exact ⟨rfl, fun y hy => .inl hy⟩
  | assigned j ps =>
    obtain ⟨c, -, -, -, rfl⟩ := assigned_some h
    exact ⟨rfl, fun y hy => .inl hy⟩
  | revoked j ps =>
    obtain ⟨c, -, -, rfl⟩ := revoked_some h
    exact ⟨rfl, fun y hy => .inl hy⟩
  | polled j batch =>
    obtain ⟨c, -, -, -, rfl⟩ := polled_some h
    exact ⟨rfl, fun y hy => .inl hy⟩
  | kafkaError j =>
    obtain ⟨c, -, -, rfl⟩ := kafkaError_some h
    exact ⟨rfl, fun y hy => .inl hy⟩
  | proceed j due =>
    obtain ⟨c, c', settled, -, hproceed, rfl⟩ := proceed_some h
    refine ⟨rfl, ?_⟩
    intro y hy
    rcases List.mem_append.mp hy with hold | hnew
    · exact .inl hold
    · rcases KafkaEventConsumer.proceed_some hproceed with ⟨-, rfl, -⟩ | ⟨-, rfl, -⟩
      · cases hnew
      · exact .inr (settles_reader hnew)
  | committed j =>
    obtain ⟨c, positions, confirm, resume, -, -, -, rfl⟩ := committed_some h
    exact ⟨rfl, fun y hy => .inl hy⟩
  | commitFailed j applied =>
    obtain ⟨c, positions, confirm, resume, -, -, -, -, rfl⟩ := commitFailed_some h
    exact ⟨rfl, fun y hy => .inl hy⟩
  | worker j b =>
    obtain ⟨c, pipeline, hc, hb, -, rfl⟩ := worker_some h
    refine ⟨rfl, ?_⟩
    intro y hy
    rcases List.mem_append.mp hy with hold | hnew
    · exact .inl hold
    · exact .inr (settles_worker hc hb hnew)

theorem GroupSound.callee_fromLog (h : GroupSound g) {item : WorkItem} (hw : g.callee i w = some (.handler item)) :
    item.FromLog g.log := by
  obtain ⟨c, hc, hx⟩ := callee_some.mp hw
  obtain ⟨worker, hworker, hcallee⟩ := Option.bind_eq_some_iff.mp hx
  have hsound := (h.processes i c hc).pipeline.workers worker (List.mem_of_getElem? hworker)
  unfold Worker.callee at hcallee
  split at hcallee
  · next found attempt hstate =>
    obtain rfl := Callee.handler.inj (Option.some.inj hcallee)
    exact hsound.fromLog found _ hstate
  · cases hcallee
  · cases hcallee

end ConsumerGroup

namespace ServiceConsumer

variable {σ : Type} {handler : EventHandler σ} {s t : σ} {c c' : ServiceConsumer} {i w : ℕ}

theorem answer_log {reply : Reply} (h : c.answer i w reply = some c') : c'.group.log = c.group.log := by
  obtain ⟨group, hstep, rfl⟩ := Option.map_eq_some_iff.mp h
  exact (ConsumerGroup.step_keeps hstep (fun r hr => GroupAction.noConfusion hr)).1

theorem step_service {a : ConsumerAction} (h : c.step handler s a = some (t, c')) :
    c'.group.log = c.group.log ∧ (t = s ∨ ∃ i w item, c.group.callee i w = some (.handler item) ∧
      t = (handler.handle s item.payload item.metadata).1) := by
  have answered {reply : Reply} {j v : ℕ} (h : (c.answer j v reply).map (Prod.mk s) = some (t, c')) :
      c'.group.log = c.group.log ∧ (t = s ∨ ∃ i w item, c.group.callee i w = some (.handler item) ∧
        t = (handler.handle s item.payload item.metadata).1) := by
    obtain ⟨d, hanswer, he⟩ := Option.map_eq_some_iff.mp h
    obtain ⟨rfl, rfl⟩ := Prod.mk.inj he
    exact ⟨answer_log hanswer, .inl rfl⟩
  cases a with
  | group a =>
    simp only [step] at h
    split_ifs at h with ha
    obtain ⟨group, hstep, he⟩ := Option.map_eq_some_iff.mp h
    obtain ⟨rfl, rfl⟩ := Prod.mk.inj he
    refine ⟨(ConsumerGroup.step_keeps hstep ?_).1, .inl rfl⟩
    rintro r rfl
    cases ha
  | handle i w =>
    simp only [step, handleStep] at h
    split at h
    · next item hnone hcallee =>
      obtain ⟨rfl, rfl⟩ := Prod.mk.inj (Option.some.inj h)
      exact ⟨rfl, .inr ⟨i, w, item, hcallee, rfl⟩⟩
    · cases h
  | send i w =>
    obtain ⟨d, hsend, he⟩ := Option.map_eq_some_iff.mp h
    obtain ⟨rfl, rfl⟩ := Prod.mk.inj he
    unfold sendStep at hsend
    split at hsend
    · obtain rfl := Option.some.inj hsend
      exact ⟨rfl, .inl rfl⟩
    · cases hsend
  | broker f event =>
    obtain ⟨sink, -, he⟩ := Option.map_eq_some_iff.mp h
    obtain ⟨rfl, rfl⟩ := Prod.mk.inj he
    exact ⟨rfl, .inl rfl⟩
  | handled j w =>
    obtain ⟨n, -, h⟩ := Option.bind_eq_some_iff.mp h
    obtain ⟨r, -, h⟩ := Option.bind_eq_some_iff.mp h
    exact answered h
  | sent j w =>
    obtain ⟨f, -, h⟩ := Option.bind_eq_some_iff.mp h
    obtain ⟨r, -, h⟩ := Option.bind_eq_some_iff.mp h
    exact answered h
  | sendTimedOut j w =>
    obtain ⟨f, -, h⟩ := Option.bind_eq_some_iff.mp h
    split_ifs at h
    exact answered h
  | sendThrew j w =>
    obtain ⟨f, -, h⟩ := Option.bind_eq_some_iff.mp h
    exact answered h

end ServiceConsumer

end LiquidPetProject.Messaging
