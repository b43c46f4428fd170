import LiquidPetProject.ConsumerGroup
import LiquidPetProject.Transitions

namespace LiquidPetProject.Messaging

def GroupAction.actor : GroupAction → Option ℕ
  | .produce _ => none
  | .loseOwner _ => none
  | .spawn i _ => some i
  | .crash i => some i
  | .requestStop i => some i
  | .assigned i _ => some i
  | .revoked i _ => some i
  | .polled i _ => some i
  | .kafkaError i => some i
  | .proceed i _ => some i
  | .committed i => some i
  | .commitFailed i _ => some i
  | .worker i _ => some i

def observeProcess {ω : Type} (fresh : ω) (next : KafkaEventConsumer → ω → ω) (a : GroupAction) (g : ConsumerGroup)
    (records : ℕ → ω) : ℕ → ω :=
  match a.actor with
  | none => records
  | some i =>
    match g.processes i with
    | none => Function.update records i fresh
    | some c => Function.update records i (next c (records i))

section Records

variable {ω : Type} {fresh : ω} {next : KafkaEventConsumer → ω → ω} {a : GroupAction} {g : ConsumerGroup}
  {records : ℕ → ω} {i : ℕ}

theorem observeProcess_other (hi : a.actor ≠ some i) : observeProcess fresh next a g records i = records i := by
  cases hactor : a.actor with
  | none => simp only [observeProcess, hactor]
  | some j =>
    have hij : i ≠ j := by
      rintro rfl
      exact hi hactor
    cases hc : g.processes j with
    | none => simp only [observeProcess, hactor, hc, Function.update_of_ne hij]
    | some c => simp only [observeProcess, hactor, hc, Function.update_of_ne hij]

theorem observeProcess_self {c : KafkaEventConsumer} (hi : a.actor = some i) (hc : g.processes i = some c) :
    observeProcess fresh next a g records i = next c (records i) := by
  simp only [observeProcess, hi, hc, Function.update_self]

theorem observeProcess_fresh (hi : a.actor = some i) (hc : g.processes i = none) :
    observeProcess fresh next a g records i = fresh := by
  simp only [observeProcess, hi, hc, Function.update_self]

end Records

namespace KafkaEventConsumer

inductive LoopStep (c : KafkaEventConsumer) : KafkaEventConsumer → Prop
  | subscribed (hpc : c.pc = .subscribing) : LoopStep c { c with pc := .looping }
  | iterate (hpc : c.pc = .looping) (hstop : c.stopRequested = false) : LoopStep c { c with pc := .polling }
  | stop (hpc : c.pc = .looping) (hstop : c.stopRequested = true) : LoopStep c { c with
      pipeline := { c.pipeline with pool := c.pipeline.pool.close, reader := .stopping 0 }
      pc := .stopping }
  | skip (r : ConsumerRecord) (rest : List ConsumerRecord) (hpc : c.pc = .ingesting (r :: rest))
      (herror : r.error = true) : LoopStep c { c with pc := .ingesting rest }
  | ingest (r : ConsumerRecord) (rest : List ConsumerRecord) (hpc : c.pc = .ingesting (r :: rest))
      (herror : r.error = false) : LoopStep c { c with
      pipeline := c.pipeline.register r.incoming
      pc := .ingesting rest }
  | pump (hpc : c.pc = .ingesting []) : LoopStep c { c with
      pipeline := { c.pipeline with reader := .pumping }
      pc := .pumping }
  | pumped (hpc : c.pc = .pumping) : LoopStep c { c with pc := .backpressure c.pipeline.backlog.isEmpty }
  | paced (drained : Bool) (hpc : c.pc = .backpressure drained) : LoopStep c { c with
      paused := !drained
      pc := .commitReady }
  | notDue (hpc : c.pc = .commitReady) : LoopStep c { c with pc := .looping }
  | due (hpc : c.pc = .commitReady) : LoopStep c { c with
      pc := commitOffsets c.pipeline.registry.commitCandidates true .looping }
  | revoked (positions : List CommitPosition) (resume : ConsumerPc) (hpc : c.pc = .revoking positions resume) :
      LoopStep c { c with pc := commitOffsets positions false resume }
  | confirm (position : CommitPosition) (rest : List CommitPosition) (resume : ConsumerPc)
      (hpc : c.pc = .confirming (position :: rest) resume) : LoopStep c { c with
      pipeline := { c.pipeline with registry := (c.pipeline.registry.confirmCommit position).2 }
      pc := .confirming rest resume }
  | confirmed (resume : ConsumerPc) (hpc : c.pc = .confirming [] resume) : LoopStep c { c with pc := resume }
  | retry (hpc : c.pc = .backoff) : LoopStep c { c with pc := .looping }
  | stopped (hpc : c.pc = .stopping) : LoopStep c { c with pc := .finalCommit }
  | finalCommit (hpc : c.pc = .finalCommit) : LoopStep c { c with
      pc := commitOffsets c.pipeline.registry.commitCandidates true .closing }

theorem callPipeline_some {c c' : KafkaEventConsumer} {a : PipelineAction} {pc : ConsumerPc}
    {settled : List Settlement} (h : c.callPipeline a pc = some (settled, c')) :
    ∃ pipeline, c.pipeline.step c.configuration a = some pipeline ∧ settled = c.settlements a ∧
      c' = { c with pipeline := pipeline, pc := pc } := by
  obtain ⟨⟨settled', c₁⟩, hc₁, he⟩ := Option.map_eq_some_iff.mp h
  obtain ⟨rfl, rfl⟩ := Prod.mk.inj he
  obtain ⟨pipeline, hp, he'⟩ := Option.map_eq_some_iff.mp hc₁
  obtain ⟨rfl, rfl⟩ := Prod.mk.inj he'
  exact ⟨pipeline, hp, rfl, rfl⟩

theorem runLoop_some {c c' : KafkaEventConsumer} {due : Bool} {settled : List Settlement}
    (h : c.runLoop due = some (settled, c')) : settled = [] ∧ c.LoopStep c' := by
  unfold runLoop at h
  cases hpc : c.pc with
  | subscribing =>
    simp only [hpc] at h
    obtain ⟨rfl, rfl⟩ := Prod.mk.inj (Option.some.inj h)
    exact ⟨rfl, .subscribed hpc⟩
  | looping =>
    simp only [hpc] at h
    split_ifs at h with hstop
    · obtain ⟨pipeline, hp, rfl, rfl⟩ := callPipeline_some h
      simp only [ConsumerPipeline.step] at hp
      split_ifs at hp
      obtain rfl := Option.some.inj hp
      exact ⟨rfl, .stop hpc hstop⟩
    · obtain ⟨rfl, rfl⟩ := Prod.mk.inj (Option.some.inj h)
      exact ⟨rfl, .iterate hpc (Bool.not_eq_true _ ▸ hstop)⟩
  | polling =>
    simp only [hpc] at h
    cases h
  | ingesting batch =>
    cases batch with
    | nil =>
      simp only [hpc] at h
      obtain ⟨pipeline, hp, rfl, rfl⟩ := callPipeline_some h
      simp only [ConsumerPipeline.step] at hp
      split_ifs at hp
      obtain rfl := Option.some.inj hp
      exact ⟨rfl, .pump hpc⟩
    | cons r rest =>
      simp only [hpc] at h
      split_ifs at h with herror
      · obtain ⟨rfl, rfl⟩ := Prod.mk.inj (Option.some.inj h)
        exact ⟨rfl, .skip r rest hpc herror⟩
      · obtain ⟨pipeline, hp, rfl, rfl⟩ := callPipeline_some h
        simp only [ConsumerPipeline.step] at hp
        split_ifs at hp
        obtain rfl := Option.some.inj hp
        exact ⟨rfl, .ingest r rest hpc (Bool.not_eq_true _ ▸ herror)⟩
  | pumping =>
    simp only [hpc] at h
    obtain ⟨rfl, rfl⟩ := Prod.mk.inj (Option.some.inj h)
    exact ⟨rfl, .pumped hpc⟩
  | backpressure drained =>
    simp only [hpc] at h
    obtain ⟨rfl, rfl⟩ := Prod.mk.inj (Option.some.inj h)
    exact ⟨rfl, .paced drained hpc⟩
  | commitReady =>
    simp only [hpc] at h
    split_ifs at h
    · obtain ⟨rfl, rfl⟩ := Prod.mk.inj (Option.some.inj h)
      exact ⟨rfl, .due hpc⟩
    · obtain ⟨rfl, rfl⟩ := Prod.mk.inj (Option.some.inj h)
      exact ⟨rfl, .notDue hpc⟩
  | revoking positions resume =>
    simp only [hpc] at h
    obtain ⟨rfl, rfl⟩ := Prod.mk.inj (Option.some.inj h)
    exact ⟨rfl, .revoked positions resume hpc⟩
  | committing positions confirm resume =>
    simp only [hpc] at h
    cases h
  | confirming positions resume =>
    cases positions with
    | nil =>
      simp only [hpc] at h
      obtain ⟨rfl, rfl⟩ := Prod.mk.inj (Option.some.inj h)
      exact ⟨rfl, .confirmed resume hpc⟩
    | cons position rest =>
      simp only [hpc] at h
      obtain ⟨pipeline, hp, rfl, rfl⟩ := callPipeline_some h
      simp only [ConsumerPipeline.step] at hp
      split_ifs at hp
      obtain rfl := Option.some.inj hp
      exact ⟨rfl, .confirm position rest resume hpc⟩
  | backoff =>
    simp only [hpc] at h
    obtain ⟨rfl, rfl⟩ := Prod.mk.inj (Option.some.inj h)
    exact ⟨rfl, .retry hpc⟩
  | stopping =>
    simp only [hpc] at h
    obtain ⟨rfl, rfl⟩ := Prod.mk.inj (Option.some.inj h)
    exact ⟨rfl, .stopped hpc⟩
  | finalCommit =>
    simp only [hpc] at h
    obtain ⟨rfl, rfl⟩ := Prod.mk.inj (Option.some.inj h)
    exact ⟨rfl, .finalCommit hpc⟩
  | closing =>
    simp only [hpc] at h
    cases h

theorem pipelineStep_some {c c' : KafkaEventConsumer} {a : PipelineAction} {settled : List Settlement}
    (h : c.pipelineStep a = some (settled, c')) :
    ∃ pipeline, c.pipeline.step c.configuration a = some pipeline ∧ settled = c.settlements a ∧
      c' = { c with pipeline := pipeline } := by
  obtain ⟨pipeline, hp, he⟩ := Option.map_eq_some_iff.mp h
  obtain ⟨rfl, rfl⟩ := Prod.mk.inj he
  exact ⟨pipeline, hp, rfl, rfl⟩

theorem proceed_some {c c' : KafkaEventConsumer} {due : Bool} {settled : List Settlement}
    (h : c.proceed due = some (settled, c')) :
    c.pipeline.reader = .idle ∧ settled = [] ∧ c.LoopStep c' ∨
      c.pipeline.reader ≠ .idle ∧ settled = c.settlements .reader ∧
        ∃ pipeline, c.pipeline.readerStep = some pipeline ∧ c' = { c with pipeline := pipeline } := by
  unfold proceed at h
  split_ifs at h with hidle
  · exact .inl ⟨hidle, runLoop_some h⟩
  · obtain ⟨pipeline, hp, hsettled, rfl⟩ := pipelineStep_some h
    exact .inr ⟨hidle, hsettled, pipeline, hp, rfl⟩

theorem kafkaError_some {c c' : KafkaEventConsumer} (h : c.kafkaError = some c') :
    ((c.pc = .polling ∧ c.pipeline.reader = .idle) ∨ ∃ drained, c.pc = .backpressure drained) ∧
      c' = { c with pc := .backoff } := by
  unfold kafkaError at h
  split at h
  · next hpc =>
    split_ifs at h with hidle
    exact ⟨.inl ⟨hpc, hidle⟩, (Option.some.inj h).symm⟩
  · next drained hpc => exact ⟨.inr ⟨drained, hpc⟩, (Option.some.inj h).symm⟩
  · cases h

theorem receive_some {c c' : KafkaEventConsumer} {batch : List ConsumerRecord} {position : PartitionKey → ℤ}
    (h : c.receive batch position = some c') :
    c.pc = .polling ∧ c.pipeline.reader = .idle ∧ c' = { c with position := position, pc := .ingesting batch } := by
  unfold receive at h
  split at h
  · next hpc =>
    split_ifs at h with hidle
    exact ⟨hpc, hidle, (Option.some.inj h).symm⟩
  · cases h

theorem inCallback_iff {c : KafkaEventConsumer} :
    c.inCallback = true ↔ c.pipeline.reader = .idle ∧ c.pc.runsCallbacks = true := by
  unfold inCallback
  rw [Bool.and_eq_true, decide_eq_true_eq]

end KafkaEventConsumer

namespace ConsumerGroup

variable {g g' : ConsumerGroup} {i j : ℕ}

@[simp] theorem setProcess_self (g : ConsumerGroup) (i : ℕ) (c : KafkaEventConsumer) :
    (g.setProcess i c).processes i = some c := Function.update_self ..

theorem setProcess_other (g : ConsumerGroup) (c : KafkaEventConsumer) (h : j ≠ i) :
    (g.setProcess i c).processes j = g.processes j := Function.update_of_ne h ..

theorem assigned_some {ps : List PartitionKey} (h : g.step (.assigned i ps) = some g') :
    ∃ c, g.processes i = some c ∧ c.inCallback = true ∧ (∀ p ∈ ps, g.owner p = none ∨ g.owner p = some i) ∧
      g' = { g.setProcess i { c with
          pipeline := { c.pipeline with registry := c.pipeline.registry.assign ps }
          assignment := c.assignment ++ ps
          position := fun p => if p ∈ ps then g.startOffset p else c.position p } with
        owner := fun p => if p ∈ ps then some i else g.owner p } := by
  obtain ⟨c, hc, hnext⟩ := Option.bind_eq_some_iff.mp h
  unfold assign at hnext
  split_ifs at hnext with hguard
  rw [Bool.and_eq_true, List.all_eq_true] at hguard
  obtain ⟨pipeline, hp, rfl⟩ := Option.map_eq_some_iff.mp hnext
  simp only [ConsumerPipeline.step] at hp
  split_ifs at hp
  obtain rfl := Option.some.inj hp
  refine ⟨c, hc, hguard.1, ?_, rfl⟩
  intro p hmem
  simpa using hguard.2 p hmem

theorem revoked_some {ps : List PartitionKey} (h : g.step (.revoked i ps) = some g') :
    ∃ c, g.processes i = some c ∧ c.inCallback = true ∧
      g' = g.setProcess i { c with
        pipeline := { c.pipeline with registry := (c.pipeline.registry.revoke ps).2, reader := .revoking ps }
        assignment := c.assignment.filter (fun p => p ∉ ps)
        pc := .revoking (c.pipeline.registry.revoke ps).1 c.pc } := by
  obtain ⟨c, hc, hnext⟩ := Option.bind_eq_some_iff.mp h
  unfold revoke at hnext
  split_ifs at hnext with hguard
  obtain ⟨pipeline, hp, rfl⟩ := Option.map_eq_some_iff.mp hnext
  simp only [ConsumerPipeline.step] at hp
  split_ifs at hp
  obtain rfl := Option.some.inj hp
  exact ⟨c, hc, hguard, rfl⟩

theorem polled_some {batch : List ConsumerRecord} (h : g.step (.polled i batch) = some g') :
    ∃ c, g.processes i = some c ∧ c.pc = .polling ∧ c.pipeline.reader = .idle ∧
      g' = g.setProcess i { c with position := positionAfter c batch, pc := .ingesting batch } := by
  obtain ⟨c, hc, hnext⟩ := Option.bind_eq_some_iff.mp h
  split_ifs at hnext
  obtain ⟨c', hc', rfl⟩ := Option.map_eq_some_iff.mp hnext
  obtain ⟨hpc, hidle, rfl⟩ := KafkaEventConsumer.receive_some hc'
  exact ⟨c, hc, hpc, hidle, rfl⟩

theorem kafkaError_some (h : g.step (.kafkaError i) = some g') :
    ∃ c, g.processes i = some c ∧
      ((c.pc = .polling ∧ c.pipeline.reader = .idle) ∨ ∃ drained, c.pc = .backpressure drained) ∧
      g' = g.setProcess i { c with pc := .backoff } := by
  obtain ⟨c, hc, hnext⟩ := Option.bind_eq_some_iff.mp h
  obtain ⟨c', hc', rfl⟩ := Option.map_eq_some_iff.mp hnext
  obtain ⟨hpc, rfl⟩ := KafkaEventConsumer.kafkaError_some hc'
  exact ⟨c, hc, hpc, rfl⟩

theorem proceed_some {due : Bool} (h : g.step (.proceed i due) = some g') :
    ∃ c c' settled, g.processes i = some c ∧ c.proceed due = some (settled, c') ∧
      g' = { g.setProcess i c' with history := g.history ++ settled } := by
  obtain ⟨c, hc, hnext⟩ := Option.bind_eq_some_iff.mp h
  obtain ⟨⟨settled, c'⟩, hp, rfl⟩ := Option.map_eq_some_iff.mp hnext
  exact ⟨c, c', settled, hc, hp, rfl⟩

theorem worker_some {a : PipelineAction} (h : g.step (.worker i a) = some g') :
    ∃ c pipeline, g.processes i = some c ∧ a.ofWorker = true ∧ c.pipeline.step c.configuration a = some pipeline ∧
      g' = { g.setProcess i { c with pipeline := pipeline } with history := g.history ++ c.settlements a } := by
  obtain ⟨c, hc, hnext⟩ := Option.bind_eq_some_iff.mp h
  split_ifs at hnext with ha
  obtain ⟨⟨settled, c'⟩, hp, rfl⟩ := Option.map_eq_some_iff.mp hnext
  obtain ⟨pipeline, hpipeline, rfl, rfl⟩ := KafkaEventConsumer.pipelineStep_some hp
  exact ⟨c, pipeline, hc, ha, hpipeline, rfl⟩

theorem committed_some (h : g.step (.committed i) = some g') :
    ∃ c positions confirm resume, g.processes i = some c ∧ c.pc = .committing positions confirm resume ∧
      g.ownsAll i positions = true ∧
      g' = (g.applyCommit positions).setProcess i
        { c with pc := if confirm then .confirming positions resume else resume } := by
  obtain ⟨c, hc, hnext⟩ := Option.bind_eq_some_iff.mp h
  split at hnext
  · next positions confirm resume hpc =>
    by_cases howns : g.ownsAll i positions = true
    · rw [if_pos howns] at hnext
      exact ⟨c, positions, confirm, resume, hc, hpc, howns, (Option.some.inj hnext).symm⟩
    · rw [if_neg howns] at hnext
      cases hnext
  · cases hnext

theorem commitFailed_some {applied : List CommitPosition} (h : g.step (.commitFailed i applied) = some g') :
    ∃ c positions confirm resume, g.processes i = some c ∧ c.pc = .committing positions confirm resume ∧
      (∀ x ∈ applied, x ∈ positions) ∧ g.ownsAll i applied = true ∧
      g' = (g.applyCommit applied).setProcess i { c with pc := resume } := by
  obtain ⟨c, hc, hnext⟩ := Option.bind_eq_some_iff.mp h
  split at hnext
  · next positions confirm resume hpc =>
    split_ifs at hnext with hguard
    rw [Bool.and_eq_true, List.all_eq_true] at hguard
    refine ⟨c, positions, confirm, resume, hc, hpc, ?_, hguard.2, (Option.some.inj hnext).symm⟩
    intro x hx
    exact of_decide_eq_true (hguard.1 x hx)
  · cases hnext

theorem requestStop_some (h : g.step (.requestStop i) = some g') :
    ∃ c, g.processes i = some c ∧ g' = g.setProcess i { c with stopRequested := true } := by
  obtain ⟨c, hc, rfl⟩ := Option.map_eq_some_iff.mp h
  exact ⟨c, hc, rfl⟩

theorem spawn_some {configuration : PipelineConfiguration} (h : g.step (.spawn i configuration) = some g') :
    g.processes i = none ∧ g' = g.setProcess i (.create configuration) := by
  simp only [step] at h
  split_ifs at h with hnone
  exact ⟨Option.isNone_iff_eq_none.mp hnone, (Option.some.inj h).symm⟩

theorem produce_some {r : ConsumerRecord} (h : g.step (.produce r) = some g') :
    g' = { g with log := Function.update g.log r.partition (g.log r.partition ++ [r]) } := by
  simp only [step] at h
  split_ifs at h
  exact (Option.some.inj h).symm

theorem worker_frame {config : PipelineConfiguration} {s s' : ConsumerPipeline} {a : PipelineAction}
    (ha : a.ofWorker = true) (h : s.step config a = some s') : s'.reader = s.reader ∧ s'.backlog = s.backlog := by
  cases a with
  | take i =>
    obtain ⟨pool, -, rfl⟩ := Option.map_eq_some_iff.mp h
    exact ⟨rfl, rfl⟩
  | execute i reply =>
    simp only [ConsumerPipeline.step, ConsumerPipeline.executeStep] at h
    split at h
    · obtain ⟨⟨events, reg, pc⟩, -, rfl⟩ := Option.map_eq_some_iff.mp h
      exact ⟨rfl, rfl⟩
    · cases h
  | finish i =>
    obtain ⟨pool, -, rfl⟩ := Option.map_eq_some_iff.mp h
    exact ⟨rfl, rfl⟩
  | exit i =>
    obtain ⟨pool, -, rfl⟩ := Option.map_eq_some_iff.mp h
    exact ⟨rfl, rfl⟩
  | _ => cases ha

theorem step_other {a : GroupAction} (h : g.step a = some g') (hj : a.actor ≠ some j) :
    g'.processes j = g.processes j := by
  cases a with
  | produce r =>
    rw [produce_some h]
  | loseOwner p =>
    obtain rfl := Option.some.inj h
    rfl
  | spawn i configuration =>
    obtain ⟨-, rfl⟩ := spawn_some h
    exact setProcess_other g _ (fun he => hj (congrArg some he.symm))
  | crash i =>
    obtain rfl := Option.some.inj h
    exact Function.update_of_ne (fun he => hj (congrArg some he.symm)) ..
  | requestStop i =>
    obtain ⟨c, -, rfl⟩ := requestStop_some h
    exact setProcess_other g _ (fun he => hj (congrArg some he.symm))
  | assigned i ps =>
    obtain ⟨c, -, -, -, rfl⟩ := assigned_some h
    exact setProcess_other g _ (fun he => hj (congrArg some he.symm))
  | revoked i ps =>
    obtain ⟨c, -, -, rfl⟩ := revoked_some h
    exact setProcess_other g _ (fun he => hj (congrArg some he.symm))
  | polled i batch =>
    obtain ⟨c, -, -, -, rfl⟩ := polled_some h
    exact setProcess_other g _ (fun he => hj (congrArg some he.symm))
  | kafkaError i =>
    obtain ⟨c, -, -, rfl⟩ := kafkaError_some h
    exact setProcess_other g _ (fun he => hj (congrArg some he.symm))
  | proceed i due =>
    obtain ⟨c, c', settled, -, -, rfl⟩ := proceed_some h
    exact setProcess_other g _ (fun he => hj (congrArg some he.symm))
  | committed i =>
    obtain ⟨c, positions, confirm, resume, -, -, -, rfl⟩ := committed_some h
    exact setProcess_other (g.applyCommit positions) _ (fun he => hj (congrArg some he.symm))
  | commitFailed i applied =>
    obtain ⟨c, positions, confirm, resume, -, -, -, -, rfl⟩ := commitFailed_some h
    exact setProcess_other (g.applyCommit applied) _ (fun he => hj (congrArg some he.symm))
  | worker i a =>
    obtain ⟨c, pipeline, -, -, -, rfl⟩ := worker_some h
    exact setProcess_other g _ (fun he => hj (congrArg some he.symm))

theorem step_actor {a : GroupAction} (h : g.step a = some g') (hi : a.actor = some i) :
    (∃ c, g.processes i = some c) ∨ (∃ configuration, a = .spawn i configuration) ∨ a = .crash i := by
  cases a with
  | produce r => cases hi
  | loseOwner p => cases hi
  | spawn j configuration =>
    obtain rfl := Option.some.inj hi
    exact .inr (.inl ⟨configuration, rfl⟩)
  | crash j =>
    obtain rfl := Option.some.inj hi
    exact .inr (.inr rfl)
  | requestStop j =>
    obtain rfl := Option.some.inj hi
    obtain ⟨c, hc, -⟩ := requestStop_some h
    exact .inl ⟨c, hc⟩
  | _ =>
    obtain rfl := Option.some.inj hi
    obtain ⟨c, hc, -⟩ := Option.bind_eq_some_iff.mp h
    exact .inl ⟨c, hc⟩

end ConsumerGroup

end LiquidPetProject.Messaging
