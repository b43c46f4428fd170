import LiquidPetProject.AtLeastOnce
import LiquidPetProject.GroupSteps

namespace LiquidPetProject.Messaging

open Transitions

/-- The partitions that the Kafka client of a process has paused, and the answer of `pump` that
`applyBackpressure` has returned for in the iteration at hand. -/
structure Backpressure where
  isPaused : PartitionKey → Bool := fun _ => false
  applied : Option Bool := none

def ConsumerPc.endsIteration : ConsumerPc → Bool
  | .commitReady => true
  | .committing _ _ .looping => true
  | .confirming _ .looping => true
  | .looping => true
  | _ => false

namespace KafkaEventConsumer

def pause (c : KafkaEventConsumer) (isPaused : PartitionKey → Bool) : PartitionKey → Bool :=
  fun p => p ∈ c.assignment || isPaused p

def resume (c : KafkaEventConsumer) (isPaused : PartitionKey → Bool) : PartitionKey → Bool :=
  fun p => p ∉ c.assignment && isPaused p

def applyBackpressure (c : KafkaEventConsumer) (drained : Bool) (isPaused : PartitionKey → Bool) :
    PartitionKey → Bool :=
  if !drained then c.pause isPaused
  else if c.paused then c.resume isPaused
  else isPaused

/-- A `pause` that throws has paused nothing, and a `resume` that throws has resumed some. -/
def throwBackpressure (c : KafkaEventConsumer) (drained : Bool) (resumed : List PartitionKey)
    (isPaused : PartitionKey → Bool) : PartitionKey → Bool :=
  if drained && c.paused then fun p => !(p ∈ c.assignment && p ∈ resumed) && isPaused p
  else isPaused

def backpressureAfter (c : KafkaEventConsumer) (resumed : List PartitionKey) (b : Backpressure) :
    GroupAction → Backpressure
  | .assigned _ ps => { b with isPaused := fun p => p ∉ ps && b.isPaused p }
  | .proceed _ _ =>
    if c.pipeline.reader = .idle then
      match c.pc with
      | .looping => { b with applied := none }
      | .backpressure drained => ⟨c.applyBackpressure drained b.isPaused, some drained⟩
      | _ => b
    else b
  | .kafkaError _ =>
    match c.pc with
    | .backpressure drained => { b with isPaused := c.throwBackpressure drained resumed b.isPaused }
    | _ => b
  | _ => b

end KafkaEventConsumer

namespace ConsumerGroup

abbrev PauseAction := GroupAction × List PartitionKey

def observePauses (g : ConsumerGroup) (x : PauseAction) : (ℕ → Backpressure) → ℕ → Backpressure :=
  observeProcess {} (fun c b => c.backpressureAfter x.2 b x.1) x.1 g

def pauseStep : ConsumerGroup × (ℕ → Backpressure) → PauseAction → Option (ConsumerGroup × (ℕ → Backpressure)) :=
  observed (fun g x => g.step x.1) observePauses

theorem run_pauses {actions : List PauseAction} {g : ConsumerGroup}
    (h : run (fun g (x : PauseAction) => g.step x.1) {} actions = some g) :
    ∃ pauses, run pauseStep ({}, fun _ => {}) actions = some (g, pauses) := run_observed h _

/-- The flag of the consumer covers what the client has paused, and the client agrees with the last answer of
`pump` as soon as `applyBackpressure` has returned. -/
structure Paced (c : KafkaEventConsumer) (b : Backpressure) : Prop where
  flagged : c.paused = false → ∀ p ∈ c.assignment, b.isPaused p = false
  drained : ∀ drained, c.pc = .backpressure drained →
    c.pipeline.reader = .idle ∧ drained = c.pipeline.backlog.isEmpty
  ending : b.applied ≠ none → c.pc.endsIteration = true ∧ c.pipeline.reader = .idle
  applied : ∀ drained, b.applied = some drained →
    drained = c.pipeline.backlog.isEmpty ∧ c.paused = !drained ∧ ∀ p ∈ c.assignment, b.isPaused p = !drained

section Moves

variable {c : KafkaEventConsumer} {b : Backpressure}

theorem Paced.pipeline (h : Paced c b) {s : ConsumerPipeline} (hreader : s.reader = c.pipeline.reader)
    (hbacklog : s.backlog = c.pipeline.backlog) : Paced { c with pipeline := s } b := by
  obtain ⟨hflagged, hdrained, hending, happlied⟩ := h
  refine ⟨hflagged, ?_, ?_, ?_⟩
  · simpa only [hreader, hbacklog] using hdrained
  · simpa only [hreader] using hending
  · simpa only [hbacklog] using happlied

theorem Paced.move (h : Paced c b) (hnone : b.applied = none) (s : ConsumerPipeline) {pc : ConsumerPc}
    (hpc : ∀ drained, pc ≠ .backpressure drained) : Paced { c with pipeline := s, pc := pc } b := by
  refine ⟨h.flagged, ?_, ?_, ?_⟩
  · intro drained hd
    exact absurd hd (hpc drained)
  · intro happlied
    exact absurd hnone happlied
  · intro drained happlied
    rw [hnone] at happlied
    cases happlied

theorem Paced.noAnswer (h : Paced c b) (hpc : c.pc.endsIteration = false) : b.applied = none := by
  by_contra happlied
  rw [(h.ending happlied).1] at hpc
  cases hpc

theorem Paced.turn (h : Paced c b) (reg : PartitionRegistry) {pc : ConsumerPc}
    (hends : c.pc.endsIteration = true → pc.endsIteration = true) (hpc : ∀ drained, pc ≠ .backpressure drained) :
    Paced { c with pipeline := { c.pipeline with registry := reg }, pc := pc } b := by
  by_cases hnone : b.applied = none
  · exact h.move hnone _ hpc
  · obtain ⟨hending, hidle⟩ := h.ending hnone
    refine ⟨h.flagged, ?_, ?_, h.applied⟩
    · intro drained hd
      exact absurd hd (hpc drained)
    · intro _
      exact ⟨hends hending, hidle⟩

theorem Paced.begin (h : Paced c b) : Paced c { b with applied := none } := by
  refine ⟨h.flagged, h.drained, ?_, ?_⟩
  · intro happlied
    exact absurd rfl happlied
  · intro drained happlied
    cases happlied

theorem applyBackpressure_assigned (hflagged : c.paused = false → ∀ p ∈ c.assignment, b.isPaused p = false)
    (drained : Bool) {p : PartitionKey} (hp : p ∈ c.assignment) :
    c.applyBackpressure drained b.isPaused p = !drained := by
  unfold KafkaEventConsumer.applyBackpressure
  cases drained with
  | false => simp [KafkaEventConsumer.pause, hp]
  | true =>
    cases hpaused : c.paused with
    | false => simpa using hflagged hpaused p hp
    | true => simp [KafkaEventConsumer.resume, hp]

theorem commitOffsets_endsIteration (positions : List CommitPosition) :
    (KafkaEventConsumer.commitOffsets positions true .looping).endsIteration = true := by
  unfold KafkaEventConsumer.commitOffsets
  split_ifs <;> rfl

theorem quiet_ne_backpressure {pc : ConsumerPc} (h : pc.quiet = true) (drained : Bool) : pc ≠ .backpressure drained := by
  rintro rfl
  cases h

theorem commitOffsets_ne_backpressure (positions : List CommitPosition) (confirm : Bool) {pc : ConsumerPc}
    (h : pc.quiet = true) (drained : Bool) :
    KafkaEventConsumer.commitOffsets positions confirm pc ≠ .backpressure drained := by
  unfold KafkaEventConsumer.commitOffsets
  split_ifs
  · exact quiet_ne_backpressure h drained
  · exact ConsumerPc.noConfusion

theorem backpressureAfter_proceed (hidle : c.pipeline.reader = .idle) (resumed : List PartitionKey) (i : ℕ) (due : Bool) :
    c.backpressureAfter resumed b (.proceed i due) =
      match c.pc with
      | .looping => { b with applied := none }
      | .backpressure drained => ⟨c.applyBackpressure drained b.isPaused, some drained⟩
      | _ => b := if_pos hidle

theorem paced_loop {c' : KafkaEventConsumer} (h : Paced c b) (hq : c.pc.resumesQuiet = true)
    (hidle : c.pipeline.reader = .idle) (hstep : c.LoopStep c') (resumed : List PartitionKey) (i : ℕ) (due : Bool) :
    Paced c' (c.backpressureAfter resumed b (.proceed i due)) := by
  rw [backpressureAfter_proceed hidle]
  cases hstep with
  | subscribed hpc =>
    rw [hpc]
    exact h.turn _ (fun _ => rfl) (fun _ => ConsumerPc.noConfusion)
  | iterate hpc =>
    rw [hpc]
    exact h.begin.move rfl _ (fun _ => ConsumerPc.noConfusion)
  | stop hpc =>
    rw [hpc]
    exact h.begin.move rfl _ (fun _ => ConsumerPc.noConfusion)
  | skip r rest hpc =>
    have hnone := h.noAnswer (by rw [hpc]; rfl)
    rw [hpc]
    exact h.move hnone _ (fun _ => ConsumerPc.noConfusion)
  | ingest r rest hpc =>
    have hnone := h.noAnswer (by rw [hpc]; rfl)
    rw [hpc]
    exact h.move hnone _ (fun _ => ConsumerPc.noConfusion)
  | pump hpc =>
    have hnone := h.noAnswer (by rw [hpc]; rfl)
    rw [hpc]
    exact h.move hnone _ (fun _ => ConsumerPc.noConfusion)
  | pumped hpc =>
    have hnone := h.noAnswer (by rw [hpc]; rfl)
    rw [hpc]
    refine ⟨h.flagged, ?_, ?_, ?_⟩
    · rintro drained ⟨rfl⟩
      exact ⟨hidle, rfl⟩
    · intro happlied
      exact absurd hnone happlied
    · exact h.applied
  | paced drained hpc =>
    have hempty := (h.drained drained hpc).2
    rw [hpc]
    change Paced _ ⟨c.applyBackpressure drained b.isPaused, some drained⟩
    refine ⟨?_, ?_, ?_, ?_⟩
    · intro hflag p hp
      exact (applyBackpressure_assigned h.flagged drained hp).trans hflag
    · intro other hother
      cases hother
    · intro _
      exact ⟨rfl, hidle⟩
    · rintro _ ⟨rfl⟩
      refine ⟨hempty, rfl, ?_⟩
      intro p hp
      exact applyBackpressure_assigned h.flagged drained hp
  | notDue hpc =>
    rw [hpc]
    exact h.turn _ (fun _ => rfl) (fun _ => ConsumerPc.noConfusion)
  | due hpc =>
    rw [hpc]
    exact h.turn _ (fun _ => commitOffsets_endsIteration _) (commitOffsets_ne_backpressure _ _ rfl)
  | revoked positions resume hpc =>
    have hnone := h.noAnswer (by rw [hpc]; rfl)
    rw [hpc] at hq ⊢
    exact h.move hnone _ (commitOffsets_ne_backpressure _ _ hq)
  | confirm position rest resume hpc =>
    have hends : c.pc.endsIteration = true → (ConsumerPc.confirming rest resume).endsIteration = true := by
      rw [hpc]
      cases resume <;> exact id
    rw [hpc]
    exact h.turn _ hends (fun _ => ConsumerPc.noConfusion)
  | confirmed resume hpc =>
    have hends : c.pc.endsIteration = true → resume.endsIteration = true := by
      rw [hpc]
      cases resume <;> first | exact fun _ => rfl | exact fun he => Bool.noConfusion he
    rw [hpc] at hq ⊢
    exact h.turn _ hends (quiet_ne_backpressure hq)
  | retry hpc =>
    rw [hpc]
    exact h.turn _ (fun _ => rfl) (fun _ => ConsumerPc.noConfusion)
  | stopped hpc =>
    have hnone := h.noAnswer (by rw [hpc]; rfl)
    rw [hpc]
    exact h.move hnone _ (fun _ => ConsumerPc.noConfusion)
  | finalCommit hpc =>
    have hnone := h.noAnswer (by rw [hpc]; rfl)
    rw [hpc]
    exact h.move hnone _ (commitOffsets_ne_backpressure _ _ rfl)

theorem paced_proceed {c' : KafkaEventConsumer} {settled : List Settlement} {due : Bool} (h : Paced c b)
    (hq : c.pc.resumesQuiet = true) (hstep : c.proceed due = some (settled, c')) (resumed : List PartitionKey) (i : ℕ) :
    Paced c' (c.backpressureAfter resumed b (.proceed i due)) := by
  rcases KafkaEventConsumer.proceed_some hstep with ⟨hidle, -, hloop⟩ | ⟨hbusy, -, pipeline, -, rfl⟩
  · exact paced_loop h hq hidle hloop resumed i due
  · have hsame : c.backpressureAfter resumed b (.proceed i due) = b := if_neg hbusy
    have hnone : b.applied = none := by
      by_contra happlied
      exact hbusy (h.ending happlied).2
    rw [hsame]
    apply h.move hnone
    intro drained hpc
    exact hbusy (h.drained drained hpc).1

theorem paced_kafkaError (h : Paced c b) (resumed : List PartitionKey) (i : ℕ)
    (hpc : (c.pc = .polling ∧ c.pipeline.reader = .idle) ∨ ∃ drained, c.pc = .backpressure drained) :
    Paced { c with pc := .backoff } (c.backpressureAfter resumed b (.kafkaError i)) := by
  unfold KafkaEventConsumer.backpressureAfter
  rcases hpc with ⟨hpc, -⟩ | ⟨drained, hpc⟩
  · have hnone := h.noAnswer (by rw [hpc]; rfl)
    simp only [hpc]
    exact h.move hnone _ (fun _ => ConsumerPc.noConfusion)
  · have hnone := h.noAnswer (by rw [hpc]; rfl)
    simp only [hpc]
    refine ⟨?_, ?_, ?_, ?_⟩
    · intro hflag p hp
      have hsame : c.throwBackpressure drained resumed b.isPaused = b.isPaused := by
        have hpaused : c.paused = false := hflag
        simp [KafkaEventConsumer.throwBackpressure, hpaused]
      rw [hsame]
      exact h.flagged hflag p hp
    · intro other hother
      cases hother
    · intro happlied
      exact absurd hnone happlied
    · intro other hother
      have hcontra : b.applied = some other := hother
      rw [hnone] at hcontra
      cases hcontra

theorem paced_assigned (h : Paced c b) (hcb : c.inCallback = true) (resumed : List PartitionKey) (i : ℕ)
    (ps : List PartitionKey) (reg : PartitionRegistry) (position : PartitionKey → ℤ) :
    Paced { c with
      pipeline := { c.pipeline with registry := reg }
      assignment := c.assignment ++ ps
      position := position } (c.backpressureAfter resumed b (.assigned i ps)) := by
  obtain ⟨hidle, hcalls⟩ := KafkaEventConsumer.inCallback_iff.mp hcb
  have hnone : b.applied = none := h.noAnswer (by cases hpc : c.pc <;> simp_all [ConsumerPc.runsCallbacks, ConsumerPc.endsIteration])
  refine ⟨?_, h.drained, ?_, ?_⟩
  · intro hflag p hp
    by_cases hps : p ∈ ps
    · simp [KafkaEventConsumer.backpressureAfter, hps]
    · have hold : p ∈ c.assignment := (List.mem_append.mp hp).resolve_right hps
      simp [KafkaEventConsumer.backpressureAfter, hps, h.flagged hflag p hold]
  · intro happlied
    exact absurd hnone happlied
  · intro drained happlied
    have hcontra : b.applied = some drained := happlied
    rw [hnone] at hcontra
    cases hcontra

theorem paced_revoked (h : Paced c b) (hcb : c.inCallback = true) (ps : List PartitionKey)
    (s : ConsumerPipeline) (positions : List CommitPosition) :
    Paced { c with
      pipeline := s
      assignment := c.assignment.filter (fun p => p ∉ ps)
      pc := .revoking positions c.pc } b := by
  obtain ⟨hidle, hcalls⟩ := KafkaEventConsumer.inCallback_iff.mp hcb
  have hnone : b.applied = none := h.noAnswer (by cases hpc : c.pc <;> simp_all [ConsumerPc.runsCallbacks, ConsumerPc.endsIteration])
  have hfewer : Paced { c with assignment := c.assignment.filter (fun p => p ∉ ps) } b := by
    refine ⟨?_, h.drained, h.ending, ?_⟩
    · intro hflag p hp
      exact h.flagged hflag p (List.mem_of_mem_filter hp)
    · intro drained happlied
      rw [hnone] at happlied
      cases happlied
  exact hfewer.move hnone s (fun _ => ConsumerPc.noConfusion)

theorem paced_answered {positions : List CommitPosition} {confirm : Bool} {resume : ConsumerPc} (h : Paced c b)
    (hpc : c.pc = .committing positions confirm resume) (hq : resume.quiet = true) :
    Paced { c with pc := resume } b ∧
      Paced { c with pc := if confirm then .confirming positions resume else resume } b := by
  have hresume : c.pc.endsIteration = true → resume.endsIteration = true := by
    rw [hpc]
    cases confirm <;> cases resume <;> first | exact fun _ => rfl | exact fun he => Bool.noConfusion he
  refine ⟨h.turn c.pipeline.registry hresume (quiet_ne_backpressure hq), ?_⟩
  cases confirm with
  | false => exact h.turn c.pipeline.registry hresume (quiet_ne_backpressure hq)
  | true =>
    have hconfirm : c.pc.endsIteration = true → (ConsumerPc.confirming positions resume).endsIteration = true := by
      rw [hpc]
      cases resume <;> exact id
    exact h.turn c.pipeline.registry hconfirm (fun _ => ConsumerPc.noConfusion)

end Moves

section Runs

variable {s t : ConsumerGroup × (ℕ → Backpressure)} {x : PauseAction}

theorem observePauses_self {g : ConsumerGroup} {bs : ℕ → Backpressure} {i : ℕ} {c : KafkaEventConsumer}
    (hi : x.1.actor = some i) (hc : g.processes i = some c) :
    observePauses g x bs i = c.backpressureAfter x.2 (bs i) x.1 := observeProcess_self hi hc

theorem paced_create (configuration : PipelineConfiguration) : Paced (.create configuration) {} := by
  refine ⟨?_, ?_, ?_, ?_⟩
  · intro _ p _
    rfl
  · intro drained hpc
    cases hpc
  · intro happlied
    exact absurd rfl happlied
  · intro drained happlied
    cases happlied

theorem paced_step (hg : GroupSound s.1) (h : ∀ i c, s.1.processes i = some c → Paced c (s.2 i))
    (hstep : pauseStep s x = some t) : ∀ i c, t.1.processes i = some c → Paced c (t.2 i) := by
  obtain ⟨hgroup, hpauses⟩ := observed_some hstep
  intro j d hd
  rw [hpauses]
  by_cases hj : x.1.actor = some j
  · obtain ⟨a, resumed⟩ := x
    cases a with
    | produce r => cases hj
    | loseOwner p => cases hj
    | spawn i configuration =>
      obtain rfl := Option.some.inj hj
      obtain ⟨hnone, ht⟩ := spawn_some hgroup
      rw [ht, setProcess_self] at hd
      obtain rfl := Option.some.inj hd
      have hfresh : observePauses s.1 (.spawn i configuration, resumed) s.2 i = {} := observeProcess_fresh rfl hnone
      rw [hfresh]
      exact paced_create configuration
    | crash i =>
      obtain rfl := Option.some.inj hj
      have ht : t.1 = { s.1 with processes := Function.update s.1.processes i none } := (Option.some.inj hgroup).symm
      have hgone : t.1.processes i = none := by
        rw [ht]
        exact Function.update_self ..
      rw [hgone] at hd
      cases hd
    | requestStop i =>
      obtain rfl := Option.some.inj hj
      obtain ⟨c, hc, ht⟩ := requestStop_some hgroup
      rw [ht, setProcess_self] at hd
      obtain rfl := Option.some.inj hd
      rw [observePauses_self rfl hc]
      obtain ⟨hflagged, hdrained, hending, happlied⟩ := h i c hc
      exact ⟨hflagged, hdrained, hending, happlied⟩
    | assigned i ps =>
      obtain rfl := Option.some.inj hj
      obtain ⟨c, hc, hcb, -, ht⟩ := assigned_some hgroup
      rw [ht] at hd
      obtain rfl := Option.some.inj ((setProcess_self s.1 i _).symm.trans hd)
      rw [observePauses_self rfl hc]
      exact paced_assigned (h i c hc) hcb resumed i ps _ _
    | revoked i ps =>
      obtain rfl := Option.some.inj hj
      obtain ⟨c, hc, hcb, ht⟩ := revoked_some hgroup
      rw [ht, setProcess_self] at hd
      obtain rfl := Option.some.inj hd
      rw [observePauses_self rfl hc]
      exact paced_revoked (h i c hc) hcb ps _ _
    | polled i batch =>
      obtain rfl := Option.some.inj hj
      obtain ⟨c, hc, hpc, -, ht⟩ := polled_some hgroup
      rw [ht, setProcess_self] at hd
      obtain rfl := Option.some.inj hd
      rw [observePauses_self rfl hc]
      have hpaced := h i c hc
      have hnone := hpaced.noAnswer (by rw [hpc]; rfl)
      have hmoved : Paced { c with pc := .ingesting batch } (s.2 i) :=
        hpaced.move hnone c.pipeline (fun _ => ConsumerPc.noConfusion)
      exact ⟨hmoved.flagged, hmoved.drained, hmoved.ending, hmoved.applied⟩
    | kafkaError i =>
      obtain rfl := Option.some.inj hj
      obtain ⟨c, hc, hpc, ht⟩ := kafkaError_some hgroup
      rw [ht, setProcess_self] at hd
      obtain rfl := Option.some.inj hd
      rw [observePauses_self rfl hc]
      exact paced_kafkaError (h i c hc) resumed i hpc
    | proceed i due =>
      obtain rfl := Option.some.inj hj
      obtain ⟨c, c', settled, hc, hproceed, ht⟩ := proceed_some hgroup
      rw [ht] at hd
      obtain rfl := Option.some.inj ((setProcess_self s.1 i _).symm.trans hd)
      rw [observePauses_self rfl hc]
      exact paced_proceed (h i c hc) (hg.processes i c hc).resume hproceed resumed i
    | committed i =>
      obtain rfl := Option.some.inj hj
      obtain ⟨c, positions, confirm, resume, hc, hpc, -, ht⟩ := committed_some hgroup
      rw [ht, setProcess_self] at hd
      obtain rfl := Option.some.inj hd
      rw [observePauses_self rfl hc]
      have hq := (hg.processes i c hc).resume
      rw [hpc] at hq
      exact (paced_answered (h i c hc) hpc hq).2
    | commitFailed i applied =>
      obtain rfl := Option.some.inj hj
      obtain ⟨c, positions, confirm, resume, hc, hpc, -, -, ht⟩ := commitFailed_some hgroup
      rw [ht, setProcess_self] at hd
      obtain rfl := Option.some.inj hd
      rw [observePauses_self rfl hc]
      have hq := (hg.processes i c hc).resume
      rw [hpc] at hq
      exact (paced_answered (h i c hc) hpc hq).1
    | worker i a =>
      obtain rfl := Option.some.inj hj
      obtain ⟨c, pipeline, hc, ha, hp, ht⟩ := worker_some hgroup
      rw [ht] at hd
      obtain rfl := Option.some.inj ((setProcess_self s.1 i _).symm.trans hd)
      rw [observePauses_self rfl hc]
      obtain ⟨hreader, hbacklog⟩ := worker_frame ha hp
      exact (h i c hc).pipeline hreader hbacklog
  · have hsame : observePauses s.1 x s.2 j = s.2 j := observeProcess_other hj
    rw [step_other hgroup hj] at hd
    rw [hsame]
    exact h j d hd

theorem paced_run {actions : List PauseAction} (h : run pauseStep ({}, fun _ => {}) actions = some s) :
    GroupSound s.1 ∧ ∀ i c, s.1.processes i = some c → Paced c (s.2 i) := by
  refine run_invariant (I := fun u : ConsumerGroup × (ℕ → Backpressure) =>
    GroupSound u.1 ∧ ∀ i c, u.1.processes i = some c → Paced c (u.2 i)) ?_ ?_ h
  · rintro u x v ⟨hg, hpaced⟩ hstep
    exact ⟨(hg.step (observed_some hstep).1).1, paced_step hg hpaced hstep⟩
  · exact ⟨GroupSound.empty, fun i c hc => by cases hc⟩

end Runs

def quietIteration (i : ℕ) : List PauseAction :=
  [(.proceed i false, []), (.polled i [], []), (.proceed i false, []), (.proceed i false, []), (.proceed i false, []),
    (.proceed i false, [])]

section Iterations

variable {s t : ConsumerGroup × (ℕ → Backpressure)} {i : ℕ} {c c' : KafkaEventConsumer}

theorem pauseStep_of_step {x : PauseAction} {g : ConsumerGroup} (h : s.1.step x.1 = some g) :
    pauseStep s x = some (g, observePauses s.1 x s.2) := by
  simp only [pauseStep, observed, h, Option.map_some]

theorem pauseStep_proceed {settled : List Settlement} (hc : s.1.processes i = some c) (hp : c.proceed false = some (settled, c')) :
    ∃ t, pauseStep s (.proceed i false, []) = some t ∧ t.1.processes i = some c' ∧
      t.2 i = c.backpressureAfter [] (s.2 i) (.proceed i false) := by
  have hstep : s.1.step (.proceed i false) =
      some { s.1.setProcess i c' with history := s.1.history ++ settled } := by
    simp only [step, hc, Option.bind_some, settle, hp, Option.map_some]
  have hpauses : observePauses s.1 (.proceed i false, []) s.2 i =
      c.backpressureAfter [] (s.2 i) (.proceed i false) := observePauses_self rfl hc
  exact ⟨_, pauseStep_of_step hstep, setProcess_self s.1 i c', hpauses⟩

theorem pauseStep_polled (hc : s.1.processes i = some c) (hpc : c.pc = .polling) (hidle : c.pipeline.reader = .idle) :
    ∃ t position, pauseStep s (.polled i [], []) = some t ∧
      t.1.processes i = some { c with position := position, pc := .ingesting [] } ∧ t.2 i = s.2 i := by
  have hdeliverable : s.1.deliverable c [] = true := by simp [deliverable, recordsOf]
  have hstep : s.1.step (.polled i []) =
      some (s.1.setProcess i { c with position := positionAfter c [], pc := .ingesting [] }) := by
    simp [step, hc, hdeliverable, KafkaEventConsumer.receive, hpc, hidle]
  have hpauses : observePauses s.1 (.polled i [], []) s.2 i = s.2 i := observePauses_self rfl hc
  exact ⟨_, positionAfter c [], pauseStep_of_step hstep, setProcess_self s.1 i _, hpauses⟩

theorem quietIteration_applies (hpaced : Paced c (s.2 i)) (hc : s.1.processes i = some c) (hpc : c.pc = .looping)
    (hstop : c.stopRequested = false) (hidle : c.pipeline.reader = .idle) (hbacklog : c.pipeline.backlog = []) :
    ∃ t, run pauseStep s (quietIteration i) = some t ∧ (t.2 i).applied = some true ∧
      ∀ p ∈ c.assignment, (t.2 i).isPaused p = false := by
  have hpoll : c.proceed false = some ([], { c with pc := .polling }) := by
    simp [KafkaEventConsumer.proceed, hidle, KafkaEventConsumer.runLoop, hpc, hstop]
  obtain ⟨t₁, hstep₁, hc₁, hb₁⟩ := pauseStep_proceed hc hpoll
  obtain ⟨t₂, position, hstep₂, hc₂, hb₂⟩ := pauseStep_polled hc₁ rfl hidle
  have hcall : KafkaEventConsumer.proceed { c with position := position, pc := .ingesting [] } false =
      some ([], { c with
        position := position
        pipeline := { c.pipeline with reader := .pumping }
        pc := .pumping }) := by
    simp [KafkaEventConsumer.proceed, hidle, KafkaEventConsumer.runLoop, KafkaEventConsumer.callPipeline,
      KafkaEventConsumer.pipelineStep, ConsumerPipeline.step, KafkaEventConsumer.settlements]
  obtain ⟨t₃, hstep₃, hc₃, hb₃⟩ := pauseStep_proceed hc₂ hcall
  have hsubmit : KafkaEventConsumer.proceed { c with
        position := position
        pipeline := { c.pipeline with reader := .pumping }
        pc := .pumping } false =
      some ([], { c with position := position, pipeline := { c.pipeline with reader := .idle }, pc := .pumping }) := by
    simp [KafkaEventConsumer.proceed, KafkaEventConsumer.pipelineStep, ConsumerPipeline.step,
      ConsumerPipeline.readerStep, ConsumerPipeline.submitFront, KafkaEventConsumer.settlements, hbacklog]
  obtain ⟨t₄, hstep₄, hc₄, hb₄⟩ := pauseStep_proceed hc₃ hsubmit
  have hanswer : KafkaEventConsumer.proceed { c with
        position := position
        pipeline := { c.pipeline with reader := .idle }
        pc := .pumping } false =
      some ([], { c with
        position := position
        pipeline := { c.pipeline with reader := .idle }
        pc := .backpressure true }) := by
    simp [KafkaEventConsumer.proceed, KafkaEventConsumer.runLoop, hbacklog]
  obtain ⟨t₅, hstep₅, hc₅, hb₅⟩ := pauseStep_proceed hc₄ hanswer
  have hreturn : KafkaEventConsumer.proceed { c with
        position := position
        pipeline := { c.pipeline with reader := .idle }
        pc := .backpressure true } false =
      some ([], { c with
        position := position
        pipeline := { c.pipeline with reader := .idle }
        paused := false
        pc := .commitReady }) := by
    simp [KafkaEventConsumer.proceed, KafkaEventConsumer.runLoop]
  obtain ⟨t₆, hstep₆, -, hb₆⟩ := pauseStep_proceed hc₅ hreturn
  have hpauses : (t₅.2 i).isPaused = (s.2 i).isPaused := by
    rw [hb₅, hb₄, hb₃, hb₂, hb₁]
    simp [KafkaEventConsumer.backpressureAfter, hidle, hpc]
  have hlast : t₆.2 i = ⟨c.applyBackpressure true (s.2 i).isPaused, some true⟩ := by
    rw [hb₆, backpressureAfter_proceed rfl, hpauses]
    rfl
  refine ⟨t₆, ?_, ?_, ?_⟩
  · simp only [quietIteration, run_cons, hstep₁, hstep₂, hstep₃, hstep₄, hstep₅, hstep₆, Option.bind_some, run_nil]
  · rw [hlast]
  · intro p hp
    rw [hlast]
    exact applyBackpressure_assigned hpaced.flagged true hp

theorem applied_step (hpaced : Paced c (s.2 i)) (hc : s.1.processes i = some c) {drained due : Bool}
    {resumed : List PartitionKey} (hpc : c.pc = .backpressure drained)
    (hstep : pauseStep s (.proceed i due, resumed) = some t) :
    (t.2 i).applied = some drained ∧ ∀ p ∈ c.assignment, (t.2 i).isPaused p = !drained := by
  obtain ⟨-, hpauses⟩ := observed_some hstep
  have hlast : t.2 i = ⟨c.applyBackpressure drained (s.2 i).isPaused, some drained⟩ := by
    rw [hpauses, observePauses_self rfl hc, backpressureAfter_proceed (hpaced.drained drained hpc).1, hpc]
  rw [hlast]
  refine ⟨rfl, ?_⟩
  intro p hp
  exact applyBackpressure_assigned hpaced.flagged drained hp

end Iterations

/-- Once `applyBackpressure` has returned, everything that is assigned is paused or nothing is, as `pump` has
answered. What is paused is known to be, and the next iteration with an empty backlog resumes it. -/
theorem back_pressure_follows_pump {actions : List PauseAction} {s : ConsumerGroup × (ℕ → Backpressure)} {i : ℕ}
    {c : KafkaEventConsumer} (h : run pauseStep ({}, fun _ => {}) actions = some s)
    (hc : s.1.processes i = some c) :
    (∀ drained, (s.2 i).applied = some drained →
      drained = c.pipeline.backlog.isEmpty ∧ ∀ p ∈ c.assignment, (s.2 i).isPaused p = !drained) ∧
    (∀ p ∈ c.assignment, (s.2 i).isPaused p = true → c.paused = true) ∧
    (∀ drained, c.pc = .backpressure drained → drained = c.pipeline.backlog.isEmpty ∧
      ∀ due resumed t, pauseStep s (.proceed i due, resumed) = some t →
        (t.2 i).applied = some drained ∧ ∀ p ∈ c.assignment, (t.2 i).isPaused p = !drained) ∧
    (c.pc = .looping → c.stopRequested = false → c.pipeline.reader = .idle → c.pipeline.backlog = [] →
      ∃ t, run pauseStep s (quietIteration i) = some t ∧ (t.2 i).applied = some true ∧
        ∀ p ∈ c.assignment, (t.2 i).isPaused p = false) := by
  have hpaced := (paced_run h).2 i c hc
  refine ⟨?_, ?_, ?_, ?_⟩
  · intro drained happlied
    obtain ⟨hempty, -, hall⟩ := hpaced.applied drained happlied
    exact ⟨hempty, hall⟩
  · intro p hp hpaused
    by_contra hflag
    rw [hpaced.flagged (Bool.not_eq_true _ ▸ hflag) p hp] at hpaused
    cases hpaused
  · intro drained hpc
    refine ⟨(hpaced.drained drained hpc).2, ?_⟩
    intro due resumed t hstep
    exact applied_step hpaced hc hpc hstep
  · intro hpc hstop hidle hbacklog
    exact quietIteration_applies hpaced hc hpc hstop hidle hbacklog

def sampleRecord (offset : ℤ) : ConsumerRecord where
  partition := ⟨"orders", 0⟩
  offset := offset
  value := "{}"
  headers := [("eventId", "550e8400-e29b-41d4-a716-446655440000")]

def fullPool : List PauseAction :=
  [.produce (sampleRecord 0), .produce (sampleRecord 1), .spawn 0 { workerThreads := 1, queueCapacity := 1 },
    .assigned 0 [⟨"orders", 0⟩], .proceed 0 false, .proceed 0 false, .polled 0 [sampleRecord 0, sampleRecord 1],
    .proceed 0 false, .proceed 0 false, .proceed 0 false, .proceed 0 false, .proceed 0 false, .proceed 0 false,
    .proceed 0 false, .proceed 0 false, .proceed 0 false, .kafkaError 0, .proceed 0 false, .proceed 0 false,
    .polled 0 [], .proceed 0 false, .proceed 0 false, .proceed 0 false, .proceed 0 false].map (fun a => (a, []))

theorem back_pressure_full_pool : ∃ s c, run pauseStep ({}, fun _ => {}) fullPool = some s ∧
    s.1.processes 0 = some c ∧ (s.2 0).applied = some false ∧ c.pipeline.backlog ≠ [] ∧
      ∀ p ∈ c.assignment, (s.2 0).isPaused p = true := by
  have hrun : ((run pauseStep ({}, fun _ => {}) fullPool).bind (fun s => s.1.processes 0)).isSome = true := by decide
  have happlied : ((run pauseStep ({}, fun _ => {}) fullPool).map (fun s => (s.2 0).applied)) = some (some false) := by
    decide
  obtain ⟨c, hc⟩ := Option.isSome_iff_exists.mp hrun
  obtain ⟨s, hs, hc⟩ := Option.bind_eq_some_iff.mp hc
  rw [hs] at happlied
  have hanswer := Option.some.inj happlied
  obtain ⟨hempty, hall⟩ := (back_pressure_follows_pump hs hc).1 false hanswer
  refine ⟨s, c, hs, hc, hanswer, ?_, hall⟩
  intro hnil
  rw [hnil] at hempty
  cases hempty

end ConsumerGroup

end LiquidPetProject.Messaging
