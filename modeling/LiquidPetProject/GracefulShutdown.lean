import LiquidPetProject.CommittedOffsets

namespace LiquidPetProject.Messaging

open Transitions

namespace OffsetTracker

theorem commitCandidate_eq_some {t : OffsetTracker} (h : t.Valid) {e : Entry} (he : e ∈ t.entries)
    (hdone : ∀ f ∈ t.entries, f.offset ≤ e.offset → f.done = true)
    (hpending : ∀ g ∈ t.entries, e.offset < g.offset → ∃ f ∈ t.entries, f.offset ≤ g.offset ∧ f.done = false) :
    t.commitCandidate = some (e.offset + 1) := by
  have hnone : ∀ f ∈ t.entries, f.offset ≤ e.offset → f.done = false → False := by
    intro f hf hle hfd
    rw [hdone f hf hle] at hfd
    cases hfd
  cases hc : t.commitCandidate with
  | none =>
    obtain ⟨f, hf, hle, hfd⟩ := commitCandidate_none h hc e he
    exact (hnone f hf hle hfd).elim
  | some w =>
    obtain ⟨e', he', rfl, hdone', hpending'⟩ := commitCandidate_some h hc
    rcases lt_trichotomy e'.offset e.offset with hlt | heq | hlt
    · obtain ⟨f, hf, hle, hfd⟩ := hpending' e he (by omega)
      exact (hnone f hf hle hfd).elim
    · rw [heq]
    · obtain ⟨f, hf, hle, hfd⟩ := hpending e' he' hlt
      rw [hdone' f hf (by omega)] at hfd
      cases hfd

theorem confirmCommit_watermark {t : OffsetTracker} (h : t.Valid) {p w : ℤ}
    (hw : (t.confirmCommit p).2.commitCandidate = some w) : t.commitCandidate = some w ∧ p ≠ w := by
  have hv := h.confirmCommit p
  rw [confirmCommit_eq h] at hw hv
  split_ifs at hw hv with hc hb
  · refine ⟨hw, ?_⟩
    obtain ⟨c, hcom, hle⟩ := Option.any_eq_true _ _ |>.mp hc
    have := Confirmed.candidate h ⟨c, hcom, le_rfl⟩ hw
    have := of_decide_eq_true hle
    omega
  · refine ⟨hw, ?_⟩
    rw [hw, Option.all_some, decide_eq_true_eq] at hb
    omega
  · obtain ⟨e, he, rfl, hdone, hpending⟩ := commitCandidate_some hv hw
    obtain ⟨hmem, hle⟩ := (not_covered h.sorted).mp he
    refine ⟨?_, by omega⟩
    apply commitCandidate_eq_some h hmem
    · intro f hf hfe
      by_cases hp : p ≤ f.offset
      · exact hdone f ((not_covered h.sorted).mpr ⟨hf, hp⟩) (by omega)
      · exact covered_done h hb f hf (by omega)
    · intro g hg hlt
      obtain ⟨f, hf, hrest⟩ := hpending g ((not_covered h.sorted).mpr ⟨hg, by omega⟩) (by omega)
      exact ⟨f, ((not_covered h.sorted).mp hf).1, hrest⟩

end OffsetTracker

namespace PartitionRegistry

theorem confirmCommit_candidates {reg : PartitionRegistry} (hv : reg.Valid) {x y : CommitPosition}
    (hy : y ∈ (reg.confirmCommit x).2.commitCandidates) : y ∈ reg.commitCandidates ∧ y ≠ x := by
  obtain ⟨st', hf', hcand⟩ := mem_commitCandidates.mp hy
  have hgen := (candidate_partition hcand).2
  cases hc : reg.isCurrent x.ticket with
  | false =>
    rw [confirmCommit_of_stale hc] at hf'
    refine ⟨mem_commitCandidates.mpr ⟨st', hf', hcand⟩, ?_⟩
    rintro rfl
    rw [isCurrent_iff.mpr ⟨st', hf', hgen.symm⟩] at hc
    cases hc
  | true =>
    obtain ⟨st, hf, hg⟩ := isCurrent_iff.mp hc
    rw [confirmCommit_of_current hf hg, find_insertOrAssign] at hf'
    split_ifs at hf' with hp
    · obtain rfl := Option.some.inj hf'
      obtain ⟨hold, hne⟩ := OffsetTracker.confirmCommit_watermark (hv.tracker _ st hf) (candidate_tracker hcand)
      refine ⟨mem_commitCandidates.mpr ⟨st, hp ▸ hf, ?_⟩, ?_⟩
      · rw [← hcand, candidate, candidate, candidate_tracker hcand, hold]
      · rintro rfl
        exact hne rfl
    · refine ⟨mem_commitCandidates.mpr ⟨st', hf', hcand⟩, ?_⟩
      rintro rfl
      exact hp rfl

theorem assign_candidates {reg : PartitionRegistry} {ps : List PartitionKey} {x : CommitPosition}
    (hx : x ∈ (reg.assign ps).commitCandidates) : x ∈ reg.commitCandidates := by
  obtain ⟨st, hf, hcand⟩ := mem_commitCandidates.mp hx
  by_cases hp : x.partition ∈ ps
  · obtain ⟨g, hf', -⟩ := assign_find reg hp
    obtain rfl := Option.some.inj (hf'.symm.trans hf)
    cases hcand
  · rw [assign_find_other hp] at hf
    exact mem_commitCandidates.mpr ⟨st, hf, hcand⟩

theorem revoke_candidates {reg : PartitionRegistry} {ps : List PartitionKey} {x : CommitPosition}
    (hx : x ∈ (reg.revoke ps).2.commitCandidates) : x ∈ reg.commitCandidates := by
  obtain ⟨st, hf, hcand⟩ := mem_commitCandidates.mp hx
  rw [revoke_find] at hf
  split_ifs at hf
  exact mem_commitCandidates.mpr ⟨st, hf, hcand⟩

end PartitionRegistry

namespace ConsumerPipeline

variable {config : PipelineConfiguration} {s : ConsumerPipeline}

theorem exited_of_joined {i : ℕ} {w : Worker WorkItem ExecutorPc} (hj : s.pool.joined = true)
    (hw : s.pool.workers[i]? = some w) : w.state = .exited := by
  unfold WorkerPool.joined at hj
  have hexited := List.all_eq_true.mp hj w (List.mem_of_getElem? hw)
  cases hstate : w.state with
  | exited => rfl
  | _ => simp [hstate] at hexited

theorem step_of_joined {a : PipelineAction} (hj : s.pool.joined = true) (ha : a.ofWorker = true) :
    s.step config a = none := by
  rw [Option.eq_none_iff_forall_ne_some]
  intro s' h
  cases a with
  | take i =>
    obtain ⟨pool, hp, -⟩ := Option.map_eq_some_iff.mp h
    obtain ⟨task, rest, hw, -⟩ := WorkerPool.take_eq_some hp
    cases exited_of_joined hj hw
  | execute i reply =>
    simp only [ConsumerPipeline.step, ConsumerPipeline.executeStep] at h
    split at h
    · next item pc stop hw => cases exited_of_joined hj hw
    · cases h
  | finish i =>
    obtain ⟨pool, hp, -⟩ := Option.map_eq_some_iff.mp h
    obtain ⟨task, pc, stop, hw, -⟩ := WorkerPool.finish_eq_some hp
    cases exited_of_joined hj hw
  | exit i =>
    obtain ⟨pool, hp, -⟩ := Option.map_eq_some_iff.mp h
    cases exited_of_joined hj (WorkerPool.exit_eq_some hp).1
  | _ => cases ha

theorem finishing_of_joined (hj : s.pool.joined = true) : s.finishing = [] := by
  rw [List.eq_nil_iff_forall_not_mem]
  intro t ht
  obtain ⟨w, hw, hfinishing⟩ := List.mem_filterMap.mp ht
  obtain ⟨i, hi, rfl⟩ := List.mem_iff_getElem.mp hw
  have hexited := exited_of_joined hj (List.getElem?_eq_getElem hi)
  simp [finishingTicket, hexited] at hfinishing

end ConsumerPipeline

def ConsumerPc.afterStop : ConsumerPc → Bool
  | .finalCommit => true
  | .closing => true
  | .revoking _ resume => resume.afterStop
  | .committing _ _ resume => resume.afterStop
  | .confirming _ resume => resume.afterStop
  | _ => false

/-- The candidates that the last commit of `stop` has yet to confirm, from the moment at which it took them. -/
def ConsumerPc.finalRest : ConsumerPc → Option (List CommitPosition)
  | .committing positions true .closing => some positions
  | .confirming positions .closing => some positions
  | .committing _ false .closing => some []
  | .revoking _ .closing => some []
  | .closing => some []
  | _ => none

theorem ConsumerPc.finalRest_afterStop {pc : ConsumerPc} {rest : List CommitPosition} (h : pc.finalRest = some rest) :
    pc.afterStop = true := by
  unfold ConsumerPc.finalRest at h
  split at h
  · rfl
  · rfl
  · rfl
  · rfl
  · rfl
  · cases h

theorem ConsumerPc.quiet_ne_stopping {pc : ConsumerPc} (h : pc.quiet = true) : pc ≠ .stopping := by
  rintro rfl
  cases h

theorem ConsumerPc.closing_of_quiet {pc : ConsumerPc} (hq : pc.quiet = true) (hstop : pc.afterStop = true) :
    pc = .closing := by
  cases pc with
  | closing => rfl
  | subscribing => cases hstop
  | looping => cases hstop
  | polling => cases hstop
  | _ => cases hq

theorem ConsumerPc.quiet_finalRest {pc : ConsumerPc} (h : pc.quiet = true) :
    pc.finalRest = if pc.afterStop then some [] else none := by
  cases pc with
  | closing => rfl
  | subscribing => rfl
  | looping => rfl
  | polling => rfl
  | _ => cases h

/-- After `stop` has joined the threads nothing but a rebalance callback runs beside the final commit, and every
candidate there is belongs to that commit. -/
structure Halting (c : KafkaEventConsumer) (b : TicketBook) : Prop where
  stopping : c.pc = .stopping → (∃ next, c.pipeline.reader = .stopping next) ∨
    c.pipeline.pool.joined = true ∧ (c.pipeline.reader = .clearing ∨ c.pipeline.reader = .idle)
  stopped : c.pc.afterStop = true → c.pipeline.pool.joined = true ∧
    (c.pipeline.reader = .idle ∨ ∃ ps, c.pipeline.reader = .revoking ps)
  final : b.finalCommitThrew = false → ∀ rest, c.pc.finalRest = some rest →
    ∀ x ∈ c.pipeline.registry.commitCandidates, x ∈ rest

section Halts

variable {c c' : KafkaEventConsumer} {b b' : TicketBook}

theorem Halting.outside (hne : c'.pc ≠ .stopping) (hout : c'.pc.afterStop = false) : Halting c' b' := by
  refine ⟨?_, ?_, ?_⟩
  · intro hpc
    exact absurd hpc hne
  · intro hstop
    rw [hout] at hstop
    cases hstop
  · intro _ rest hrest
    rw [ConsumerPc.finalRest_afterStop hrest] at hout
    cases hout

theorem Halting.turn (h : Halting c b) (hpipeline : c'.pipeline = c.pipeline) (hne : c'.pc ≠ .stopping)
    (hafter : c'.pc.afterStop = c.pc.afterStop) (hthrew : b'.finalCommitThrew = false → b.finalCommitThrew = false)
    (hrest : b'.finalCommitThrew = false → c'.pc.finalRest = c.pc.finalRest) : Halting c' b' := by
  refine ⟨?_, ?_, ?_⟩
  · intro hpc
    exact absurd hpc hne
  · rw [hpipeline, hafter]
    exact h.stopped
  · intro hthrown rest hr
    rw [hrest hthrown] at hr
    rw [hpipeline]
    exact h.final (hthrew hthrown) rest hr

theorem Halting.worker (h : Halting c b) {a : PipelineAction} {s' : ConsumerPipeline} (ha : a.ofWorker = true)
    (hstep : c.pipeline.step c.configuration a = some s') :
    c.pc.afterStop = false ∧ Halting { c with pipeline := s' } b' := by
  have hnot : c.pipeline.pool.joined ≠ true := by
    intro hj
    rw [ConsumerPipeline.step_of_joined hj ha] at hstep
    cases hstep
  have hout : c.pc.afterStop = false := by
    by_contra hstop
    exact hnot (h.stopped (Bool.not_eq_false _ ▸ hstop)).1
  refine ⟨hout, ?_, ?_, ?_⟩
  · intro hpc
    dsimp only
    rw [(ConsumerGroup.worker_frame ha hstep).1]
    exact (h.stopping hpc).imp_right (fun hj => absurd hj.1 hnot)
  · intro hstop
    exact absurd (hout.symm.trans hstop) Bool.false_ne_true
  · intro _ rest hrest
    exact absurd (hout.symm.trans (ConsumerPc.finalRest_afterStop hrest)) Bool.false_ne_true

theorem Halting.reader (h : Halting c b) {s' : ConsumerPipeline} (hbusy : c.pipeline.reader ≠ .idle)
    (hstep : c.pipeline.readerStep = some s') (hthrew : b'.finalCommitThrew = b.finalCommitThrew) :
    Halting { c with pipeline := s' } b' := by
  refine ⟨?_, ?_, ?_⟩
  · intro hpc
    unfold ConsumerPipeline.readerStep at hstep
    rcases h.stopping hpc with ⟨next, hr⟩ | ⟨hj, hr | hr⟩
    · simp only [hr] at hstep
      split_ifs at hstep with _ hj
      · obtain rfl := Option.some.inj hstep
        exact .inl ⟨next + 1, rfl⟩
      · obtain rfl := Option.some.inj hstep
        exact .inr ⟨hj, .inl rfl⟩
    · simp only [hr] at hstep
      obtain rfl := Option.some.inj hstep
      exact .inr ⟨hj, .inr rfl⟩
    · exact absurd hr hbusy
  · intro hstop
    obtain ⟨hj, hr | ⟨ps, hr⟩⟩ := h.stopped hstop
    · exact absurd hr hbusy
    · simp only [ConsumerPipeline.readerStep, hr] at hstep
      obtain rfl := Option.some.inj hstep
      exact ⟨hj, .inl rfl⟩
  · intro hthrown rest hrest
    obtain ⟨-, hr | ⟨ps, hr⟩⟩ := h.stopped (ConsumerPc.finalRest_afterStop hrest)
    · exact absurd hr hbusy
    · simp only [ConsumerPipeline.readerStep, hr] at hstep
      obtain rfl := Option.some.inj hstep
      exact h.final (hthrew ▸ hthrown) rest hrest

theorem commitOffsets_afterStop (positions : List CommitPosition) (confirm : Bool) (resume : ConsumerPc) :
    (KafkaEventConsumer.commitOffsets positions confirm resume).afterStop = resume.afterStop := by
  unfold KafkaEventConsumer.commitOffsets
  split_ifs <;> rfl

theorem commitOffsets_ne_stopping (positions : List CommitPosition) (confirm : Bool) {resume : ConsumerPc}
    (hq : resume.quiet = true) : KafkaEventConsumer.commitOffsets positions confirm resume ≠ .stopping := by
  unfold KafkaEventConsumer.commitOffsets
  split_ifs
  · exact ConsumerPc.quiet_ne_stopping hq
  · exact ConsumerPc.noConfusion

theorem quiet_rest {resume : ConsumerPc} (hq : resume.quiet = true) (positions : List CommitPosition) :
    (ConsumerPc.revoking positions resume).finalRest = resume.finalRest ∧
      (ConsumerPc.committing positions false resume).finalRest = resume.finalRest ∧
      (ConsumerPc.confirming [] resume).finalRest = resume.finalRest ∧
      (ConsumerPc.confirming positions resume).finalRest = (ConsumerPc.committing positions true resume).finalRest := by
  cases resume with
  | closing => exact ⟨rfl, rfl, rfl, rfl⟩
  | subscribing => exact ⟨rfl, rfl, rfl, rfl⟩
  | looping => exact ⟨rfl, rfl, rfl, rfl⟩
  | polling => exact ⟨rfl, rfl, rfl, rfl⟩
  | _ => cases hq

theorem halting_loop (h : Halting c b) (hq : c.pc.resumesQuiet = true) (hv : c.pipeline.registry.Valid)
    (hidle : c.pipeline.reader = .idle) (hstep : c.LoopStep c')
    (hthrew : b'.finalCommitThrew = b.finalCommitThrew) :
    Halting c' b' ∧ (c.pc.afterStop = true → c'.pc.afterStop = true) := by
  have hkept : b'.finalCommitThrew = false → b.finalCommitThrew = false := by
    rw [hthrew]
    exact id
  cases hstep with
  | subscribed hpc =>
    rw [hpc]
    exact ⟨.outside ConsumerPc.noConfusion rfl, id⟩
  | iterate hpc =>
    rw [hpc]
    exact ⟨.outside ConsumerPc.noConfusion rfl, id⟩
  | stop hpc =>
    rw [hpc]
    refine ⟨⟨?_, ?_, ?_⟩, id⟩
    · intro _
      exact .inl ⟨0, rfl⟩
    · intro hstop
      cases hstop
    · intro _ rest hrest
      cases hrest
  | skip r rest hpc =>
    rw [hpc]
    exact ⟨.outside ConsumerPc.noConfusion rfl, id⟩
  | ingest r rest hpc =>
    rw [hpc]
    exact ⟨.outside ConsumerPc.noConfusion rfl, id⟩
  | pump hpc =>
    rw [hpc]
    exact ⟨.outside ConsumerPc.noConfusion rfl, id⟩
  | pumped hpc =>
    rw [hpc]
    exact ⟨.outside ConsumerPc.noConfusion rfl, id⟩
  | paced drained hpc =>
    rw [hpc]
    exact ⟨.outside ConsumerPc.noConfusion rfl, id⟩
  | notDue hpc =>
    rw [hpc]
    exact ⟨.outside ConsumerPc.noConfusion rfl, id⟩
  | due hpc =>
    have hout := commitOffsets_afterStop c.pipeline.registry.commitCandidates true .looping
    refine ⟨.outside (commitOffsets_ne_stopping _ _ rfl) hout, ?_⟩
    rw [hpc]
    intro hstop
    cases hstop
  | revoked positions resume hpc =>
    have hresume : resume.quiet = true := by rwa [hpc] at hq
    have hafter : (KafkaEventConsumer.commitOffsets positions false resume).afterStop = c.pc.afterStop := by
      rw [commitOffsets_afterStop, hpc]
      rfl
    refine ⟨h.turn rfl (commitOffsets_ne_stopping _ _ hresume) hafter hkept ?_, fun hstop => hafter.trans hstop⟩
    intro _
    obtain ⟨hrevoking, hcommitting, -, -⟩ := quiet_rest hresume positions
    rw [hpc, hrevoking]
    unfold KafkaEventConsumer.commitOffsets
    split_ifs
    · rfl
    · exact hcommitting
  | confirm position rest resume hpc =>
    have hresume : resume.quiet = true := by rwa [hpc] at hq
    have hafter : (ConsumerPc.confirming rest resume).afterStop = c.pc.afterStop := by
      rw [hpc]
      rfl
    refine ⟨⟨?_, ?_, ?_⟩, fun hstop => hafter.trans hstop⟩
    · intro hstopping
      cases hstopping
    · intro hstop
      exact h.stopped (hafter.symm.trans hstop)
    · intro hthrown rest' hrest x hx
      obtain ⟨hold, hne⟩ := PartitionRegistry.confirmCommit_candidates hv hx
      cases resume with
      | closing =>
        obtain rfl := Option.some.inj hrest
        have hin := h.final (hkept hthrown) (position :: rest) (by rw [hpc]; rfl) x hold
        exact (List.mem_cons.mp hin).resolve_left hne
      | _ => cases hrest
  | confirmed resume hpc =>
    have hresume : resume.quiet = true := by rwa [hpc] at hq
    have hafter : resume.afterStop = c.pc.afterStop := by
      rw [hpc]
      rfl
    refine ⟨h.turn rfl (ConsumerPc.quiet_ne_stopping hresume) hafter hkept ?_, fun hstop => hafter.trans hstop⟩
    intro _
    rw [hpc]
    exact (quiet_rest hresume []).2.2.1.symm
  | retry hpc =>
    rw [hpc]
    exact ⟨.outside ConsumerPc.noConfusion rfl, id⟩
  | stopped hpc =>
    refine ⟨⟨?_, ?_, ?_⟩, fun _ => rfl⟩
    · intro hstopping
      cases hstopping
    · intro _
      rcases h.stopping hpc with ⟨next, hr⟩ | ⟨hj, -⟩
      · rw [hidle] at hr
        cases hr
      · exact ⟨hj, .inl hidle⟩
    · intro _ rest hrest
      cases hrest
  | finalCommit hpc =>
    have hafter := commitOffsets_afterStop c.pipeline.registry.commitCandidates true .closing
    have hjoined := (h.stopped (by rw [hpc]; rfl)).1
    refine ⟨⟨?_, ?_, ?_⟩, fun _ => hafter⟩
    · intro hstopping
      exact absurd hstopping (commitOffsets_ne_stopping _ _ rfl)
    · intro _
      exact ⟨hjoined, .inl hidle⟩
    · intro _ rest hrest x hx
      dsimp only at hrest hx
      unfold KafkaEventConsumer.commitOffsets at hrest
      split_ifs at hrest with hempty
      · rw [List.isEmpty_iff.mp hempty] at hx
        cases hx
      · obtain rfl := Option.some.inj hrest
        exact hx

theorem halting_answered (h : Halting c b) {positions : List CommitPosition} {confirm : Bool} {resume pc : ConsumerPc}
    (hpc : c.pc = .committing positions confirm resume) (hq : resume.quiet = true)
    (hthrew : b'.finalCommitThrew = false → b.finalCommitThrew = false)
    (hnext : pc = (if confirm then .confirming positions resume else resume) ∨
      pc = resume ∧ (b'.finalCommitThrew = false → confirm = true → resume.afterStop = false)) :
    Halting { c with pc := pc } b' ∧ (c.pc.afterStop = true → pc.afterStop = true) := by
  obtain ⟨-, hcommitting, -, hconfirming⟩ := quiet_rest hq positions
  have hresume : resume.afterStop = c.pc.afterStop := by
    rw [hpc]
    rfl
  rcases hnext with rfl | ⟨rfl, hfailed⟩
  · cases confirm with
    | true =>
      refine ⟨h.turn rfl ConsumerPc.noConfusion hresume hthrew ?_, fun hstop => hresume.trans hstop⟩
      intro _
      rw [hpc]
      exact hconfirming
    | false =>
      refine ⟨h.turn rfl (ConsumerPc.quiet_ne_stopping hq) hresume hthrew ?_, fun hstop => hresume.trans hstop⟩
      intro _
      rw [hpc]
      exact hcommitting.symm
  · refine ⟨h.turn rfl (ConsumerPc.quiet_ne_stopping hq) hresume hthrew ?_, fun hstop => hresume.trans hstop⟩
    intro hthrown
    rw [hpc]
    cases confirm with
    | false => exact hcommitting.symm
    | true =>
      have hout := hfailed hthrown rfl
      rw [ConsumerPc.quiet_finalRest hq, hout]
      cases pc with
      | closing => cases hout
      | _ => rfl

end Halts

namespace ConsumerGroup

section Runs

variable {s t : ConsumerGroup × (ℕ → TicketBook)} {a : GroupAction} {i : ℕ} {c : KafkaEventConsumer}

theorem threw_answered {b : TicketBook} {committed : PartitionKey → Option ℤ} {positions applied : List CommitPosition}
    {confirm : Bool} {resume : ConsumerPc} (hpc : c.pc = .committing positions confirm resume) (hq : resume.quiet = true)
    (hthrown : (b.after committed c (.commitFailed i applied)).finalCommitThrew = false) :
    b.finalCommitThrew = false ∧ (confirm = true → resume.afterStop = false) := by
  unfold TicketBook.after at hthrown
  rw [hpc] at hthrown
  cases confirm with
  | false => exact ⟨hthrown, fun hconfirm => by cases hconfirm⟩
  | true =>
    cases resume with
    | closing => cases hthrown
    | subscribing => exact ⟨hthrown, fun _ => rfl⟩
    | looping => exact ⟨hthrown, fun _ => rfl⟩
    | polling => exact ⟨hthrown, fun _ => rfl⟩
    | _ => cases hq

theorem halting_process (hg : GroupSound s.1) (h : ∀ c, s.1.processes i = some c → Halting c (s.2 i))
    (hstep : bookStep s a = some t) (hi : a.actor = some i) (hc : s.1.processes i = some c) :
    a = .crash i ∨ ∃ d, t.1.processes i = some d ∧ Halting d (t.2 i) ∧
      (c.pc.afterStop = true → d.pc.afterStop = true) := by
  obtain ⟨hgroup, hbooks⟩ := observed_some hstep
  have hbook : t.2 i = (s.2 i).after s.1.committed c a := by
    rw [hbooks]
    exact observeBooks_self hi hc
  have hs := hg.processes i c hc
  have hhalt := h c hc
  rw [hbook]
  cases a with
  | produce r => cases hi
  | loseOwner p => cases hi
  | spawn j configuration =>
    obtain rfl := Option.some.inj hi
    rw [(spawn_some hgroup).1] at hc
    cases hc
  | crash j =>
    obtain rfl := Option.some.inj hi
    exact .inl rfl
  | requestStop j =>
    obtain rfl := Option.some.inj hi
    obtain ⟨c', hc', ht⟩ := requestStop_some hgroup
    obtain rfl := Option.some.inj (hc.symm.trans hc')
    rw [ht, setProcess_self]
    exact .inr ⟨_, rfl, ⟨hhalt.stopping, hhalt.stopped, hhalt.final⟩, id⟩
  | assigned j ps =>
    obtain rfl := Option.some.inj hi
    obtain ⟨c', hc', hcb, -, ht⟩ := assigned_some hgroup
    obtain rfl := Option.some.inj (hc.symm.trans hc')
    have hd := (congrArg (fun g : ConsumerGroup => g.processes j) ht).trans (setProcess_self s.1 j _)
    refine .inr ⟨_, hd, ⟨hhalt.stopping, hhalt.stopped, ?_⟩, id⟩
    intro hthrown rest hrest x hx
    exact hhalt.final hthrown rest hrest x (PartitionRegistry.assign_candidates hx)
  | revoked j ps =>
    obtain rfl := Option.some.inj hi
    obtain ⟨c', hc', hcb, ht⟩ := revoked_some hgroup
    obtain rfl := Option.some.inj (hc.symm.trans hc')
    rw [ht, setProcess_self]
    refine .inr ⟨_, rfl, ⟨?_, ?_, ?_⟩, id⟩
    · intro hstopping
      cases hstopping
    · intro hstop
      exact ⟨(hhalt.stopped hstop).1, .inr ⟨ps, rfl⟩⟩
    · intro hthrown rest hrest x hx
      dsimp only at hrest
      rw [(quiet_rest (inCallback_quiet hcb) _).1] at hrest
      exact hhalt.final hthrown rest hrest x (PartitionRegistry.revoke_candidates hx)
  | polled j batch =>
    obtain rfl := Option.some.inj hi
    obtain ⟨c', hc', hpc, -, ht⟩ := polled_some hgroup
    obtain rfl := Option.some.inj (hc.symm.trans hc')
    rw [ht, setProcess_self, hpc]
    exact .inr ⟨_, rfl, .outside ConsumerPc.noConfusion rfl, id⟩
  | kafkaError j =>
    obtain rfl := Option.some.inj hi
    obtain ⟨c', hc', hpc, ht⟩ := kafkaError_some hgroup
    obtain rfl := Option.some.inj (hc.symm.trans hc')
    rw [ht, setProcess_self]
    refine .inr ⟨_, rfl, .outside ConsumerPc.noConfusion rfl, ?_⟩
    rcases hpc with ⟨hpc, -⟩ | ⟨drained, hpc⟩
    · rw [hpc]
      exact id
    · rw [hpc]
      exact id
  | proceed j due =>
    obtain rfl := Option.some.inj hi
    obtain ⟨c', d, settled, hc', hproceed, ht⟩ := proceed_some hgroup
    obtain rfl := Option.some.inj (hc.symm.trans hc')
    have hthrew : ((s.2 j).after s.1.committed c (.proceed j due)).finalCommitThrew = (s.2 j).finalCommitThrew :=
      after_finalCommitThrew (fun _ _ => GroupAction.noConfusion)
    have hd : t.1.processes j = some d := by
      rw [ht]
      exact setProcess_self s.1 _ _
    rcases KafkaEventConsumer.proceed_some hproceed with ⟨hidle, -, hloop⟩ | ⟨hbusy, -, pipeline, hreader, rfl⟩
    · exact .inr ⟨d, hd, halting_loop hhalt hs.resume hs.pipeline.valid hidle hloop hthrew⟩
    · exact .inr ⟨_, hd, hhalt.reader hbusy hreader hthrew, id⟩
  | committed j =>
    obtain rfl := Option.some.inj hi
    obtain ⟨c', positions, confirm, resume, hc', hpc, -, ht⟩ := committed_some hgroup
    obtain rfl := Option.some.inj (hc.symm.trans hc')
    have hq : resume.quiet = true := by
      have hres := hs.resume
      rwa [hpc] at hres
    rw [ht, setProcess_self]
    exact .inr ⟨_, rfl, halting_answered hhalt hpc hq id (.inl rfl)⟩
  | commitFailed j applied =>
    obtain rfl := Option.some.inj hi
    obtain ⟨c', positions, confirm, resume, hc', hpc, -, -, ht⟩ := commitFailed_some hgroup
    obtain rfl := Option.some.inj (hc.symm.trans hc')
    have hq : resume.quiet = true := by
      have hres := hs.resume
      rwa [hpc] at hres
    rw [ht, setProcess_self]
    refine .inr ⟨_, rfl, halting_answered hhalt hpc hq ?_ (.inr ⟨rfl, ?_⟩)⟩
    · intro hthrown
      exact (threw_answered hpc hq hthrown).1
    · intro hthrown
      exact (threw_answered hpc hq hthrown).2
  | worker j a =>
    obtain rfl := Option.some.inj hi
    obtain ⟨c', pipeline, hc', ha, hp, ht⟩ := worker_some hgroup
    obtain rfl := Option.some.inj (hc.symm.trans hc')
    obtain ⟨hout, hnext⟩ := hhalt.worker ha hp
    have hd := (congrArg (fun g : ConsumerGroup => g.processes j) ht).trans (setProcess_self s.1 j _)
    refine .inr ⟨_, hd, hnext, ?_⟩
    intro hstop
    rw [hout] at hstop
    cases hstop

structure ShutdownSound (s : ConsumerGroup × (ℕ → TicketBook)) : Prop where
  group : GroupSound s.1
  books : BooksSynced s
  halting : ∀ i c, s.1.processes i = some c → Halting c (s.2 i)

theorem ShutdownSound.empty : ShutdownSound ({}, fun _ => {}) := by
  refine ⟨GroupSound.empty, ?_, ?_⟩
  · intro i c hc
    cases hc
  · intro i c hc
    cases hc

theorem ShutdownSound.step (h : ShutdownSound s) (hstep : bookStep s a = some t) : ShutdownSound t := by
  obtain ⟨hgroup, hbooks⟩ := observed_some hstep
  refine ⟨(h.group.step hgroup).1, synced_step h.group h.books hstep, ?_⟩
  intro j d hd
  by_cases hj : a.actor = some j
  · have hgone : a ≠ .crash j := by
      rintro rfl
      have ht : t.1 = { s.1 with processes := Function.update s.1.processes j none } := (Option.some.inj hgroup).symm
      rw [ht] at hd
      cases (Function.update_self j none s.1.processes).symm.trans hd
    cases hc : s.1.processes j with
    | none =>
      rcases step_actor hgroup hj with ⟨c, hc'⟩ | ⟨configuration, rfl⟩ | hcrash
      · rw [hc] at hc'
        cases hc'
      · obtain ⟨-, ht⟩ := spawn_some hgroup
        rw [ht, setProcess_self] at hd
        obtain rfl := Option.some.inj hd
        exact .outside ConsumerPc.noConfusion rfl
      · exact absurd hcrash hgone
    | some c =>
      rcases halting_process h.group (h.halting j) hstep hj hc with hcrash | ⟨d', hd', hhalt, -⟩
      · exact absurd hcrash hgone
      · obtain rfl := Option.some.inj (hd'.symm.trans hd)
        exact hhalt
  · have hsame : t.2 j = s.2 j := by
      rw [hbooks]
      exact observeProcess_other hj
    rw [step_other hgroup hj] at hd
    rw [hsame]
    exact h.halting j d hd

theorem ShutdownSound.run {actions : List GroupAction} (h : ShutdownSound s)
    (hrun : Transitions.run bookStep s actions = some t) : ShutdownSound t :=
  run_invariant (fun _ _ _ hs hstep => hs.step hstep) h hrun

theorem afterStop_run {later : List GroupAction} (h : ShutdownSound s) (hc : s.1.processes i = some c)
    (hstop : c.pc.afterStop = true) (hcrash : .crash i ∉ later) (hrun : Transitions.run bookStep s later = some t) :
    ShutdownSound t ∧ ∃ d, t.1.processes i = some d ∧ d.pc.afterStop = true := by
  refine run_preserves (I := fun u : ConsumerGroup × (ℕ → TicketBook) =>
    ShutdownSound u ∧ ∃ d, u.1.processes i = some d ∧ d.pc.afterStop = true) (P := fun a => a ≠ .crash i) ?_
    ⟨h, c, hc, hstop⟩ ?_ hrun
  · rintro u a v ⟨hu, d, hd, hd'⟩ ha hstep
    refine ⟨hu.step hstep, ?_⟩
    by_cases hi : a.actor = some i
    · rcases halting_process hu.group (hu.halting i) hstep hi hd with he | ⟨e, he, -, hkept⟩
      · exact absurd he ha
      · exact ⟨e, he, hkept hd'⟩
    · refine ⟨d, ?_, hd'⟩
      rw [step_other (observed_some hstep).1 hi]
      exact hd
  · rintro a ha rfl
    exact hcrash ha

theorem no_worker_afterStop (h : ShutdownSound s) (hc : s.1.processes i = some c) (hstop : c.pc.afterStop = true)
    (a : PipelineAction) : s.1.step (.worker i a) = none := by
  rw [Option.eq_none_iff_forall_ne_some]
  intro g hstep
  obtain ⟨c', pipeline, hc', ha, hp, -⟩ := worker_some hstep
  obtain rfl := Option.some.inj (hc.symm.trans hc')
  rw [ConsumerPipeline.step_of_joined ((h.halting i c hc).stopped hstop).1 ha] at hp
  cases hp

theorem committed_afterStop (h : ShutdownSound s) (hc : s.1.processes i = some c) (hpc : c.pc = .closing)
    (hthrew : (s.2 i).finalCommitThrew = false) {p : PartitionKey} (hown : s.1.owner p = some i) {st : PartitionState}
    (hf : c.pipeline.registry.find p = some st) :
    s.1.committed p =
        (((s.2 i).settledPrefix p st.generation).getLast?.map (fun o => o + 1)).or ((s.2 i).initial p) ∧
      ∀ o ∈ (s.2 i).settledPrefix p st.generation, ∃ w, s.1.committed p = some w ∧ o < w := by
  have hhalt := h.halting i c hc
  have hsynced := h.books i c hc
  have hledger := hsynced.ledger
  have hjoined := (hhalt.stopped (by rw [hpc]; rfl)).1
  have hv := hledger.valid.tracker p st hf
  have hcand : st.tracker.commitCandidate = none := by
    cases hw : st.tracker.commitCandidate with
    | none => rfl
    | some w =>
      have hmem : ⟨p, w, st.generation⟩ ∈ c.pipeline.registry.commitCandidates :=
        PartitionRegistry.mem_commitCandidates.mpr ⟨st, hf, by rw [PartitionRegistry.candidate, hw]; rfl⟩
      have hin := hhalt.final hthrew [] (by rw [hpc]; rfl) _ hmem
      cases hin
  have hdone : ∀ o ∈ ticketOffsets (s.2 i).registered p st.generation,
      ⟨p, o, st.generation⟩ ∈ (s.2 i).settled → st.tracker.Completed o := by
    intro o _ ho
    rcases hledger.finished _ ho with hfin | hs
    · rw [ConsumerPipeline.finishing_of_joined hjoined] at hfin
      cases hfin
    · exact hs.completed st hf rfl
  obtain ⟨hcom, hbelow⟩ := (hledger.booked.account p st hf).finished_covered hv hdone hcand
  have hstored := hsynced.stored p st hown hf hcand
  refine ⟨?_, ?_⟩
  · rw [hstored, hcom]
    rfl
  · intro o ho
    obtain ⟨w, hw, hlt⟩ := hbelow o ho
    rw [hw] at hstored
    exact ⟨w, hstored, hlt⟩

/-- After `stop` has returned no task and no completion of the process runs any more. When the last commit did not
throw, the broker has for every partition that is still assigned the position after the longest prefix of settled
records, or what it had before, and no later owner begins before that. -/
theorem graceful_shutdown {actions : List GroupAction} (h : Transitions.run bookStep ({}, fun _ => {}) actions = some s)
    (hc : s.1.processes i = some c) (hpc : c.pc = .closing) :
    (∀ later t, Transitions.run bookStep s later = some t → .crash i ∉ later →
      ∃ d, t.1.processes i = some d ∧ (∀ a, t.1.step (.worker i a) = none) ∧
        ∀ ticket record, d.pipeline.reader ≠ .ingesting ticket record) ∧
    ((s.2 i).finalCommitThrew = false → ∀ p ∈ c.assignment, s.1.owner p = some i →
      ∃ st, c.pipeline.registry.find p = some st ∧
        s.1.committed p =
          (((s.2 i).settledPrefix p st.generation).getLast?.map (fun o => o + 1)).or ((s.2 i).initial p) ∧
        ∀ later t j ps g, Transitions.run bookStep s later = some t → t.1.step (.assigned j ps) = some g → p ∈ ps →
          ∃ d, g.processes j = some d ∧ ∀ o ∈ (s.2 i).settledPrefix p st.generation, o < d.position p) := by
  have hs := ShutdownSound.empty.run h
  have hstop : c.pc.afterStop = true := by
    rw [hpc]
    rfl
  constructor
  · intro later t hrun hcrash
    obtain ⟨ht, d, hd, hd'⟩ := afterStop_run hs hc hstop hcrash hrun
    refine ⟨d, hd, no_worker_afterStop ht hd hd', ?_⟩
    intro ticket record hr
    rcases ((ht.halting i d hd).stopped hd').2 with hidle | ⟨ps, hrevoking⟩
    · rw [hr] at hidle
      cases hidle
    · rw [hr] at hrevoking
      cases hrevoking
  · intro hthrew p hp hown
    obtain ⟨st, hf⟩ := (hs.group.processes i c hc).assigned p hp
    obtain ⟨hcom, hbelow⟩ := committed_afterStop hs hc hpc hthrew hown hf
    refine ⟨st, hf, hcom, ?_⟩
    intro later t j ps g hrun hassigned hps
    obtain ⟨d, -, -, -, rfl⟩ := assigned_some hassigned
    refine ⟨_, setProcess_self t.1 j _, ?_⟩
    intro o ho
    obtain ⟨w, hw, hlt⟩ := hbelow o ho
    obtain ⟨w', hw', hle⟩ := hs.group.advances (run_of_observed hrun) p w hw
    dsimp only
    rw [if_pos hps, startOffset, hw', Option.getD_some]
    exact hlt.trans_le hle

end Runs

def firstStop : List GroupAction :=
  [.proceed 0 false, .proceed 0 false, .proceed 0 false, .proceed 0 false, .proceed 0 false, .proceed 0 false,
    .worker 0 (.take 1), .worker 0 (.execute 1 .none), .worker 0 (.execute 1 .none), .requestStop 0,
    .proceed 0 false, .proceed 0 false, .proceed 0 false, .proceed 0 false, .proceed 0 false, .proceed 0 false,
    .proceed 0 false, .proceed 0 false, .worker 0 (.exit 0), .worker 0 (.exit 2), .worker 0 (.exit 3),
    .worker 0 (.execute 1 (.handler (.returned true))), .worker 0 (.execute 1 .none), .worker 0 (.finish 1),
    .worker 0 (.exit 1), .proceed 0 false, .proceed 0 false, .proceed 0 false, .proceed 0 false, .committed 0,
    .proceed 0 false, .proceed 0 false]

theorem graceful_shutdown_first : ∃ s c, Transitions.run bookStep ({}, fun _ => {}) (firstPoll ++ firstStop) = some s ∧
    s.1.processes 0 = some c ∧ c.pc = .closing ∧ (s.2 0).settledPrefix ⟨"orders", 0⟩ 1 = [4] ∧
    s.1.committed ⟨"orders", 0⟩ = some 5 ∧ ∀ a, s.1.step (.worker 0 a) = none := by
  have hrun : (Transitions.run bookStep ({}, fun _ => {}) (firstPoll ++ firstStop)).any (fun s =>
      !(s.2 0).finalCommitThrew && s.1.owner ⟨"orders", 0⟩ = some 0 &&
        (s.2 0).settledPrefix ⟨"orders", 0⟩ 1 = [4] &&
        (s.1.processes 0).any (fun c => c.pc.quiet && c.pc.afterStop && ⟨"orders", 0⟩ ∈ c.assignment &&
          (c.pipeline.registry.find ⟨"orders", 0⟩).any (fun st => st.generation = 1))) = true := by decide
  obtain ⟨s, hs, hall⟩ := Option.any_eq_true _ _ |>.mp hrun
  simp only [Bool.and_eq_true, Bool.not_eq_true', decide_eq_true_eq] at hall
  obtain ⟨⟨⟨hthrew, hown⟩, hcovered⟩, hprocess⟩ := hall
  obtain ⟨c, hc, hfacts⟩ := Option.any_eq_true _ _ |>.mp hprocess
  simp only [Bool.and_eq_true, decide_eq_true_eq] at hfacts
  obtain ⟨⟨⟨hquiet, hstop⟩, hassigned⟩, hfind⟩ := hfacts
  have hpc := ConsumerPc.closing_of_quiet hquiet hstop
  obtain ⟨hquietly, hcommitted⟩ := graceful_shutdown hs hc hpc
  obtain ⟨st, hf, hcom, -⟩ := hcommitted hthrew ⟨"orders", 0⟩ hassigned hown
  obtain ⟨st', hf', hgen⟩ := Option.any_eq_true _ _ |>.mp hfind
  obtain rfl := Option.some.inj (hf.symm.trans hf')
  rw [of_decide_eq_true hgen, hcovered] at hcom
  obtain ⟨d, -, hnone, -⟩ := hquietly [] s rfl (by simp)
  exact ⟨s, c, hs, hc, hpc, hcovered, hcom, hnone⟩

end ConsumerGroup

end LiquidPetProject.Messaging
