import LiquidPetProject.ConsumerSoundness
import LiquidPetProject.Transitions

namespace LiquidPetProject.Messaging

open Transitions

namespace ConsumerGroup

structure GroupSound (g : ConsumerGroup) : Prop where
  log : LogSound g.log
  ended : ∀ p, g.startOffset p ≤ logEnd (g.log p)
  below : ∀ p, ∀ r ∈ g.log p, r.offset < g.startOffset p → r.Settled g.history
  processes : ∀ i c, g.processes i = some c → ConsumerSound g.log g.history c
  owner : ∀ p i c, g.owner p = some i → g.processes i = some c → OwnerBound (g.startOffset p) c p

theorem GroupSound.empty : GroupSound {} := by
  constructor
  · constructor <;> simp
  all_goals simp [startOffset, logEnd]

def Advances (g g' : ConsumerGroup) : Prop :=
  ∀ p o, g.committed p = some o → ∃ o', g'.committed p = some o' ∧ o ≤ o'

theorem Advances.of_eq {g g' : ConsumerGroup} (h : g'.committed = g.committed) : Advances g g' :=
  fun _ o ho => ⟨o, by rw [h, ho], le_rfl⟩

theorem Advances.trans {g₁ g₂ g₃ : ConsumerGroup} (h : Advances g₁ g₂) (h' : Advances g₂ g₃) :
    Advances g₁ g₃ := by
  intro p o ho
  obtain ⟨o₂, ho₂, hle⟩ := h p o ho
  obtain ⟨o₃, ho₃, hle'⟩ := h' p o₂ ho₂
  exact ⟨o₃, ho₃, hle.trans hle'⟩

theorem logGrows_append {log : PartitionLog} {r : ConsumerRecord}
    (hr : logEnd (log r.partition) ≤ r.offset) :
    LogGrows log (Function.update log r.partition (log r.partition ++ [r])) := by
  constructor
  · intro p
    by_cases hp : p = r.partition
    · subst hp
      rw [Function.update_self]
      exact List.subset_append_left _ _
    · rw [Function.update_of_ne hp]
      exact List.Subset.refl _
  · intro p
    by_cases hp : p = r.partition
    · subst hp
      rw [Function.update_self]
      have : logEnd (log r.partition ++ [r]) = r.offset + 1 := by simp [logEnd]
      omega
    · rw [Function.update_of_ne hp]
  · intro p x hx hlt
    by_cases hp : p = r.partition
    · subst hp
      rw [Function.update_self] at hx
      rcases List.mem_append.mp hx with hm | hm
      · exact hm
      · rw [List.mem_singleton.mp hm] at hlt
        omega
    · rwa [Function.update_of_ne hp] at hx

theorem logSound_append {log : PartitionLog} (hl : LogSound log) {r : ConsumerRecord} (he : r.error = false)
    (hr : logEnd (log r.partition) ≤ r.offset) :
    LogSound (Function.update log r.partition (log r.partition ++ [r])) := by
  constructor
  · intro p
    by_cases hp : p = r.partition
    · subst hp
      rw [Function.update_self]
      refine List.pairwise_append.mpr ⟨hl.sorted _, List.pairwise_singleton _ _, ?_⟩
      intro x hx y hy
      rw [List.mem_singleton.mp hy]
      exact (hl.lt_logEnd hx).trans_le hr
    · rw [Function.update_of_ne hp]
      exact hl.sorted p
  · intro p x hx
    by_cases hp : p = r.partition
    · subst hp
      rw [Function.update_self] at hx
      rcases List.mem_append.mp hx with hm | hm
      · exact hl.record _ x hm
      · rw [List.mem_singleton.mp hm]
        exact ⟨rfl, he⟩
    · rw [Function.update_of_ne hp] at hx
      exact hl.record p x hx

theorem GroupSound.produce {g : ConsumerGroup} (h : GroupSound g) {r : ConsumerRecord} (he : r.error = false)
    (hr : logEnd (g.log r.partition) ≤ r.offset) :
    GroupSound { g with log := Function.update g.log r.partition (g.log r.partition ++ [r]) } := by
  have hgrow := logGrows_append hr
  refine ⟨logSound_append h.log he hr, ?_, ?_, ?_, h.owner⟩
  · exact fun p => (h.ended p).trans (hgrow.ended p)
  · intro p x hx hlt
    exact h.below p x (hgrow.fresh p x hx (lt_of_lt_of_le hlt (h.ended p))) hlt
  · intro i c hc
    exact (h.processes i c hc).mono hgrow (List.Subset.refl _)

theorem GroupSound.setProcess {g : ConsumerGroup} (h : GroupSound g) {i : ℕ} {c c' : KafkaEventConsumer}
    (hc : g.processes i = some c) {history : List Settlement} (hsub : g.history ⊆ history)
    (hs : StepSound g.log history c c') : GroupSound { g.setProcess i c' with history := history } := by
  refine ⟨h.log, h.ended, fun p r hr hlt => (h.below p r hr hlt).mono hsub, ?_, ?_⟩
  · intro j d hd
    rcases ConsumerGroup.setProcess_some hd with ⟨rfl, rfl⟩ | ⟨-, hd⟩
    · exact hs.sound
    · exact (h.processes j d hd).mono (LogGrows.refl _) hsub
  · intro p j d hown hd
    rcases ConsumerGroup.setProcess_some hd with ⟨rfl, rfl⟩ | ⟨-, hd⟩
    · exact hs.owner _ p (h.owner p j c hown hc)
    · exact h.owner p j d hown hd

theorem GroupSound.settle {g g' : ConsumerGroup} (h : GroupSound g) {i : ℕ} {c : KafkaEventConsumer}
    (hc : g.processes i = some c) {next : Option (List Settlement × KafkaEventConsumer)}
    (hs : ∀ settled c', next = some (settled, c') → StepSound g.log (g.history ++ settled) c c')
    (hstep : g.settle i next = some g') : GroupSound g' := by
  obtain ⟨⟨settled, c'⟩, hn, rfl⟩ := Option.map_eq_some_iff.mp hstep
  exact h.setProcess hc (List.subset_append_left _ _) (hs settled c' hn)

theorem GroupSound.update {g : ConsumerGroup} (h : GroupSound g) {i : ℕ} {c c' : KafkaEventConsumer}
    (hc : g.processes i = some c) (hs : StepSound g.log g.history c c') : GroupSound (g.setProcess i c') :=
  h.setProcess hc (List.Subset.refl _) hs

theorem inCallback_quiet {c : KafkaEventConsumer} (h : c.inCallback = true) : c.pc.quiet = true := by
  unfold KafkaEventConsumer.inCallback at h
  cases hpc : c.pc with
  | subscribing => rfl
  | polling => rfl
  | closing => rfl
  | _ => simp [hpc, ConsumerPc.runsCallbacks] at h

theorem revoke_sound {log : PartitionLog} (hl : LogSound log) {history : List Settlement}
    {c : KafkaEventConsumer} (h : ConsumerSound log history c) (hcb : c.inCallback = true)
    {ps : List PartitionKey} {pipeline : ConsumerPipeline}
    (hstep : c.pipeline.step c.configuration (.onPartitionsRevoked ps) = some pipeline) :
    StepSound log history c { c with
      pipeline := pipeline
      assignment := c.assignment.filter (fun p => p ∉ ps)
      pc := .revoking (c.pipeline.registry.revoke ps).1 c.pc } := by
  have hquiet := inCallback_quiet hcb
  have hb := ConsumerPc.quiet_batch hquiet
  simp only [ConsumerPipeline.step] at hstep
  split_ifs at hstep
  obtain rfl := Option.some.inj hstep
  have hp := h.pipeline
  have hpipe : PipelineSound log history
      { c.pipeline with registry := (c.pipeline.registry.revoke ps).2, reader := .revoking ps } :=
    ⟨hp.valid.call (.revoke ps), hp.backlog, hp.queue, hp.workers, by simp, hp.done.revoke ps⟩
  have hfind : ∀ p st, (c.pipeline.registry.revoke ps).2.find p = some st →
      c.pipeline.registry.find p = some st := by
    intro p st hf
    rw [PartitionRegistry.revoke_find] at hf
    split_ifs at hf
    exact hf
  have hx : ∀ x ∈ (c.pipeline.registry.revoke ps).1,
      IsCandidate c.pipeline.registry x ∧ Committable log history c x :=
    fun x hm => ⟨(revoke_candidate hm).2, h.committable hl hb (revoke_candidate hm).2⟩
  have hassigned : ∀ p ∈ c.assignment.filter (fun p => p ∉ ps),
      ∃ st, (c.pipeline.registry.revoke ps).2.find p = some st := by
    intro p hm
    obtain ⟨hpa, hps⟩ := List.mem_filter.mp hm
    obtain ⟨st, hf⟩ := h.assigned p hpa
    exact ⟨st, by rw [PartitionRegistry.revoke_find, if_neg (by simpa using hps)]; exact hf⟩
  exact ⟨h.commit hpipe hfind hassigned rfl hb rfl hx hquiet, fun _ _ hown => hown.commit hfind rfl rfl hx⟩

theorem recordsOf_mem {batch : List ConsumerRecord} {p : PartitionKey} {r : ConsumerRecord} :
    r ∈ recordsOf batch p ↔ r ∈ batch ∧ r.error = false ∧ r.partition = p := by
  simp [recordsOf, List.mem_filter]

theorem delivered {log : PartitionLog} (hl : LogSound log) {p : PartitionKey} {position : ℤ}
    {new : List ConsumerRecord} (h : new <+: (log p).filter (fun r => position ≤ r.offset)) :
    (∀ r ∈ new, r ∈ log p ∧ position ≤ r.offset ∧
        r.offset < ((new.getLast?.map (fun r => r.offset + 1)).getD position)) ∧
      new.Pairwise (fun a b => a.offset < b.offset) ∧
      position ≤ (new.getLast?.map (fun r => r.offset + 1)).getD position ∧
      ∀ r ∈ log p, r.offset < ((new.getLast?.map (fun r => r.offset + 1)).getD position) →
        r.offset < position ∨ r ∈ new := by
  have hfs : ((log p).filter (fun r => position ≤ r.offset)).Pairwise (fun a b => a.offset < b.offset) :=
    (hl.sorted p).filter _
  have hmem : ∀ r ∈ new, r ∈ log p ∧ position ≤ r.offset := by
    intro r hr
    obtain ⟨hm, hle⟩ := List.mem_filter.mp (h.subset hr)
    exact ⟨hm, by simpa using hle⟩
  have hsorted := hfs.sublist h.sublist
  rcases List.eq_nil_or_concat new with rfl | ⟨rs, x, rfl⟩
  · refine ⟨by simp, hsorted, by simp, ?_⟩
    intro r _ hlt
    exact .inl (by simpa using hlt)
  · obtain ⟨suffix, hsuf⟩ := h
    rw [List.concat_eq_append] at hmem hsorted hsuf ⊢
    have hlast : ((rs ++ [x]).getLast?.map (fun r => r.offset + 1)).getD position = x.offset + 1 := by simp
    rw [hlast]
    have hxm := hmem x (by simp)
    refine ⟨?_, hsorted, by omega, ?_⟩
    · intro r hr
      refine ⟨(hmem r hr).1, (hmem r hr).2, ?_⟩
      rcases List.mem_append.mp hr with hm | hm
      · have := (List.pairwise_append.mp hsorted).2.2 r hm x (List.mem_singleton_self x)
        omega
      · rw [List.mem_singleton.mp hm]
        omega
    · intro r hr hlt
      by_cases hpos : r.offset < position
      · exact .inl hpos
      · right
        have hrf : r ∈ (log p).filter (fun r => position ≤ r.offset) :=
          List.mem_filter.mpr ⟨hr, by simpa using hpos⟩
        rw [← hsuf] at hrf hfs
        rcases List.mem_append.mp hrf with hm | hm
        · exact hm
        · have := (List.pairwise_append.mp hfs).2.2 x (by simp) r hm
          omega

theorem poll_sound {g : ConsumerGroup} (hg : GroupSound g) {c c' : KafkaEventConsumer}
    (h : ConsumerSound g.log g.history c) {batch : List ConsumerRecord}
    (hd : g.deliverable c batch = true) (hstep : c.receive batch (positionAfter c batch) = some c') :
    StepSound g.log g.history c c' := by
  unfold KafkaEventConsumer.receive at hstep
  split at hstep
  · rename_i hpc
    split_ifs at hstep
    obtain rfl := Option.some.inj hstep
    simp only [deliverable, Bool.and_eq_true, List.all_eq_true, Bool.or_eq_true, decide_eq_true_eq,
      List.isPrefixOf_iff_prefix] at hd
    obtain ⟨hassigned, hearlier⟩ := hd
    have hnone : ∀ p, p ∉ c.assignment → recordsOf batch p = [] := by
      intro p hp
      rw [List.eq_nil_iff_forall_not_mem]
      intro r hr
      obtain ⟨hm, he, rfl⟩ := recordsOf_mem.mp hr
      rcases hassigned r hm with hbad | hin
      · rw [he] at hbad
        cases hbad
      · exact hp hin
    have hpre : ∀ p, recordsOf batch p <+: (g.log p).filter (fun r => c.position p ≤ r.offset) := by
      intro p
      by_cases hp : p ∈ c.assignment
      · exact hearlier p hp
      · rw [hnone p hp]
        exact List.nil_prefix
    have hb : c.pc.batch = [] := by rw [hpc]; rfl
    constructor
    · refine ⟨h.pipeline, h.assigned, ?_, ?_, by simp [ConsumerPc.inFlight], by simp [ConsumerPc.inFlight],
        by simp [ConsumerPc.inFlight], rfl⟩
      · intro p st hf
        have ht := h.tracked p st hf
        rw [hb] at ht
        obtain ⟨hnew, hsorted, hpos, hcov⟩ := delivered hg.log (hpre p)
        constructor
        · intro last hl
          exact (ht.registered last hl).trans_le hpos
        · intro r hr hlt
          rcases hcov r hr hlt with hold | hin
          · rcases ht.covered r hr hold with hs | he | hm
            · exact .inl hs
            · exact .inr (.inl he)
            · cases hm
          · exact .inr (.inr hin)
        · intro r hr last hl
          exact (ht.registered last hl).trans_le (hnew r hr).2.1
        · exact hsorted
        · exact fun r hr => ⟨(hnew r hr).1, (hnew r hr).2.2⟩
        · rcases hl : (recordsOf batch p).getLast? with _ | x
          · simpa [positionAfter, hl] using ht.ended
          · have hx := hg.log.lt_logEnd (hnew x (List.mem_of_getLast? hl)).1
            simp only [positionAfter, hl, Option.map_some, Option.getD_some]
            omega
      · intro r hm he
        rcases hassigned r hm with hbad | hin
        · rw [he] at hbad
          cases hbad
        · exact h.assigned _ hin
    · intro committed p hown
      obtain ⟨hnew, -, hpos, -⟩ := delivered hg.log (hpre p)
      refine ⟨by simp [ConsumerPc.inFlight], ?_, ?_⟩
      · intro st hf
        exact ⟨(hown.tracker st hf).1, (hown.tracker st hf).2.trans hpos⟩
      · intro r hr
        have hp : p ∈ c.assignment := by
          by_contra hp
          have hr' : r ∈ recordsOf batch p := hr
          rw [hnone p hp] at hr'
          cases hr'
        obtain ⟨st, hf⟩ := h.assigned p hp
        exact (hown.tracker st hf).2.trans (hnew r hr).2.1
  · cases hstep

theorem GroupSound.assign {g g' : ConsumerGroup} (h : GroupSound g) {i : ℕ} {c : KafkaEventConsumer}
    (hc : g.processes i = some c) {ps : List PartitionKey} (hstep : g.assign i c ps = some g') :
    GroupSound g' := by
  unfold ConsumerGroup.assign at hstep
  split_ifs at hstep with hguard
  rw [Bool.and_eq_true, List.all_eq_true] at hguard
  obtain ⟨hcb, hown⟩ := hguard
  obtain ⟨pipeline, hp, rfl⟩ := Option.map_eq_some_iff.mp hstep
  have hs := h.processes i c hc
  have hquiet := inCallback_quiet hcb
  have hb := ConsumerPc.quiet_batch hquiet
  have hin := ConsumerPc.quiet_inFlight hquiet
  simp only [ConsumerPipeline.step] at hp
  split_ifs at hp
  obtain rfl := Option.some.inj hp
  have hpipe := hs.pipeline.registry_call (hs.pipeline.valid.call (.assign ps)) (hs.pipeline.done.assign ps)
  have hnew : ∀ p st, p ∈ ps → (c.pipeline.registry.assign ps).find p = some st → st.tracker = {} := by
    intro p st hm hf
    obtain ⟨gen, hf', -⟩ := PartitionRegistry.assign_find c.pipeline.registry hm
    obtain rfl := Option.some.inj (hf'.symm.trans hf)
    rfl
  have hold : ∀ p, p ∉ ps → (c.pipeline.registry.assign ps).find p = c.pipeline.registry.find p :=
    fun p hm => PartitionRegistry.assign_find_other hm
  refine ⟨h.log, h.ended, h.below, ?_, ?_⟩
  · intro j d hd
    rcases ConsumerGroup.setProcess_some hd with ⟨rfl, rfl⟩ | ⟨-, hd⟩
    · refine ⟨hpipe, ?_, ?_, ?_, ?_, ?_, ?_, hs.resume⟩
      · intro p hm
        by_cases hps : p ∈ ps
        · obtain ⟨gen, hf, -⟩ := PartitionRegistry.assign_find c.pipeline.registry hps
          exact ⟨_, hf⟩
        · obtain ⟨st, hf⟩ := hs.assigned p ((List.mem_append.mp hm).resolve_right hps)
          exact ⟨st, (hold p hps).trans hf⟩
      · intro p st hf
        dsimp only at hf ⊢
        rw [hb]
        by_cases hps : p ∈ ps
        · rw [hnew p st hps hf, if_pos hps]
          refine ⟨by simp, ?_, by simp [recordsOf], List.Pairwise.nil, by simp [recordsOf], h.ended p⟩
          intro r hr hlt
          exact .inl (h.below p r hr hlt)
        · rw [if_neg hps]
          have ht := hs.tracked p st ((hold p hps).symm.trans hf)
          rwa [hb] at ht
      · intro r hm
        rw [show ConsumerPc.batch _ = [] from hb] at hm
        cases hm
      all_goals
        intro x hx
        rw [show ConsumerPc.inFlight _ = [] from hin] at hx
        cases hx
    · exact h.processes j d hd
  · intro p j d hj hd
    simp only [ConsumerGroup.setProcess] at hd hj
    by_cases hji : j = i
    · subst hji
      rw [Function.update_self] at hd
      obtain rfl := Option.some.inj hd
      refine ⟨?_, ?_, ?_⟩
      · intro x hx
        rw [show ConsumerPc.inFlight _ = [] from hin] at hx
        cases hx
      · intro st hf
        dsimp only at hf ⊢
        split_ifs at hj ⊢ with hps
        · rw [hnew p st hps hf]
          exact ⟨.empty _, le_rfl⟩
        · exact (h.owner p j c hj hc).tracker st ((hold p hps).symm.trans hf)
      · intro r hm
        rw [show ConsumerPc.batch _ = [] from hb] at hm
        cases hm
    · rw [Function.update_of_ne hji] at hd
      split_ifs at hj with hps
      · exact absurd (Option.some.inj hj).symm hji
      · exact h.owner p j d hj hd

theorem storeOffsets_cases (committed : PartitionKey → Option ℤ) (positions : List CommitPosition)
    (p : PartitionKey) : storeOffsets committed positions p = committed p ∨
      ∃ x ∈ positions, x.partition = p ∧ storeOffsets committed positions p = some x.offset := by
  induction positions generalizing committed with
  | nil => exact .inl rfl
  | cons c positions ih =>
    rw [storeOffsets]
    rcases ih (Function.update committed c.partition (some c.offset)) with he | ⟨x, hx, hp, he⟩
    · by_cases hp : p = c.partition
      · subst hp
        right
        exact ⟨c, List.mem_cons_self, rfl, by rw [he, Function.update_self]⟩
      · left
        rw [he, Function.update_of_ne hp]
    · exact .inr ⟨x, List.mem_cons_of_mem c hx, hp, he⟩

theorem GroupSound.commit {g : ConsumerGroup} (h : GroupSound g) {i : ℕ} {c : KafkaEventConsumer}
    (hc : g.processes i = some c) {applied : List CommitPosition} (hin : ∀ x ∈ applied, x ∈ c.pc.inFlight)
    (hown : g.ownsAll i applied = true) {pc : ConsumerPc}
    (hs : StepSound g.log g.history c { c with pc := pc }) (hpc : pc.inFlight = []) (hb : pc.batch = []) :
    GroupSound ((g.applyCommit applied).setProcess i { c with pc := pc }) ∧
      Advances g ((g.applyCommit applied).setProcess i { c with pc := pc }) := by
  have hsc := h.processes i c hc
  simp only [ownsAll, List.all_eq_true, decide_eq_true_eq] at hown
  have hstart : ∀ p, (g.applyCommit applied).startOffset p = g.startOffset p ∨
      ∃ x ∈ c.pc.inFlight, x.partition = p ∧ g.owner p = some i ∧
        (g.applyCommit applied).startOffset p = x.offset := by
    intro p
    rcases storeOffsets_cases g.committed applied p with he | ⟨x, hx, hp, he⟩
    · left
      simp only [startOffset, applyCommit, he]
    · right
      refine ⟨x, hin x hx, hp, hp ▸ hown x hx, ?_⟩
      simp only [startOffset, applyCommit, he, Option.getD_some]
  refine ⟨⟨h.log, ?_, ?_, ?_, ?_⟩, ?_⟩
  · intro p
    change (g.applyCommit applied).startOffset p ≤ _
    rcases hstart p with he | ⟨x, hx, rfl, -, he⟩
    · rw [he]
      exact h.ended p
    · rw [he]
      exact (hsc.settled x hx).1
  · intro p r hr hlt
    change r.offset < (g.applyCommit applied).startOffset p at hlt
    rcases hstart p with he | ⟨x, hx, rfl, -, he⟩
    · rw [he] at hlt
      exact h.below p r hr hlt
    · rw [he] at hlt
      exact (hsc.settled x hx).2 r hr hlt
  · intro j d hd
    rcases ConsumerGroup.setProcess_some hd with ⟨rfl, rfl⟩ | ⟨-, hd⟩
    · exact hs.sound
    · exact h.processes j d hd
  · intro p j d hj hd
    change OwnerBound ((g.applyCommit applied).startOffset p) d p
    rcases ConsumerGroup.setProcess_some hd with ⟨rfl, rfl⟩ | ⟨hji, hd⟩
    · have hold := hs.owner _ p (h.owner p j c hj hc)
      rcases hstart p with he | ⟨x, hx, rfl, -, he⟩
      · rw [he]
        exact hold
      · rw [he]
        refine ⟨by simp [hpc], fun st hf => hsc.bounded x hx st hf, ?_⟩
        simp [hb, recordsOf]
    · rcases hstart p with he | ⟨x, -, -, hxo, -⟩
      · rw [he]
        exact h.owner p j d hj hd
      · exact absurd (Option.some.inj (hxo.symm.trans hj)).symm hji
  · intro p o ho
    rcases storeOffsets_cases g.committed applied p with he | ⟨x, hx, rfl, he⟩
    · exact ⟨o, he.trans ho, le_rfl⟩
    · refine ⟨x.offset, he, ?_⟩
      have hle := (h.owner _ i c (hown x hx) hc).inFlight x (hin x hx) rfl
      rwa [startOffset, ho, Option.getD_some] at hle

theorem GroupSound.answered {g : ConsumerGroup} (h : GroupSound g) {i : ℕ} {c : KafkaEventConsumer}
    (hc : g.processes i = some c) {positions : List CommitPosition} {confirm : Bool} {resume : ConsumerPc}
    (hpc : c.pc = .committing positions confirm resume) {pc : ConsumerPc}
    (hnext : pc = .confirming positions resume ∨ pc = resume) :
    StepSound g.log g.history c { c with pc := pc } ∧ pc.inFlight = [] ∧ pc.batch = [] := by
  have hs := h.processes i c hc
  have hq : resume.quiet = true := by
    have hres := hs.resume
    rwa [hpc] at hres
  have hb : c.pc.batch = [] := by rw [hpc]; rfl
  rcases hnext with rfl | rfl
  · exact ⟨resume_sound hs hb rfl rfl hq, rfl, rfl⟩
  · have hb' := ConsumerPc.quiet_batch hq
    have hin := ConsumerPc.quiet_inFlight hq
    exact ⟨resume_sound hs hb hb' hin (ConsumerPc.quiet_resumesQuiet hq), hin, hb'⟩

theorem GroupSound.committed {g g' : ConsumerGroup} (h : GroupSound g) {i : ℕ}
    (hstep : g.step (.committed i) = some g') : GroupSound g' ∧ Advances g g' := by
  obtain ⟨c, hc, hnext⟩ := Option.bind_eq_some_iff.mp hstep
  split at hnext
  · rename_i positions confirm resume hpc
    have hmem : ∀ x ∈ positions, x ∈ c.pc.inFlight := by
      rw [hpc]
      exact fun x hx => hx
    split_ifs at hnext with hown
    · obtain rfl := Option.some.inj hnext
      obtain ⟨hs, hin, hb⟩ := h.answered hc hpc (.inl rfl)
      exact h.commit hc hmem hown hs hin hb
    · obtain rfl := Option.some.inj hnext
      obtain ⟨hs, hin, hb⟩ := h.answered hc hpc (.inr rfl)
      exact h.commit hc hmem hown hs hin hb
  · cases hnext

theorem GroupSound.commitFailed {g g' : ConsumerGroup} (h : GroupSound g) {i : ℕ}
    {applied : List CommitPosition} (hstep : g.step (.commitFailed i applied) = some g') :
    GroupSound g' ∧ Advances g g' := by
  obtain ⟨c, hc, hnext⟩ := Option.bind_eq_some_iff.mp hstep
  split at hnext
  · rename_i positions confirm resume hpc
    split_ifs at hnext with hguard
    obtain rfl := Option.some.inj hnext
    rw [Bool.and_eq_true, List.all_eq_true] at hguard
    obtain ⟨hs, hin, hb⟩ := h.answered hc hpc (.inr rfl)
    have hmem : ∀ x ∈ applied, x ∈ c.pc.inFlight := by
      rw [hpc]
      intro x hx
      exact of_decide_eq_true (hguard.1 x hx)
    exact h.commit hc hmem hguard.2 hs hin hb
  · cases hnext

theorem kafkaError_sound {log : PartitionLog} {history : List Settlement} {c c' : KafkaEventConsumer}
    (h : ConsumerSound log history c) (hstep : c.kafkaError = some c') : StepSound log history c c' := by
  unfold KafkaEventConsumer.kafkaError at hstep
  split at hstep
  · rename_i hpc
    split_ifs at hstep
    obtain rfl := Option.some.inj hstep
    exact resume_sound h (by rw [hpc]; rfl) rfl rfl rfl
  · rename_i hpc
    obtain rfl := Option.some.inj hstep
    exact resume_sound h (by rw [hpc]; rfl) rfl rfl rfl
  · cases hstep

theorem create_sound {log : PartitionLog} {history : List Settlement} (configuration : PipelineConfiguration) :
    ConsumerSound log history (.create configuration) := by
  refine ⟨PipelineSound.create configuration, by simp [KafkaEventConsumer.create], ?_,
    by simp [KafkaEventConsumer.create, ConsumerPc.batch], by simp [KafkaEventConsumer.create, ConsumerPc.inFlight],
    by simp [KafkaEventConsumer.create, ConsumerPc.inFlight],
    by simp [KafkaEventConsumer.create, ConsumerPc.inFlight], rfl⟩
  intro p st hf
  cases (PartitionRegistry.find_empty p).symm.trans hf

theorem create_owner (committed : ℤ) (configuration : PipelineConfiguration) (p : PartitionKey) :
    OwnerBound committed (.create configuration) p := by
  refine ⟨by simp [KafkaEventConsumer.create, ConsumerPc.inFlight], ?_,
    by simp [KafkaEventConsumer.create, ConsumerPc.batch, recordsOf]⟩
  intro st hf
  cases (PartitionRegistry.find_empty p).symm.trans hf

theorem GroupSound.step {g g' : ConsumerGroup} {a : GroupAction} (h : GroupSound g)
    (hstep : g.step a = some g') : GroupSound g' ∧ Advances g g' := by
  cases a with
  | produce r =>
    simp only [ConsumerGroup.step] at hstep
    split_ifs at hstep with hr
    obtain rfl := Option.some.inj hstep
    exact ⟨h.produce hr.1 hr.2, Advances.of_eq rfl⟩
  | loseOwner p =>
    obtain rfl := Option.some.inj hstep
    refine ⟨⟨h.log, h.ended, h.below, h.processes, ?_⟩, Advances.of_eq rfl⟩
    intro q i c hown hc
    dsimp only at hown
    by_cases hq : q = p
    · subst hq
      rw [Function.update_self] at hown
      cases hown
    · rw [Function.update_of_ne hq] at hown
      exact h.owner q i c hown hc
  | spawn i configuration =>
    simp only [ConsumerGroup.step] at hstep
    split_ifs at hstep
    obtain rfl := Option.some.inj hstep
    refine ⟨⟨h.log, h.ended, h.below, ?_, ?_⟩, Advances.of_eq rfl⟩
    · intro j d hd
      rcases ConsumerGroup.setProcess_some hd with ⟨rfl, rfl⟩ | ⟨-, hd⟩
      · exact create_sound configuration
      · exact h.processes j d hd
    · intro p j d hown hd
      rcases ConsumerGroup.setProcess_some hd with ⟨rfl, rfl⟩ | ⟨-, hd⟩
      · exact create_owner _ configuration p
      · exact h.owner p j d hown hd
  | crash i =>
    obtain rfl := Option.some.inj hstep
    have hkept : ∀ j d, Function.update g.processes i none j = some d → g.processes j = some d := by
      intro j d hd
      by_cases hj : j = i
      · subst hj
        rw [Function.update_self] at hd
        cases hd
      · rwa [Function.update_of_ne hj] at hd
    exact ⟨⟨h.log, h.ended, h.below, fun j d hd => h.processes j d (hkept j d hd),
      fun p j d hown hd => h.owner p j d hown (hkept j d hd)⟩, Advances.of_eq rfl⟩
  | requestStop i =>
    obtain ⟨c, hc, rfl⟩ := Option.map_eq_some_iff.mp hstep
    have hs := h.processes i c hc
    refine ⟨h.update hc ⟨⟨hs.pipeline, hs.assigned, hs.tracked, hs.batch, hs.settled, hs.bounded, hs.unique,
      hs.resume⟩, fun v p hown => ⟨hown.inFlight, hown.tracker, hown.batch⟩⟩, Advances.of_eq rfl⟩
  | assigned i ps =>
    obtain ⟨c, hc, hnext⟩ := Option.bind_eq_some_iff.mp hstep
    refine ⟨h.assign hc hnext, Advances.of_eq ?_⟩
    unfold ConsumerGroup.assign at hnext
    split_ifs at hnext
    obtain ⟨pipeline, -, rfl⟩ := Option.map_eq_some_iff.mp hnext
    rfl
  | revoked i ps =>
    obtain ⟨c, hc, hnext⟩ := Option.bind_eq_some_iff.mp hstep
    unfold ConsumerGroup.revoke at hnext
    split_ifs at hnext with hcb
    obtain ⟨pipeline, hp, rfl⟩ := Option.map_eq_some_iff.mp hnext
    exact ⟨h.update hc (revoke_sound h.log (h.processes i c hc) hcb hp), Advances.of_eq rfl⟩
  | polled i batch =>
    obtain ⟨c, hc, hnext⟩ := Option.bind_eq_some_iff.mp hstep
    split_ifs at hnext with hd
    obtain ⟨c', hc', rfl⟩ := Option.map_eq_some_iff.mp hnext
    exact ⟨h.update hc (poll_sound h (h.processes i c hc) hd hc'), Advances.of_eq rfl⟩
  | kafkaError i =>
    obtain ⟨c, hc, hnext⟩ := Option.bind_eq_some_iff.mp hstep
    obtain ⟨c', hc', rfl⟩ := Option.map_eq_some_iff.mp hnext
    exact ⟨h.update hc (kafkaError_sound (h.processes i c hc) hc'), Advances.of_eq rfl⟩
  | proceed i due =>
    obtain ⟨c, hc, hnext⟩ := Option.bind_eq_some_iff.mp hstep
    refine ⟨h.settle hc (fun _ _ hp => proceed_sound h.log (h.processes i c hc) hp) hnext, Advances.of_eq ?_⟩
    obtain ⟨x, -, rfl⟩ := Option.map_eq_some_iff.mp hnext
    rfl
  | committed i => exact h.committed hstep
  | commitFailed i applied => exact h.commitFailed hstep
  | worker i a =>
    obtain ⟨c, hc, hnext⟩ := Option.bind_eq_some_iff.mp hstep
    split_ifs at hnext with ha
    refine ⟨h.settle hc (fun _ _ hp => quiet_step_sound h.log (h.processes i c hc) (.inl ha) hp) hnext,
      Advances.of_eq ?_⟩
    obtain ⟨x, -, rfl⟩ := Option.map_eq_some_iff.mp hnext
    rfl

theorem GroupSound.run {g g' : ConsumerGroup} {actions : List GroupAction} (h : GroupSound g)
    (hrun : Transitions.run ConsumerGroup.step g actions = some g') : GroupSound g' :=
  run_invariant (fun _ _ _ hs hstep => (hs.step hstep).1) h hrun

theorem GroupSound.advances {g g' : ConsumerGroup} {actions : List GroupAction} (h : GroupSound g)
    (hrun : Transitions.run ConsumerGroup.step g actions = some g') : Advances g g' :=
  run_relates (I := GroupSound) (fun _ => Advances.of_eq rfl) (fun _ _ _ => Advances.trans)
    (fun _ _ _ hs hstep => (hs.step hstep).1) (fun _ _ _ hs hstep => (hs.step hstep).2) h hrun

/-- At-least-once consumption: in every run of any number of processes no committed offset moves back,
and every record below one was handled successfully, dead-lettered, or skipped without a valid event id. -/
theorem at_least_once (before after : List GroupAction) (g g' : ConsumerGroup)
    (hb : Transitions.run ConsumerGroup.step {} before = some g)
    (ha : Transitions.run ConsumerGroup.step g after = some g') :
    Advances g g' ∧ ∀ p o, g'.committed p = some o → ∀ r ∈ g'.log p, r.offset < o → r.Settled g'.history := by
  have hg := GroupSound.empty.run hb
  constructor
  · exact hg.advances ha
  · intro p o ho r hr hlt
    have hbelow := (hg.run ha).below p r hr
    rw [startOffset, ho, Option.getD_some] at hbelow
    exact hbelow hlt

def firstPoll : List GroupAction :=
  [.produce ⟨⟨"orders", 0⟩, 4, "{}", [("eventId", "550e8400-e29b-41d4-a716-446655440000")], false⟩,
    .spawn 0 {}, .assigned 0 [⟨"orders", 0⟩], .proceed 0 false, .proceed 0 false,
    .polled 0 [⟨⟨"orders", 0⟩, 4, "{}", [("eventId", "550e8400-e29b-41d4-a716-446655440000")], false⟩]]

def firstCommit : List GroupAction :=
  [.proceed 0 false, .proceed 0 false, .proceed 0 false, .proceed 0 false, .proceed 0 false, .proceed 0 false,
    .worker 0 (.take 1), .worker 0 (.execute 1 .none), .worker 0 (.execute 1 .none),
    .worker 0 (.execute 1 (.handler (.returned true))), .worker 0 (.execute 1 .none),
    .proceed 0 false, .proceed 0 false, .proceed 0 true, .commitFailed 0 [⟨⟨"orders", 0⟩, 5, 1⟩]]

theorem at_least_once_first :
    ∃ g g', Transitions.run ConsumerGroup.step {} firstPoll = some g ∧
      Transitions.run ConsumerGroup.step g firstCommit = some g' ∧
      g'.committed ⟨"orders", 0⟩ = some 5 ∧ Advances g g' ∧
      ∀ p o, g'.committed p = some o → ∀ r ∈ g'.log p, r.offset < o → r.Settled g'.history := by
  have hrun : (Transitions.run ConsumerGroup.step {} firstPoll).isSome = true := by decide
  have hcom : ((Transitions.run ConsumerGroup.step {} firstPoll).bind
      (fun g => Transitions.run ConsumerGroup.step g firstCommit)).map
        (fun g => g.committed ⟨"orders", 0⟩) = some (some 5) := by decide
  obtain ⟨g, hg⟩ := Option.isSome_iff_exists.mp hrun
  rw [hg, Option.bind_some] at hcom
  obtain ⟨g', hg', hc⟩ := Option.map_eq_some_iff.mp hcom
  exact ⟨g, g', hg, hg', hc, at_least_once firstPoll firstCommit g g' hg hg'⟩

end ConsumerGroup

end LiquidPetProject.Messaging
