import LiquidPetProject.PipelineSoundness

namespace LiquidPetProject.Messaging

open ConsumerGroup

namespace OffsetTracker

structure Shrinks (t t' : OffsetTracker) : Prop where
  last : t'.lastRegistered = t.lastRegistered
  kept : ∀ e ∈ t.entries, (∃ e' ∈ t'.entries, e'.offset = e.offset) ∨ e.done = true
  bound : ∀ c, CommitBound t c → CommitBound t' c

theorem Shrinks.refl (t : OffsetTracker) : Shrinks t t :=
  ⟨rfl, fun e he => .inl ⟨e, he, rfl⟩, fun _ => id⟩

theorem Shrinks.complete {t : OffsetTracker} (h : t.Valid) (o : ℤ) : Shrinks t (t.complete o).2 := by
  refine ⟨?_, ?_, fun c hc => hc.complete h o⟩
  · rw [complete_eq h]
    split_ifs <;> rfl
  · rw [complete_eq h]
    split_ifs
    · exact fun e he => .inl ⟨e, he, rfl⟩
    · intro e he
      obtain ⟨f, hf, hfo, -⟩ := OffsetTracker.markDone_mem (o := o) he
      exact .inl ⟨f, hf, hfo⟩
    · exact fun e he => .inl ⟨e, he, rfl⟩

theorem Shrinks.confirmCommit {t : OffsetTracker} (h : t.Valid) (p : ℤ) : Shrinks t (t.confirmCommit p).2 := by
  refine ⟨?_, ?_, fun c hc => hc.confirmCommit h p⟩
  · rw [confirmCommit_eq h]
    split_ifs <;> rfl
  · rw [confirmCommit_eq h]
    split_ifs with _ hw
    · exact fun e he => .inl ⟨e, he, rfl⟩
    · exact fun e he => .inl ⟨e, he, rfl⟩
    · intro e he
      by_cases hp : p ≤ e.offset
      · exact .inl ⟨e, (not_covered h.sorted).mpr ⟨he, hp⟩, rfl⟩
      · exact .inr (covered_done h hw e he (by omega))

end OffsetTracker

namespace PartitionRegistry

structure Shrinks (reg reg' : PartitionRegistry) : Prop where
  tracker : ∀ p st', reg'.find p = some st' →
    ∃ st, reg.find p = some st ∧ st.tracker.Shrinks st'.tracker
  assigned : ∀ p st, reg.find p = some st → ∃ st', reg'.find p = some st'

theorem Shrinks.refl (reg : PartitionRegistry) : Shrinks reg reg :=
  ⟨fun _ st hf => ⟨st, hf, .refl _⟩, fun _ st hf => ⟨st, hf⟩⟩

theorem Shrinks.insertOrAssign {reg : PartitionRegistry} {p : PartitionKey} {st st' : PartitionState}
    (hf : reg.find p = some st) (h : st.tracker.Shrinks st'.tracker) :
    Shrinks reg (reg.insertOrAssign p st') := by
  constructor
  · intro q x hx
    rw [find_insertOrAssign] at hx
    split_ifs at hx with hp
    · obtain rfl := Option.some.inj hx
      exact ⟨st, hp ▸ hf, h⟩
    · exact ⟨x, hx, .refl _⟩
  · intro q x hx
    rw [find_insertOrAssign]
    split_ifs
    · exact ⟨st', rfl⟩
    · exact ⟨x, hx⟩

theorem Shrinks.complete {reg : PartitionRegistry} (hv : reg.Valid) (t : RecordTicket) :
    Shrinks reg (reg.complete t).2 := by
  cases hc : reg.isCurrent t with
  | false =>
    rw [complete_of_stale hc]
    exact .refl reg
  | true =>
    obtain ⟨st, hf, hg⟩ := isCurrent_iff.mp hc
    rw [complete_of_current hf hg]
    exact .insertOrAssign hf (.complete (hv.tracker _ st hf) t.offset)

theorem Shrinks.confirmCommit {reg : PartitionRegistry} (hv : reg.Valid) (c : CommitPosition) :
    Shrinks reg (reg.confirmCommit c).2 := by
  cases hc : reg.isCurrent c.ticket with
  | false =>
    rw [confirmCommit_of_stale hc]
    exact .refl reg
  | true =>
    obtain ⟨st, hf, hg⟩ := isCurrent_iff.mp hc
    rw [confirmCommit_of_current hf hg]
    exact .insertOrAssign hf (.confirmCommit (hv.tracker _ st hf) c.offset)

end PartitionRegistry

theorem quiet_step_registry {config : PipelineConfiguration} {s s' : ConsumerPipeline} {a : PipelineAction}
    (ha : a.ofWorker = true ∨ a = .reader) (h : s.step config a = some s') :
    s'.registry = s.registry ∨ ∃ t, s'.registry = (s.registry.complete t).2 := by
  rcases ha with ha | rfl
  · cases a with
    | take i =>
      obtain ⟨pool, -, rfl⟩ := Option.map_eq_some_iff.mp h
      exact .inl rfl
    | execute i reply =>
      simp only [ConsumerPipeline.step, ConsumerPipeline.executeStep] at h
      split at h
      · obtain ⟨⟨events, reg, pc'⟩, hstep, rfl⟩ := Option.map_eq_some_iff.mp h
        rcases RecordExecutor.step_registry hstep with ⟨rfl, -⟩ | ⟨rfl, -⟩
        · exact .inl rfl
        · exact .inr ⟨_, rfl⟩
      · cases h
    | finish i =>
      obtain ⟨pool, -, rfl⟩ := Option.map_eq_some_iff.mp h
      exact .inl rfl
    | exit i =>
      obtain ⟨pool, -, rfl⟩ := Option.map_eq_some_iff.mp h
      exact .inl rfl
    | _ => cases ha
  · simp only [ConsumerPipeline.step, ConsumerPipeline.readerStep] at h
    cases hr : s.reader with
    | idle => simp [hr] at h
    | ingesting t record =>
      obtain rfl : s.admitRecord t record = s' := by simpa [hr] using h
      unfold ConsumerPipeline.admitRecord
      split
      · exact .inl rfl
      · exact .inr ⟨t, rfl⟩
    | pumping =>
      obtain rfl : s.submitFront = s' := by simpa [hr] using h
      left
      rcases s.submitFront_cases with he | ⟨item, rest, -, he⟩
      · rw [he]
      · rw [he]
    | stopping next =>
      simp only [hr] at h
      split_ifs at h
      · obtain rfl := Option.some.inj h
        exact .inl rfl
      · obtain rfl := Option.some.inj h
        exact .inl rfl
    | _ =>
      simp only [hr] at h
      obtain rfl := Option.some.inj h
      exact .inl rfl

theorem quiet_step_shrinks {config : PipelineConfiguration} {s s' : ConsumerPipeline} {a : PipelineAction}
    (hv : s.registry.Valid) (ha : a.ofWorker = true ∨ a = .reader) (h : s.step config a = some s') :
    s.registry.Shrinks s'.registry := by
  rcases quiet_step_registry ha h with hreg | ⟨t, hreg⟩
  · rw [hreg]
    exact .refl _
  · rw [hreg]
    exact .complete hv t

def ConsumerPc.batch : ConsumerPc → List ConsumerRecord
  | .ingesting rest => rest
  | _ => []

def ConsumerPc.inFlight : ConsumerPc → List CommitPosition
  | .revoking positions _ => positions
  | .committing positions _ _ => positions
  | _ => []

def ConsumerPc.quiet : ConsumerPc → Bool
  | .subscribing => true
  | .looping => true
  | .polling => true
  | .closing => true
  | _ => false

def ConsumerPc.resumesQuiet : ConsumerPc → Bool
  | .revoking _ resume => resume.quiet
  | .committing _ _ resume => resume.quiet
  | .confirming _ resume => resume.quiet
  | _ => true

theorem ConsumerPc.quiet_batch {pc : ConsumerPc} (h : pc.quiet = true) : pc.batch = [] := by
  cases pc with
  | ingesting rest => cases h
  | _ => rfl

theorem ConsumerPc.quiet_inFlight {pc : ConsumerPc} (h : pc.quiet = true) : pc.inFlight = [] := by
  cases pc with
  | revoking ps resume => cases h
  | committing ps confirm resume => cases h
  | _ => rfl

theorem ConsumerPc.quiet_resumesQuiet {pc : ConsumerPc} (h : pc.quiet = true) : pc.resumesQuiet = true := by
  cases pc with
  | revoking ps resume => cases h
  | committing ps confirm resume => cases h
  | confirming ps resume => cases h
  | _ => rfl

/-- The records of one partition that the consumer was given: each of them is settled, is an entry of
the tracker, or waits in the batch. -/
structure Tracked (records : List ConsumerRecord) (history : List Settlement) (t : OffsetTracker)
    (position : ℤ) (batch : List ConsumerRecord) : Prop where
  registered : ∀ last, t.lastRegistered = some last → last < position
  covered : ∀ r ∈ records, r.offset < position →
    r.Settled history ∨ (∃ e ∈ t.entries, e.offset = r.offset) ∨ r ∈ batch
  next : ∀ r ∈ batch, ∀ last, t.lastRegistered = some last → last < r.offset
  sorted : batch.Pairwise (fun a b => a.offset < b.offset)
  inLog : ∀ r ∈ batch, r ∈ records ∧ r.offset < position
  ended : position ≤ logEnd records

structure ConsumerSound (log : PartitionLog) (history : List Settlement) (c : KafkaEventConsumer) : Prop where
  pipeline : PipelineSound log history c.pipeline
  assigned : ∀ p ∈ c.assignment, ∃ st, c.pipeline.registry.find p = some st
  tracked : ∀ p st, c.pipeline.registry.find p = some st →
    Tracked (log p) history st.tracker (c.position p) (recordsOf c.pc.batch p)
  batch : ∀ r ∈ c.pc.batch, r.error = false → ∃ st, c.pipeline.registry.find r.partition = some st
  settled : ∀ x ∈ c.pc.inFlight, x.offset ≤ logEnd (log x.partition) ∧
    ∀ r ∈ log x.partition, r.offset < x.offset → r.Settled history
  bounded : ∀ x ∈ c.pc.inFlight, ∀ st, c.pipeline.registry.find x.partition = some st →
    st.tracker.CommitBound x.offset ∧ x.offset ≤ c.position x.partition
  unique : ∀ x ∈ c.pc.inFlight, ∀ y ∈ c.pc.inFlight, x.partition = y.partition → x = y
  resume : c.pc.resumesQuiet = true

structure OwnerBound (committed : ℤ) (c : KafkaEventConsumer) (p : PartitionKey) : Prop where
  inFlight : ∀ x ∈ c.pc.inFlight, x.partition = p → committed ≤ x.offset
  tracker : ∀ st, c.pipeline.registry.find p = some st →
    st.tracker.CommitBound committed ∧ committed ≤ c.position p
  batch : ∀ r ∈ recordsOf c.pc.batch p, committed ≤ r.offset

structure LogSound (log : PartitionLog) : Prop where
  sorted : ∀ p, (log p).Pairwise (fun a b => a.offset < b.offset)
  record : ∀ p, ∀ r ∈ log p, r.partition = p ∧ r.error = false

theorem LogSound.lt_logEnd {log : PartitionLog} (h : LogSound log) {p : PartitionKey} {r : ConsumerRecord}
    (hr : r ∈ log p) : r.offset < logEnd (log p) := by
  have hs := h.sorted p
  rcases List.eq_nil_or_concat (log p) with hnil | ⟨rs, x, hx⟩
  · rw [hnil] at hr
    cases hr
  · rw [List.concat_eq_append] at hx
    rw [hx] at hr hs ⊢
    have hlast : logEnd (rs ++ [x]) = x.offset + 1 := by simp [logEnd]
    rw [hlast]
    rcases List.mem_append.mp hr with hm | hm
    · have := (List.pairwise_append.mp hs).2.2 r hm x (List.mem_singleton_self x)
      omega
    · rw [List.mem_singleton.mp hm]
      omega

theorem LogSound.settled {log : PartitionLog} (h : LogSound log) {history : List Settlement}
    {p : PartitionKey} {r : ConsumerRecord} (hr : r ∈ log p) (hs : SettledAt log history p r.offset) :
    r.Settled history := by
  obtain ⟨r', hr', ho, hset⟩ := hs
  have hinj : ((log p).map ConsumerRecord.offset).Nodup :=
    List.pairwise_map.mpr ((h.sorted p).imp (fun hab => hab.ne))
  rwa [List.inj_on_of_nodup_map hinj hr' hr ho] at hset

structure LogGrows (log log' : PartitionLog) : Prop where
  kept : LogExtends log log'
  ended : ∀ p, logEnd (log p) ≤ logEnd (log' p)
  fresh : ∀ p, ∀ r ∈ log' p, r.offset < logEnd (log p) → r ∈ log p

theorem LogGrows.refl (log : PartitionLog) : LogGrows log log :=
  ⟨fun p => List.Subset.refl (log p), fun _ => le_rfl, fun _ _ hr _ => hr⟩

theorem Tracked.mono {log log' : PartitionLog} {history history' : List Settlement} {p : PartitionKey}
    {t : OffsetTracker} {position : ℤ} {batch : List ConsumerRecord}
    (h : Tracked (log p) history t position batch) (hlog : LogGrows log log') (hsub : history ⊆ history') :
    Tracked (log' p) history' t position batch where
  registered := h.registered
  covered r hr hlt := by
    have hold := hlog.fresh p r hr (hlt.trans_le h.ended)
    exact (h.covered r hold hlt).imp_left (fun hs => hs.mono hsub)
  next := h.next
  sorted := h.sorted
  inLog r hr := ⟨hlog.kept p (h.inLog r hr).1, (h.inLog r hr).2⟩
  ended := h.ended.trans (hlog.ended p)

theorem ConsumerSound.mono {log log' : PartitionLog} {history history' : List Settlement}
    {c : KafkaEventConsumer} (h : ConsumerSound log history c) (hlog : LogGrows log log')
    (hsub : history ⊆ history') : ConsumerSound log' history' c where
  pipeline := h.pipeline.mono hlog.kept hsub
  assigned := h.assigned
  tracked p st hf := (h.tracked p st hf).mono hlog hsub
  batch := h.batch
  settled x hx := by
    obtain ⟨hle, hset⟩ := h.settled x hx
    refine ⟨hle.trans (hlog.ended _), fun r hr hlt => ?_⟩
    exact (hset r (hlog.fresh _ r hr (hlt.trans_le hle)) hlt).mono hsub
  bounded := h.bounded
  unique := h.unique
  resume := h.resume

theorem Tracked.shrink {log : PartitionLog} (hl : LogSound log) {history history' : List Settlement}
    {p : PartitionKey} {t t' : OffsetTracker} {position : ℤ} {batch : List ConsumerRecord}
    (h : Tracked (log p) history t position batch) (hsub : history ⊆ history') (ht : t.Shrinks t')
    (hd : ∀ e ∈ t.entries, e.done = true → SettledAt log history' p e.offset) :
    Tracked (log p) history' t' position batch where
  registered := by
    rw [ht.last]
    exact h.registered
  covered r hr hlt := by
    rcases h.covered r hr hlt with hs | ⟨e, he, ho⟩ | hb
    · exact .inl (hs.mono hsub)
    · rcases ht.kept e he with ⟨e', he', ho'⟩ | hdone
      · exact .inr (.inl ⟨e', he', ho'.trans ho⟩)
      · exact .inl (hl.settled hr (ho ▸ hd e he hdone))
    · exact .inr (.inr hb)
  next := by
    rw [ht.last]
    exact h.next
  sorted := h.sorted
  inLog := h.inLog
  ended := h.ended

theorem ConsumerSound.shrink {log : PartitionLog} (hl : LogSound log) {history history' : List Settlement}
    {c : KafkaEventConsumer} {s' : ConsumerPipeline} (h : ConsumerSound log history c)
    (hsub : history ⊆ history') (hp : PipelineSound log history' s')
    (hr : c.pipeline.registry.Shrinks s'.registry) :
    ConsumerSound log history' { c with pipeline := s' } where
  pipeline := hp
  assigned p hm := by
    obtain ⟨st, hf⟩ := h.assigned p hm
    exact hr.assigned p st hf
  tracked p st' hf' := by
    obtain ⟨st, hf, ht⟩ := hr.tracker p st' hf'
    refine (h.tracked p st hf).shrink hl hsub ht (fun e he hd => ?_)
    exact (h.pipeline.done p st hf e he hd).mono (fun q => List.Subset.refl (log q)) hsub
  batch r hm he := by
    obtain ⟨st, hf⟩ := h.batch r hm he
    exact hr.assigned _ st hf
  settled x hx := ⟨(h.settled x hx).1, fun r hm hlt => ((h.settled x hx).2 r hm hlt).mono hsub⟩
  bounded x hx st' hf' := by
    obtain ⟨st, hf, ht⟩ := hr.tracker _ st' hf'
    exact ⟨ht.bound _ (h.bounded x hx st hf).1, (h.bounded x hx st hf).2⟩
  unique := h.unique
  resume := h.resume

theorem OwnerBound.shrink {committed : ℤ} {c : KafkaEventConsumer} {p : PartitionKey}
    {s' : ConsumerPipeline} (h : OwnerBound committed c p) (hr : c.pipeline.registry.Shrinks s'.registry) :
    OwnerBound committed { c with pipeline := s' } p where
  inFlight := h.inFlight
  tracker st' hf' := by
    obtain ⟨st, hf, ht⟩ := hr.tracker _ st' hf'
    exact ⟨ht.bound _ (h.tracker st hf).1, (h.tracker st hf).2⟩
  batch := h.batch

theorem ConsumerSound.setPc {log : PartitionLog} {history : List Settlement} {c : KafkaEventConsumer}
    (h : ConsumerSound log history c) {pc : ConsumerPc} (paused : Bool) (hin : pc.inFlight ⊆ c.pc.inFlight)
    (hb : pc.batch ⊆ c.pc.batch) (hr : ∀ p, recordsOf pc.batch p = recordsOf c.pc.batch p)
    (hq : pc.resumesQuiet = true) : ConsumerSound log history { c with paused := paused, pc := pc } where
  pipeline := h.pipeline
  assigned := h.assigned
  tracked p st hf := by
    rw [hr p]
    exact h.tracked p st hf
  batch r hm he := h.batch r (hb hm) he
  settled x hx := h.settled x (hin hx)
  bounded x hx := h.bounded x (hin hx)
  unique x hx y hy := h.unique x (hin hx) y (hin hy)
  resume := hq

theorem OwnerBound.setPc {committed : ℤ} {c : KafkaEventConsumer} {p : PartitionKey}
    (h : OwnerBound committed c p) {pc : ConsumerPc} (paused : Bool) (hin : pc.inFlight ⊆ c.pc.inFlight)
    (hr : recordsOf pc.batch p = recordsOf c.pc.batch p) :
    OwnerBound committed { c with paused := paused, pc := pc } p where
  inFlight x hx := h.inFlight x (hin hx)
  tracker := h.tracker
  batch := by
    rw [hr]
    exact h.batch

def IsCandidate (reg : PartitionRegistry) (x : CommitPosition) : Prop :=
  ∃ st, reg.find x.partition = some st ∧ PartitionRegistry.candidate x.partition st = some x

theorem IsCandidate.unique {reg : PartitionRegistry} {x y : CommitPosition} (hx : IsCandidate reg x)
    (hy : IsCandidate reg y) (h : x.partition = y.partition) : x = y := by
  obtain ⟨st, hf, hc⟩ := hx
  obtain ⟨st', hf', hc'⟩ := hy
  rw [h] at hf hc
  obtain rfl := Option.some.inj (hf.symm.trans hf')
  exact Option.some.inj (hc.symm.trans hc')

theorem revoke_candidate {reg : PartitionRegistry} {ps : List PartitionKey} {x : CommitPosition}
    (hx : x ∈ (reg.revoke ps).1) : x.partition ∈ ps ∧ IsCandidate reg x := by
  have hmem : x ∈ (reg.revoke ps).1.filter (fun c => c.partition = x.partition) := by simp [hx]
  rw [PartitionRegistry.revoke_filter] at hmem
  split_ifs at hmem with hp
  · obtain ⟨st, hf, hc⟩ := Option.bind_eq_some_iff.mp (Option.mem_toList.mp hmem)
    exact ⟨hp, st, hf, hc⟩
  · cases hmem

theorem Tracked.candidate {log : PartitionLog} (hl : LogSound log) {history : List Settlement}
    {p : PartitionKey} {t : OffsetTracker} {position : ℤ} (hv : t.Valid)
    (h : Tracked (log p) history t position [])
    (hd : ∀ e ∈ t.entries, e.done = true → SettledAt log history p e.offset) {w : ℤ}
    (hw : t.commitCandidate = some w) :
    w ≤ position ∧ ∀ r ∈ log p, r.offset < w → r.Settled history := by
  obtain ⟨e, he, rfl, hall, -⟩ := OffsetTracker.commitCandidate_some hv hw
  obtain ⟨last, hlast, hle⟩ := hv.registered e he
  have hpos := h.registered last hlast
  refine ⟨by omega, fun r hr hlt => ?_⟩
  rcases h.covered r hr (by omega) with hs | ⟨f, hf, ho⟩ | hb
  · exact hs
  · exact hl.settled hr (ho ▸ hd f hf (hall f hf (by omega)))
  · cases hb

structure Committable (log : PartitionLog) (history : List Settlement) (c : KafkaEventConsumer)
    (x : CommitPosition) : Prop where
  ended : x.offset ≤ logEnd (log x.partition)
  settled : ∀ r ∈ log x.partition, r.offset < x.offset → r.Settled history
  bounded : ∀ st, c.pipeline.registry.find x.partition = some st →
    st.tracker.CommitBound x.offset ∧ x.offset ≤ c.position x.partition
  owner : ∀ v, OwnerBound v c x.partition → v ≤ x.offset

theorem ConsumerSound.committable {log : PartitionLog} (hl : LogSound log) {history : List Settlement}
    {c : KafkaEventConsumer} (h : ConsumerSound log history c) (hb : c.pc.batch = []) {x : CommitPosition}
    (hx : IsCandidate c.pipeline.registry x) : Committable log history c x := by
  obtain ⟨st, hf, hc⟩ := hx
  obtain ⟨w, hw, hxw⟩ := Option.map_eq_some_iff.mp hc
  have hxo : x.offset = w := (congrArg CommitPosition.offset hxw).symm
  have hv := h.pipeline.valid.tracker _ st hf
  have ht := h.tracked _ st hf
  rw [hb] at ht
  obtain ⟨hpos, hset⟩ := ht.candidate hl hv (h.pipeline.done _ st hf) hw
  rw [← hxo] at hw hpos hset
  constructor
  · exact hpos.trans ht.ended
  · exact hset
  · intro st' hf'
    obtain rfl := Option.some.inj (hf.symm.trans hf')
    exact ⟨.of_candidate hv hw, hpos⟩
  · intro v hown
    exact (hown.tracker st hf).1.candidate _ hw

theorem ConsumerSound.commit {log : PartitionLog} {history : List Settlement} {c c' : KafkaEventConsumer}
    (h : ConsumerSound log history c) (hpipe : PipelineSound log history c'.pipeline)
    (hsub : ∀ p st, c'.pipeline.registry.find p = some st → c.pipeline.registry.find p = some st)
    (hassigned : ∀ p ∈ c'.assignment, ∃ st, c'.pipeline.registry.find p = some st)
    (hpos : c'.position = c.position) (hb : c.pc.batch = []) (hb' : c'.pc.batch = [])
    (hx : ∀ x ∈ c'.pc.inFlight, IsCandidate c.pipeline.registry x ∧ Committable log history c x)
    (hq : c'.pc.resumesQuiet = true) : ConsumerSound log history c' where
  pipeline := hpipe
  assigned := hassigned
  tracked p st hf := by
    have ht := h.tracked p st (hsub p st hf)
    rw [hpos, hb']
    rwa [hb] at ht
  batch r hm := by
    rw [hb'] at hm
    cases hm
  settled x hm := ⟨(hx x hm).2.ended, (hx x hm).2.settled⟩
  bounded x hm st hf := by
    rw [hpos]
    exact (hx x hm).2.bounded st (hsub _ st hf)
  unique x hm y hm' he := (hx x hm).1.unique (hx y hm').1 he
  resume := hq

theorem OwnerBound.commit {log : PartitionLog} {history : List Settlement} {c c' : KafkaEventConsumer}
    {committed : ℤ} {p : PartitionKey} (h : OwnerBound committed c p)
    (hsub : ∀ p st, c'.pipeline.registry.find p = some st → c.pipeline.registry.find p = some st)
    (hpos : c'.position = c.position) (hb' : c'.pc.batch = [])
    (hx : ∀ x ∈ c'.pc.inFlight, IsCandidate c.pipeline.registry x ∧ Committable log history c x) :
    OwnerBound committed c' p where
  inFlight x hm hp := by
    subst hp
    exact (hx x hm).2.owner committed h
  tracker st hf := by
    rw [hpos]
    exact h.tracker st (hsub p st hf)
  batch r hm := by
    rw [hb'] at hm
    cases hm

theorem commitOffsets_batch (positions : List CommitPosition) (confirm : Bool) {resume : ConsumerPc}
    (hq : resume.quiet = true) :
    (KafkaEventConsumer.commitOffsets positions confirm resume).batch = [] ∧
      (KafkaEventConsumer.commitOffsets positions confirm resume).inFlight = positions ∧
      (KafkaEventConsumer.commitOffsets positions confirm resume).resumesQuiet = true := by
  unfold KafkaEventConsumer.commitOffsets
  split_ifs with he
  · rw [List.isEmpty_iff.mp he]
    exact ⟨ConsumerPc.quiet_batch hq, ConsumerPc.quiet_inFlight hq, ConsumerPc.quiet_resumesQuiet hq⟩
  · exact ⟨rfl, rfl, hq⟩

theorem Tracked.ingest {records : List ConsumerRecord} {history : List Settlement} {t : OffsetTracker}
    {position : ℤ} {r : ConsumerRecord} {batch : List ConsumerRecord} (hv : t.Valid)
    (h : Tracked records history t position (r :: batch)) :
    Tracked records history (t.registerRecord r.offset).2 position batch := by
  have hnext : ¬ t.lastRegistered.any (fun last => r.offset ≤ last) := by
    rw [Option.any_eq_true]
    rintro ⟨last, hl, hle⟩
    have := h.next r List.mem_cons_self last hl
    simp only [decide_eq_true_eq] at hle
    omega
  have hsorted := List.pairwise_cons.mp h.sorted
  rw [OffsetTracker.registerRecord_eq hv, if_neg hnext]
  constructor
  · rintro last ⟨rfl⟩
    exact (h.inLog r List.mem_cons_self).2
  · intro x hx hlt
    rcases h.covered x hx hlt with hs | ⟨e, he, ho⟩ | hm
    · exact .inl hs
    · exact .inr (.inl ⟨e, List.mem_append_left _ he, ho⟩)
    · rcases List.mem_cons.mp hm with rfl | hm
      · exact .inr (.inl ⟨⟨x.offset, false⟩, by simp, rfl⟩)
      · exact .inr (.inr hm)
  · rintro x hx last ⟨rfl⟩
    exact hsorted.1 x hx
  · exact hsorted.2
  · exact fun x hx => h.inLog x (List.mem_cons_of_mem r hx)
  · exact h.ended

theorem register_registry (s : ConsumerPipeline) (record : IncomingRecord) :
    (s.register record).registry = (s.registry.registerRecord record.partition record.offset).2 := by
  unfold ConsumerPipeline.register
  rcases s.registry.registerRecord record.partition record.offset with ⟨res, reg⟩
  cases res <;> rfl

theorem recordsOf_cons (r : ConsumerRecord) (rest : List ConsumerRecord) (p : PartitionKey) :
    recordsOf (r :: rest) p = if r.error = false ∧ r.partition = p then r :: recordsOf rest p else recordsOf rest p := by
  unfold recordsOf
  rw [List.filter_cons]
  simp only [decide_eq_true_eq]

theorem ConsumerSound.ingest {log : PartitionLog} {history : List Settlement} {c : KafkaEventConsumer}
    (h : ConsumerSound log history c) {r : ConsumerRecord} {rest : List ConsumerRecord}
    (hpc : c.pc = .ingesting (r :: rest)) (he : r.error = false) :
    ConsumerSound log history { c with pipeline := c.pipeline.register r.incoming, pc := .ingesting rest } ∧
      ∀ committed p, OwnerBound committed c p →
        OwnerBound committed { c with pipeline := c.pipeline.register r.incoming, pc := .ingesting rest } p := by
  have hbatch : c.pc.batch = r :: rest := by rw [hpc]; rfl
  obtain ⟨st, hf⟩ := h.batch r (by rw [hbatch]; exact List.mem_cons_self) he
  have hv := h.pipeline.valid.tracker _ st hf
  have ht := h.tracked _ st hf
  rw [hbatch, recordsOf_cons, if_pos ⟨he, rfl⟩] at ht
  have hrm := (ht.inLog r List.mem_cons_self).1
  have hreg : (c.pipeline.register r.incoming).registry = c.pipeline.registry.insertOrAssign r.partition
      { st with tracker := (st.tracker.registerRecord r.offset).2 } := by
    rw [register_registry]
    exact congrArg Prod.snd (PartitionRegistry.registerRecord_of_assigned hf)
  have hdom : ∀ p st₀, c.pipeline.registry.find p = some st₀ →
      ∃ st', (c.pipeline.register r.incoming).registry.find p = some st' := by
    intro p st₀ hp
    rw [hreg, PartitionRegistry.find_insertOrAssign]
    split_ifs
    · exact ⟨_, rfl⟩
    · exact ⟨st₀, hp⟩
  have hother : ∀ p, r.partition ≠ p → recordsOf c.pc.batch p = recordsOf rest p := by
    intro p hp
    rw [hbatch, recordsOf_cons, if_neg (fun hn => hp hn.2)]
  constructor
  · refine ⟨h.pipeline.register hrm, ?_, ?_, ?_, by simp [ConsumerPc.inFlight], by simp [ConsumerPc.inFlight],
      by simp [ConsumerPc.inFlight], rfl⟩
    · intro p hp
      obtain ⟨st₀, hst₀⟩ := h.assigned p hp
      exact hdom p st₀ hst₀
    · intro p st' hf'
      dsimp only at hf'
      rw [hreg, PartitionRegistry.find_insertOrAssign] at hf'
      split_ifs at hf' with hp
      · obtain rfl := Option.some.inj hf'
        subst hp
        exact ht.ingest hv
      · have htr := h.tracked p st' hf'
        rwa [hother p hp] at htr
    · intro x hx hxe
      obtain ⟨st₀, hst₀⟩ := h.batch x (by rw [hbatch]; exact List.mem_cons_of_mem r hx) hxe
      exact hdom _ st₀ hst₀
  · intro committed p hown
    refine ⟨by simp [ConsumerPc.inFlight], ?_, ?_⟩
    · intro st' hf'
      dsimp only at hf'
      rw [hreg, PartitionRegistry.find_insertOrAssign] at hf'
      split_ifs at hf' with hp
      · obtain rfl := Option.some.inj hf'
        subst hp
        have hle : committed ≤ r.offset := by
          apply hown.batch
          rw [hbatch, recordsOf_cons, if_pos ⟨he, rfl⟩]
          exact List.mem_cons_self
        obtain ⟨hb, hpos⟩ := hown.tracker st hf
        exact ⟨hb.registerRecord hv hle, hpos⟩
      · exact hown.tracker st' hf'
    · intro x hx
      apply hown.batch
      rw [hbatch, recordsOf_cons]
      split_ifs
      · exact List.mem_cons_of_mem r hx
      · exact hx

structure StepSound (log : PartitionLog) (history : List Settlement) (c c' : KafkaEventConsumer) : Prop where
  sound : ConsumerSound log history c'
  owner : ∀ committed p, OwnerBound committed c p → OwnerBound committed c' p

theorem quiet_step_sound {log : PartitionLog} (hl : LogSound log) {history settled : List Settlement}
    {c c' : KafkaEventConsumer} {a : PipelineAction} (h : ConsumerSound log history c)
    (ha : a.ofWorker = true ∨ a = .reader) (hstep : c.pipelineStep a = some (settled, c')) :
    StepSound log (history ++ settled) c c' := by
  have hp := h.pipeline.step hstep (by rintro record rfl; simp [PipelineAction.ofWorker] at ha)
  obtain ⟨s', hs', he⟩ := Option.map_eq_some_iff.mp hstep
  obtain ⟨rfl, rfl⟩ := Prod.mk.inj he
  have hshrink := quiet_step_shrinks h.pipeline.valid ha hs'
  exact ⟨h.shrink hl (List.subset_append_left _ _) hp hshrink, fun _ _ hown => hown.shrink hshrink⟩

theorem setPc_sound {log : PartitionLog} {history : List Settlement} {c : KafkaEventConsumer}
    (h : ConsumerSound log history c) {pc : ConsumerPc} (paused : Bool) (hin : pc.inFlight ⊆ c.pc.inFlight)
    (hb : pc.batch ⊆ c.pc.batch) (hr : ∀ p, recordsOf pc.batch p = recordsOf c.pc.batch p)
    (hq : pc.resumesQuiet = true) : StepSound log history c { c with paused := paused, pc := pc } :=
  ⟨h.setPc paused hin hb hr hq, fun _ p hown => hown.setPc paused hin (hr p)⟩

theorem commitReady_sound {log : PartitionLog} (hl : LogSound log) {history : List Settlement}
    {c : KafkaEventConsumer} (h : ConsumerSound log history c) (hb : c.pc.batch = []) {resume : ConsumerPc}
    (hq : resume.quiet = true) : StepSound log history c
      { c with pc := KafkaEventConsumer.commitOffsets c.pipeline.registry.commitCandidates true resume } := by
  obtain ⟨hb', hin, hres⟩ := commitOffsets_batch c.pipeline.registry.commitCandidates true hq
  have hx : ∀ x ∈ (KafkaEventConsumer.commitOffsets c.pipeline.registry.commitCandidates true resume).inFlight,
      IsCandidate c.pipeline.registry x ∧ Committable log history c x := by
    intro x hm
    rw [hin] at hm
    have hc : IsCandidate c.pipeline.registry x := PartitionRegistry.mem_commitCandidates.mp hm
    exact ⟨hc, h.committable hl hb hc⟩
  exact ⟨h.commit h.pipeline (fun _ _ => id) h.assigned rfl hb hb' hx hres,
    fun _ _ hown => hown.commit (fun _ _ => id) rfl hb' hx⟩

theorem resume_sound {log : PartitionLog} {history : List Settlement} {c : KafkaEventConsumer}
    (h : ConsumerSound log history c) (hb : c.pc.batch = []) {pc : ConsumerPc} (hb' : pc.batch = [])
    (hin : pc.inFlight = []) (hq : pc.resumesQuiet = true) : StepSound log history c { c with pc := pc } :=
  setPc_sound h c.paused (by rw [hin]; exact List.nil_subset _) (by rw [hb']; exact List.nil_subset _)
    (by rw [hb, hb']; exact fun _ => rfl) hq

theorem call_sound {log : PartitionLog} (hl : LogSound log) {history settled : List Settlement}
    {c c' : KafkaEventConsumer} {a : PipelineAction} {pc : ConsumerPc} (h : ConsumerSound log history c)
    (hshrink : ∀ s', c.pipeline.step c.configuration a = some s' →
      c.pipeline.registry.Shrinks s'.registry)
    (hin : ∀ record, a = .ingest record → ∃ r ∈ log r.partition, r.incoming = record)
    (hb : c.pc.batch = []) (hb' : pc.batch = []) (hpc : pc.inFlight = []) (hq : pc.resumesQuiet = true)
    (hstep : c.callPipeline a pc = some (settled, c')) : StepSound log (history ++ settled) c c' := by
  obtain ⟨⟨settled', c₁⟩, hc₁, he⟩ := Option.map_eq_some_iff.mp hstep
  obtain ⟨rfl, rfl⟩ := Prod.mk.inj he
  have hp := h.pipeline.step hc₁ hin
  obtain ⟨s', hs', he'⟩ := Option.map_eq_some_iff.mp hc₁
  obtain ⟨rfl, rfl⟩ := Prod.mk.inj he'
  have hsound := h.shrink hl (List.subset_append_left _ _) hp (hshrink s' hs')
  obtain ⟨hs, hown⟩ := resume_sound hsound hb hb' hpc hq
  exact ⟨hs, fun v p ho => hown v p (ho.shrink (hshrink s' hs'))⟩

theorem same_registry {config : PipelineConfiguration} {s s' : ConsumerPipeline} {a : PipelineAction}
    (ha : a = .stop ∨ a = .pump) (h : s.step config a = some s') : s.registry.Shrinks s'.registry := by
  rcases ha with rfl | rfl
  all_goals
    simp only [ConsumerPipeline.step] at h
    split_ifs at h
    obtain rfl := Option.some.inj h
    exact .refl _

theorem runLoop_sound {log : PartitionLog} (hl : LogSound log) {history settled : List Settlement}
    {c c' : KafkaEventConsumer} {due : Bool} (h : ConsumerSound log history c)
    (hstep : c.runLoop due = some (settled, c')) : StepSound log (history ++ settled) c c' := by
  have hres := h.resume
  have hmove : ∀ pc, pc.batch = c.pc.batch → pc.inFlight ⊆ c.pc.inFlight → pc.resumesQuiet = true →
      ∀ paused, StepSound log (history ++ []) c { c with paused := paused, pc := pc } := by
    intro pc hb hin hq paused
    rw [List.append_nil]
    exact setPc_sound h paused hin (hb ▸ List.Subset.refl _) (fun p => by rw [hb]) hq
  unfold KafkaEventConsumer.runLoop at hstep
  cases hpc : c.pc with
  | subscribing =>
    simp only [hpc] at hstep hmove
    obtain ⟨rfl, rfl⟩ := Prod.mk.inj (Option.some.inj hstep)
    exact hmove .looping rfl (List.nil_subset _) rfl c.paused
  | looping =>
    simp only [hpc] at hstep hmove
    split_ifs at hstep
    · exact call_sound hl h (fun _ => same_registry (.inl rfl)) (by simp) (by rw [hpc]; rfl) rfl rfl rfl hstep
    · obtain ⟨rfl, rfl⟩ := Prod.mk.inj (Option.some.inj hstep)
      exact hmove .polling rfl (List.nil_subset _) rfl c.paused
  | polling =>
    simp only [hpc] at hstep
    cases hstep
  | ingesting batch =>
    cases batch with
    | nil =>
      simp only [hpc] at hstep
      exact call_sound hl h (fun _ => same_registry (.inr rfl)) (by simp) (by rw [hpc]; rfl) rfl rfl rfl hstep
    | cons r rest =>
      simp only [hpc] at hstep
      split_ifs at hstep with he
      · obtain ⟨rfl, rfl⟩ := Prod.mk.inj (Option.some.inj hstep)
        rw [List.append_nil]
        refine setPc_sound h c.paused (List.nil_subset _) ?_ ?_ rfl
        · rw [hpc]
          exact List.subset_cons_self r rest
        · intro p
          rw [hpc]
          simp only [ConsumerPc.batch, recordsOf_cons, he, Bool.true_eq_false, false_and, if_false]
      · obtain ⟨⟨settled', c₁⟩, hc₁, he₁⟩ := Option.map_eq_some_iff.mp hstep
        obtain ⟨rfl, rfl⟩ := Prod.mk.inj he₁
        obtain ⟨s', hs', he₂⟩ := Option.map_eq_some_iff.mp hc₁
        obtain ⟨rfl, rfl⟩ := Prod.mk.inj he₂
        simp only [ConsumerPipeline.step] at hs'
        split_ifs at hs'
        obtain rfl := Option.some.inj hs'
        obtain ⟨hsound, hown⟩ := h.ingest hpc (by simpa using he)
        simp only [KafkaEventConsumer.settlements, List.append_nil]
        exact ⟨hsound, hown⟩
  | pumping =>
    simp only [hpc] at hstep hmove
    obtain ⟨rfl, rfl⟩ := Prod.mk.inj (Option.some.inj hstep)
    exact hmove (.backpressure _) rfl (List.nil_subset _) rfl c.paused
  | backpressure drained =>
    simp only [hpc] at hstep hmove
    obtain ⟨rfl, rfl⟩ := Prod.mk.inj (Option.some.inj hstep)
    exact hmove .commitReady rfl (List.nil_subset _) rfl (!drained)
  | commitReady =>
    simp only [hpc] at hstep hmove
    split_ifs at hstep
    · obtain ⟨rfl, rfl⟩ := Prod.mk.inj (Option.some.inj hstep)
      rw [List.append_nil]
      exact commitReady_sound hl h (by rw [hpc]; rfl) rfl
    · obtain ⟨rfl, rfl⟩ := Prod.mk.inj (Option.some.inj hstep)
      exact hmove .looping rfl (List.nil_subset _) rfl c.paused
  | revoking positions resume =>
    simp only [hpc] at hstep hmove hres
    obtain ⟨rfl, rfl⟩ := Prod.mk.inj (Option.some.inj hstep)
    obtain ⟨hb, hin, hq⟩ := commitOffsets_batch positions false hres
    exact hmove _ hb (by rw [hin]; exact List.Subset.refl _) hq c.paused
  | committing positions confirm resume =>
    simp only [hpc] at hstep
    cases hstep
  | confirming positions resume =>
    have hquiet : resume.quiet = true := by rwa [hpc] at hres
    cases positions with
    | nil =>
      simp only [hpc] at hstep hmove
      obtain ⟨rfl, rfl⟩ := Prod.mk.inj (Option.some.inj hstep)
      exact hmove resume (ConsumerPc.quiet_batch hquiet)
        (by rw [ConsumerPc.quiet_inFlight hquiet]; exact List.nil_subset _)
        (ConsumerPc.quiet_resumesQuiet hquiet) c.paused
    | cons position rest =>
      simp only [hpc] at hstep
      have hnext : (ConsumerPc.confirming rest resume).resumesQuiet = true := hquiet
      refine call_sound hl h ?_ (by simp) (by rw [hpc]; rfl) rfl rfl hnext hstep
      intro s' hs'
      simp only [ConsumerPipeline.step] at hs'
      split_ifs at hs'
      obtain rfl := Option.some.inj hs'
      exact .confirmCommit h.pipeline.valid position
  | backoff =>
    simp only [hpc] at hstep hmove
    obtain ⟨rfl, rfl⟩ := Prod.mk.inj (Option.some.inj hstep)
    exact hmove .looping rfl (List.nil_subset _) rfl c.paused
  | stopping =>
    simp only [hpc] at hstep hmove
    obtain ⟨rfl, rfl⟩ := Prod.mk.inj (Option.some.inj hstep)
    exact hmove .finalCommit rfl (List.nil_subset _) rfl c.paused
  | finalCommit =>
    simp only [hpc] at hstep
    obtain ⟨rfl, rfl⟩ := Prod.mk.inj (Option.some.inj hstep)
    rw [List.append_nil]
    exact commitReady_sound hl h (by rw [hpc]; rfl) rfl
  | closing =>
    simp only [hpc] at hstep
    cases hstep

theorem proceed_sound {log : PartitionLog} (hl : LogSound log) {history settled : List Settlement}
    {c c' : KafkaEventConsumer} {due : Bool} (h : ConsumerSound log history c)
    (hstep : c.proceed due = some (settled, c')) : StepSound log (history ++ settled) c c' := by
  unfold KafkaEventConsumer.proceed at hstep
  split_ifs at hstep
  · exact runLoop_sound hl h hstep
  · exact quiet_step_sound hl h (.inr rfl) hstep

end LiquidPetProject.Messaging
