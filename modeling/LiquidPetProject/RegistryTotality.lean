import LiquidPetProject.ConsumerSoundness
import LiquidPetProject.PipelineAccounting

namespace LiquidPetProject.Messaging

open Transitions

namespace OffsetTracker

def Reached (t : OffsetTracker) (p : ℤ) : Prop :=
  (∃ c, t.committed = some c ∧ p ≤ c) ∨ ∃ w, t.commitCandidate = some w ∧ p ≤ w

def Confirmed (t : OffsetTracker) (p : ℤ) : Prop := ∃ c, t.committed = some c ∧ p ≤ c

theorem Reached.confirm {t : OffsetTracker} (h : t.Valid) {p : ℤ} (hr : t.Reached p) :
    (t.confirmCommit p).1 = .ok () ∧ (t.confirmCommit p).2.Confirmed p := by
  rw [confirmCommit_eq h]
  split_ifs with hc hw
  · refine ⟨rfl, ?_⟩
    cases hcom : t.committed with
    | none => simp [hcom] at hc
    | some c => exact ⟨c, hcom, by simpa [hcom] using hc⟩
  · rcases hr with ⟨c, hcom, hle⟩ | ⟨w, hcand, hle⟩
    · simp [hcom, hle] at hc
    · simp only [hcand, Option.all_some, gt_iff_lt, decide_eq_true_eq] at hw
      omega
  · exact ⟨rfl, p, rfl, le_rfl⟩

theorem Confirmed.candidate {t : OffsetTracker} (h : t.Valid) {p w : ℤ} (hc : t.Confirmed p)
    (hw : t.commitCandidate = some w) : p < w := by
  obtain ⟨c, hcom, hle⟩ := hc
  obtain ⟨e, he, rfl, -⟩ := commitCandidate_some h hw
  have := h.uncommitted c hcom e he
  omega

theorem CommitBound.reached {t : OffsetTracker} (h : t.Valid) {w : ℤ} (hb : CommitBound t w)
    {e : Entry} (he : e ∈ t.entries) (hlt : e.offset < w) :
    ∃ w', t.commitCandidate = some w' ∧ w ≤ w' := by
  cases hc : t.commitCandidate with
  | none =>
    obtain ⟨f, hf, hle, hd⟩ := commitCandidate_none h hc e he
    have := hb.pending f hf hd
    omega
  | some w' => exact ⟨w', rfl, hb.candidate w' hc⟩

theorem complete_candidate {t : OffsetTracker} (h : t.Valid) (o : ℤ) {w : ℤ}
    (hw : t.commitCandidate = some w) : ∃ w', (t.complete o).2.commitCandidate = some w' ∧ w ≤ w' := by
  obtain ⟨e, he, rfl, -⟩ := commitCandidate_some h hw
  have hb := (CommitBound.of_candidate h hw).complete h o
  have hkept : ∃ f ∈ (t.complete o).2.entries, f.offset = e.offset := by
    rw [complete_eq h]
    split_ifs
    · exact ⟨e, he, rfl⟩
    · obtain ⟨f, hf, hfo, -⟩ := markDone_mem (o := o) he
      exact ⟨f, hf, hfo⟩
    · exact ⟨e, he, rfl⟩
  obtain ⟨f, hf, hfo⟩ := hkept
  exact hb.reached (h.complete o) hf (by omega)

theorem confirmCommit_candidate {t : OffsetTracker} (h : t.Valid) {q w : ℤ} (hw : t.commitCandidate = some w)
    (hq : q < w) : ∃ w', (t.confirmCommit q).2.commitCandidate = some w' ∧ w ≤ w' := by
  obtain ⟨e, he, rfl, -⟩ := commitCandidate_some h hw
  have hb := (CommitBound.of_candidate h hw).confirmCommit h q
  have hkept : e ∈ (t.confirmCommit q).2.entries := by
    rw [confirmCommit_eq h]
    split_ifs
    · exact he
    · exact he
    · exact (not_covered h.sorted).mpr ⟨he, by omega⟩
  exact hb.reached (h.confirmCommit q) hkept (by omega)

end OffsetTracker

theorem TrackerStep.confirmed {t t' : OffsetTracker} {p : ℤ} (ht : t.Valid) (h : TrackerStep t t')
    (hc : t.Confirmed p) : t'.Confirmed p := by
  obtain ⟨c, hcom, hle⟩ := hc
  cases h with
  | refl => exact ⟨c, hcom, hle⟩
  | registerRecord o =>
    rw [OffsetTracker.registerRecord_eq ht]
    split_ifs <;> exact ⟨c, hcom, hle⟩
  | complete o =>
    rw [OffsetTracker.complete_eq ht]
    split_ifs <;> exact ⟨c, hcom, hle⟩
  | confirmCommit q =>
    rw [OffsetTracker.confirmCommit_eq ht]
    split_ifs with hq hw
    · exact ⟨c, hcom, hle⟩
    · exact ⟨c, hcom, hle⟩
    · have : c < q := by simpa [hcom] using hq
      exact ⟨q, rfl, by omega⟩

theorem TrackerStep.reached {t t' : OffsetTracker} {p : ℤ} (ht : t.Valid) (h : TrackerStep t t')
    (hr : t.Reached p) : t'.Reached p := by
  rcases hr with hc | ⟨w, hw, hle⟩
  · exact .inl (h.confirmed ht hc)
  cases h with
  | refl => exact .inr ⟨w, hw, hle⟩
  | registerRecord o => exact .inr ⟨w, (OffsetTracker.registerRecord_candidate ht o).trans hw, hle⟩
  | complete o =>
    obtain ⟨w', hw', hle'⟩ := OffsetTracker.complete_candidate ht o hw
    exact .inr ⟨w', hw', hle.trans hle'⟩
  | confirmCommit q =>
    by_cases hq : q < w
    · obtain ⟨w', hw', hle'⟩ := OffsetTracker.confirmCommit_candidate ht hw hq
      exact .inr ⟨w', hw', hle.trans hle'⟩
    · -- a confirmation that is not below the candidate confirms the candidate itself, or changes nothing
      rw [OffsetTracker.confirmCommit_eq ht]
      split_ifs with hcom hbeyond
      · exact .inr ⟨w, hw, hle⟩
      · exact .inr ⟨w, hw, hle⟩
      · exact .inl ⟨q, rfl, by omega⟩

namespace PartitionRegistry

structure Offered (reg : PartitionRegistry) (c : CommitPosition) : Prop where
  generation : c.generation ≤ reg.lastGeneration
  reached : reg.WhenCurrent OffsetTracker.Reached c.ticket

structure Recorded (reg : PartitionRegistry) (c : CommitPosition) : Prop where
  generation : c.generation ≤ reg.lastGeneration
  confirmed : reg.WhenCurrent OffsetTracker.Confirmed c.ticket

theorem Offered.call {reg : PartitionRegistry} {p : CommitPosition} (hv : reg.Valid) (h : reg.Offered p)
    (c : RegistryCall) : (reg.call c).2.Offered p :=
  ⟨h.generation.trans (call_lastGeneration_le reg c),
    h.reached.call (fun _ _ _ ha hs hr => hs.reached ha hr) hv h.generation c⟩

theorem Recorded.call {reg : PartitionRegistry} {p : CommitPosition} (hv : reg.Valid) (h : reg.Recorded p)
    (c : RegistryCall) : (reg.call c).2.Recorded p :=
  ⟨h.generation.trans (call_lastGeneration_le reg c),
    h.confirmed.call (fun _ _ _ ha hs hr => hs.confirmed ha hr) hv h.generation c⟩

theorem Offered.trace {reg : PartitionRegistry} {p : CommitPosition} (hv : reg.Valid) (h : reg.Offered p)
    (calls : List RegistryCall) : (trace PartitionRegistry.call reg calls).2.Offered p :=
  (trace_preserves (I := fun r : PartitionRegistry => r.Valid ∧ r.Offered p)
    (fun _ c hr => ⟨hr.1.call c, hr.2.call hr.1 c⟩) ⟨hv, h⟩ calls).2

theorem Recorded.trace {reg : PartitionRegistry} {p : CommitPosition} (hv : reg.Valid) (h : reg.Recorded p)
    (calls : List RegistryCall) :
    (trace PartitionRegistry.call reg calls).2.Valid ∧ (trace PartitionRegistry.call reg calls).2.Recorded p :=
  trace_preserves (I := fun r : PartitionRegistry => r.Valid ∧ r.Recorded p)
    (fun _ c hr => ⟨hr.1.call c, hr.2.call hr.1 c⟩) ⟨hv, h⟩ calls

theorem candidate_tracker {p : PartitionKey} {st : PartitionState} {c : CommitPosition}
    (h : candidate p st = some c) : st.tracker.commitCandidate = some c.offset := by
  obtain ⟨o, ho, rfl⟩ := Option.map_eq_some_iff.mp h
  exact ho

theorem candidate_offered {reg : PartitionRegistry} {p : CommitPosition} (hv : reg.Valid)
    (h : p ∈ reg.commitCandidates) : reg.Offered p := by
  obtain ⟨st, hf, hc⟩ := mem_commitCandidates.mp h
  refine ⟨(candidate_partition hc).2 ▸ hv.generation _ st hf, ?_⟩
  intro st' hf' _
  obtain rfl := Option.some.inj (hf.symm.trans hf')
  exact .inr ⟨p.offset, candidate_tracker hc, le_rfl⟩

theorem revoke_offered {reg : PartitionRegistry} {ps : List PartitionKey} {p : CommitPosition} (hv : reg.Valid)
    (h : p ∈ (reg.revoke ps).1) : reg.Offered p :=
  candidate_offered hv (mem_commitCandidates.mpr (revoke_candidate h).2)

theorem trace_offered {reg : PartitionRegistry} (hv : reg.Valid) {calls : List RegistryCall}
    {positions : List CommitPosition} {p : CommitPosition} (hp : p ∈ positions)
    (h : .positions positions ∈ (LiquidPetProject.Transitions.trace call reg calls).1) :
    (LiquidPetProject.Transitions.trace call reg calls).2.Offered p := by
  induction calls generalizing reg with
  | nil => simp at h
  | cons c calls ih =>
    simp only [trace_cons, List.mem_cons] at h
    rcases h with h | h
    · have hoff : reg.Offered p := by
        cases c with
        | revoke ps =>
          obtain rfl : positions = (reg.revoke ps).1 := by simpa [call] using h
          exact revoke_offered hv hp
        | commitCandidates =>
          obtain rfl : positions = reg.commitCandidates := by simpa [call] using h
          exact candidate_offered hv hp
        | _ => simp [call] at h
      exact (hoff.call hv c).trace (hv.call c) calls
    · exact ih (hv.call c) h

theorem confirm_offered {reg : PartitionRegistry} {p : CommitPosition} (hv : reg.Valid) (h : reg.Offered p) :
    (reg.confirmCommit p).1 = .ok () ∧ (reg.confirmCommit p).2.Recorded p := by
  cases hc : reg.isCurrent p.ticket with
  | false =>
    rw [confirmCommit_of_stale hc]
    refine ⟨rfl, h.generation, fun st hf hg => ?_⟩
    rw [isCurrent_iff.mpr ⟨st, hf, hg⟩] at hc
    cases hc
  | true =>
    obtain ⟨st, hf, hg⟩ := isCurrent_iff.mp hc
    obtain ⟨hok, hdone⟩ := (h.reached st hf hg).confirm (hv.tracker _ st hf)
    rw [confirmCommit_of_current hf hg]
    refine ⟨hok, h.generation, fun st' hf' _ => ?_⟩
    rw [find_insertOrAssign, if_pos (show p.partition = p.ticket.partition from rfl)] at hf'
    obtain rfl := Option.some.inj hf'
    exact hdone

theorem Recorded.candidate {reg : PartitionRegistry} {p c : CommitPosition} (hv : reg.Valid)
    (h : reg.Recorded p) (hc : c ∈ reg.commitCandidates) (hp : c.partition = p.partition)
    (hg : c.generation = p.generation) : p.offset < c.offset := by
  obtain ⟨st, hf, hcand⟩ := mem_commitCandidates.mp hc
  have hf' : reg.find p.partition = some st := hp ▸ hf
  have hgen : st.generation = p.generation := (candidate_partition hcand).2.symm.trans hg
  exact (h.confirmed st hf' hgen).candidate (hv.tracker _ st hf) (candidate_tracker hcand)

end PartitionRegistry

namespace ConsumerPipeline

structure Calls (s s' : ConsumerPipeline) (c : RegistryCall) : Prop where
  registry : s'.registry = (s.registry.call c).2
  held : ∀ t ∈ s'.held, t ∈ s.held ∨ (s.registry.call c).1 = .ticket (.ok t)

def KeepsTickets (s s' : ConsumerPipeline) : Prop :=
  ∃ c, Calls s s' c ∧ ∀ t, (s.registry.call c).1 ≠ .ticket (.ok t)

theorem KeepsTickets.held {s s' : ConsumerPipeline} (h : KeepsTickets s s') {t : RecordTicket} (ht : t ∈ s'.held) :
    t ∈ s.held := by
  obtain ⟨c, hc, hno⟩ := h
  exact (hc.held t ht).resolve_right (hno t)

theorem KeepsTickets.call {s s' : ConsumerPipeline} (c : RegistryCall) (hreg : s'.registry = (s.registry.call c).2)
    (hno : ∀ t, (s.registry.call c).1 ≠ .ticket (.ok t)) (hheld : ∀ t ∈ s'.held, t ∈ s.held) : KeepsTickets s s' :=
  ⟨c, ⟨hreg, fun t ht => .inl (hheld t ht)⟩, hno⟩

theorem KeepsTickets.silent {s s' : ConsumerPipeline} (hreg : s'.registry = s.registry)
    (hheld : ∀ t ∈ s'.held, t ∈ s.held) : KeepsTickets s s' :=
  .call .commitCandidates hreg (by simp [PartitionRegistry.call]) hheld

theorem mem_held {s : ConsumerPipeline} {t : RecordTicket} :
    t ∈ s.held ↔ t ∈ inHand s.reader ∨ t ∈ s.unsubmitted.map WorkItem.ticket ∨
      t ∈ s.pool.queue.map WorkItem.ticket ∨
        t ∈ (s.pool.workers.filterMap executing).map WorkItem.ticket := by
  simp only [held, waiting, List.map_append, List.mem_append, or_assoc]

theorem executing_set {workers : List (Worker WorkItem ExecutorPc)} {i : ℕ}
    {w w' : Worker WorkItem ExecutorPc} (hw : workers[i]? = some w) {item : WorkItem}
    (h : item ∈ (workers.set i w').filterMap executing) :
    item ∈ workers.filterMap executing ∨ executing w' = some item := by
  obtain ⟨a, b, hl, hset⟩ := filterMap_set executing hw w'
  rw [hset] at h
  rw [hl]
  simp only [List.mem_append, Option.mem_toList] at h ⊢
  rcases h with h | h | h
  · exact .inl (.inl h)
  · exact .inr h
  · exact .inl (.inr (.inr h))

theorem mem_held_set {s : ConsumerPipeline} {i : ℕ} {w w' : Worker WorkItem ExecutorPc}
    (hw : s.pool.workers[i]? = some w) (hkept : ∀ item, executing w' = some item → executing w = some item)
    (registry : PartitionRegistry) {t : RecordTicket}
    (ht : t ∈ held { s with registry := registry, pool := { s.pool with workers := s.pool.workers.set i w' } }) :
    t ∈ s.held := by
  simp only [mem_held] at ht ⊢
  refine ht.imp_right (Or.imp_right (Or.imp_right (fun hm => ?_)))
  obtain ⟨item, hitem, rfl⟩ := List.mem_map.mp hm
  rcases executing_set hw hitem with hold | hnew
  · exact List.mem_map_of_mem hold
  · exact List.mem_map_of_mem (List.mem_filterMap.mpr ⟨w, List.mem_of_getElem? hw, hkept item hnew⟩)

theorem register_calls {s : ConsumerPipeline} (hr : s.reader = .idle) (record : IncomingRecord) :
    ∃ c, Calls s (s.register record) c := by
  refine ⟨.registerRecord record.partition record.offset, ?_, ?_⟩
  · exact register_registry s record
  · intro t ht
    unfold register at ht
    rcases hreg : s.registry.registerRecord record.partition record.offset with ⟨r, reg⟩
    rw [hreg] at ht
    cases r with
    | error e => exact .inl ht
    | ok u =>
      simp only [mem_held, inHand, List.mem_singleton] at ht
      rcases ht with rfl | ht
      · exact .inr (by simp [PartitionRegistry.call, hreg])
      · refine .inl (mem_held.mpr (.inr ?_))
        simpa [unsubmitted, hr] using ht

theorem admitRecord_keepsTickets {s : ConsumerPipeline} {ticket : RecordTicket} {record : IncomingRecord}
    (hr : s.reader = .ingesting ticket record) : KeepsTickets s (s.admitRecord ticket record) := by
  unfold admitRecord
  cases (Models.StrongID.create (record.eventId.getD "") : Except ErrorCode Models.OutboxEventId) with
  | ok eventId =>
    apply KeepsTickets.silent
    · rfl
    · intro t ht
      simp only [mem_held, inHand, unsubmitted, hr] at ht ⊢
      simp only [List.map_append, List.mem_append, List.map_cons, List.map_nil, List.mem_singleton,
        List.not_mem_nil, false_or, reduceCtorEq, if_false] at ht ⊢
      tauto
  | error e =>
    refine .call (.complete ticket) rfl (by simp [PartitionRegistry.call]) ?_
    intro t ht
    simp only [mem_held, inHand, unsubmitted, hr] at ht ⊢
    simp only [List.not_mem_nil, false_or, reduceCtorEq, if_false] at ht ⊢
    exact .inr ht

theorem readerStep_keepsTickets {s s' : ConsumerPipeline} (h : s.readerStep = some s') : KeepsTickets s s' := by
  unfold readerStep at h
  cases hr : s.reader with
  | idle => simp [hr] at h
  | ingesting ticket record =>
    obtain rfl : s.admitRecord ticket record = s' := by simpa [hr] using h
    exact admitRecord_keepsTickets hr
  | revoking ps =>
    simp only [hr] at h
    obtain rfl := Option.some.inj h
    refine KeepsTickets.silent rfl ?_
    intro t ht
    simp only [mem_held, inHand, unsubmitted, hr, List.not_mem_nil, false_or, reduceCtorEq, if_false] at ht ⊢
    exact ht.imp_left (fun hm => List.map_subset _ (List.filter_subset_self _) hm)
  | pumping =>
    obtain rfl : s.submitFront = s' := by simpa [hr] using h
    rcases s.submitFront_cases with he | ⟨item, rest, hb, he⟩
    · rw [he]
      refine KeepsTickets.silent rfl ?_
      intro t ht
      simpa [mem_held, inHand, unsubmitted, hr] using ht
    · rw [he]
      refine KeepsTickets.silent rfl ?_
      intro t ht
      simp only [mem_held, inHand, unsubmitted, hr, hb, List.tail_cons, List.map_append, List.map_cons,
        List.map_nil, List.mem_append, List.mem_cons, List.not_mem_nil, false_or, reduceCtorEq, if_false,
        if_true, or_false] at ht ⊢
      tauto
  | popping =>
    simp only [hr] at h
    obtain rfl := Option.some.inj h
    refine KeepsTickets.silent rfl ?_
    intro t ht
    simpa [mem_held, inHand, unsubmitted, hr] using ht
  | stopping next =>
    simp only [hr] at h
    split_ifs at h
    · obtain rfl := Option.some.inj h
      refine KeepsTickets.silent rfl ?_
      intro t ht
      simpa [mem_held, inHand, unsubmitted, hr] using ht
    · obtain rfl := Option.some.inj h
      refine KeepsTickets.silent rfl ?_
      intro t ht
      simpa [mem_held, inHand, unsubmitted, hr] using ht
  | clearing =>
    simp only [hr] at h
    obtain rfl := Option.some.inj h
    refine KeepsTickets.silent rfl ?_
    intro t ht
    simp only [mem_held, inHand, unsubmitted, hr, List.map_nil, List.not_mem_nil, false_or, reduceCtorEq,
      if_false] at ht ⊢
    exact .inr ht

theorem executeStep_keepsTickets {config : PipelineConfiguration} {s s' : ConsumerPipeline} {i : ℕ} {reply : Reply}
    (h : executeStep config s i reply = some s') : KeepsTickets s s' := by
  unfold executeStep at h
  split at h
  · rename_i item pc stop hw
    obtain ⟨⟨events, reg, pc'⟩, hstep, rfl⟩ := Option.map_eq_some_iff.mp h
    have hrun := RecordExecutor.step_running hstep
    have hheld : ∀ t ∈ held { s with registry := reg, pool := s.pool.advance i pc' }, t ∈ s.held := by
      intro t ht
      rw [WorkerPool.advance_of_running hw] at ht
      refine mem_held_set hw ?_ reg ht
      intro x hx
      simp only [executing] at hx ⊢
      split_ifs at hx
      rw [hrun]
      exact hx
    rcases RecordExecutor.step_registry hstep with ⟨rfl, -⟩ | ⟨rfl, -⟩
    · exact KeepsTickets.silent rfl hheld
    · exact .call (.complete item.ticket) rfl (by simp [PartitionRegistry.call]) hheld
  · cases h

theorem step_keepsTickets {config : PipelineConfiguration} {s s' : ConsumerPipeline} {a : PipelineAction}
    (ha : ∀ record, a ≠ .ingest record) (h : step config s a = some s') : KeepsTickets s s' := by
  cases a with
  | onPartitionsAssigned ps =>
    simp only [step] at h
    split_ifs at h
    obtain rfl := Option.some.inj h
    exact .call (.assign ps) rfl (by simp [PartitionRegistry.call]) (fun _ ht => ht)
  | onPartitionsRevoked ps =>
    simp only [step] at h
    split_ifs at h with hr
    obtain rfl := Option.some.inj h
    refine .call (.revoke ps) rfl (by simp [PartitionRegistry.call]) ?_
    intro t ht
    simpa [mem_held, inHand, unsubmitted, hr] using ht
  | ingest record => exact absurd rfl (ha record)
  | pump =>
    simp only [step] at h
    split_ifs at h with hr
    obtain rfl := Option.some.inj h
    refine KeepsTickets.silent rfl ?_
    intro t ht
    simpa [mem_held, inHand, unsubmitted, hr] using ht
  | commitCandidates =>
    simp only [step] at h
    split_ifs at h
    obtain rfl := Option.some.inj h
    exact KeepsTickets.silent rfl (fun _ ht => ht)
  | confirmCommit position =>
    simp only [step] at h
    split_ifs at h
    obtain rfl := Option.some.inj h
    exact .call (.confirmCommit position) rfl (by simp [PartitionRegistry.call]) (fun _ ht => ht)
  | stop =>
    simp only [step] at h
    split_ifs at h with hr
    obtain rfl := Option.some.inj h
    refine KeepsTickets.silent rfl ?_
    intro t ht
    simp only [mem_held, inHand, unsubmitted, hr, WorkerPool.close, List.map_nil, List.not_mem_nil, false_or,
      reduceCtorEq, if_false] at ht ⊢
    exact ht.imp_right .inr
  | reader => exact readerStep_keepsTickets h
  | take i =>
    obtain ⟨pool, hp, rfl⟩ := Option.map_eq_some_iff.mp h
    obtain ⟨task, rest, hw, hq, rfl⟩ := WorkerPool.take_eq_some hp
    refine KeepsTickets.silent rfl ?_
    intro t ht
    simp only [mem_held] at ht ⊢
    rcases ht with ht | ht | ht | ht
    · exact .inl ht
    · exact .inr (.inl ht)
    · exact .inr (.inr (.inl (by rw [hq]; exact List.mem_cons_of_mem _ ht)))
    · obtain ⟨item, hitem, rfl⟩ := List.mem_map.mp ht
      rcases executing_set hw hitem with hold | hnew
      · exact .inr (.inr (.inr (List.mem_map_of_mem hold)))
      · simp only [executing] at hnew
        split_ifs at hnew
        obtain rfl := Option.some.inj hnew
        exact .inr (.inr (.inl (by simp [hq])))
  | execute i reply => exact executeStep_keepsTickets h
  | finish i =>
    obtain ⟨pool, hp, rfl⟩ := Option.map_eq_some_iff.mp h
    obtain ⟨task, pc, stop, hw, -, rfl⟩ := WorkerPool.finish_eq_some hp
    exact KeepsTickets.silent rfl (fun t ht => mem_held_set hw (fun item hitem => by cases hitem) s.registry ht)
  | exit i =>
    obtain ⟨pool, hp, rfl⟩ := Option.map_eq_some_iff.mp h
    obtain ⟨hw, rfl⟩ := WorkerPool.exit_eq_some hp
    exact KeepsTickets.silent rfl (fun t ht => mem_held_set hw (fun item hitem => by cases hitem) s.registry ht)

theorem step_calls {config : PipelineConfiguration} {s s' : ConsumerPipeline} {a : PipelineAction}
    (h : step config s a = some s') : ∃ c, Calls s s' c := by
  by_cases ha : ∃ record, a = .ingest record
  · obtain ⟨record, rfl⟩ := ha
    simp only [step] at h
    split_ifs at h with hr
    obtain rfl := Option.some.inj h
    exact register_calls hr record
  · obtain ⟨c, hc, -⟩ := step_keepsTickets (fun record he => ha ⟨record, he⟩) h
    exact ⟨c, hc⟩

structure RegistryRun (calls : List RegistryCall) (s : ConsumerPipeline) : Prop where
  registry : s.registry = (trace PartitionRegistry.call {} calls).2
  held : ∀ t ∈ s.held, .ticket (.ok t) ∈ (trace PartitionRegistry.call {} calls).1

theorem RegistryRun.create (config : PipelineConfiguration) : RegistryRun [] (create config) := by
  refine ⟨rfl, fun t ht => ?_⟩
  simp [ConsumerPipeline.create, mem_held, inHand, unsubmitted, WorkerPool.create, executing] at ht

theorem RegistryRun.step {calls : List RegistryCall} {config : PipelineConfiguration} {s s' : ConsumerPipeline}
    {a : PipelineAction} (h : RegistryRun calls s) (hstep : ConsumerPipeline.step config s a = some s') :
    ∃ c, RegistryRun (calls ++ [c]) s' := by
  obtain ⟨c, hc⟩ := step_calls hstep
  refine ⟨c, ?_, ?_⟩
  · rw [hc.registry, h.registry, trace_append]
    rfl
  · intro t ht
    rw [trace_append]
    rcases hc.held t ht with hold | hnew
    · exact List.mem_append_left _ (h.held t hold)
    · rw [h.registry] at hnew
      exact List.mem_append_right _ (by simp [hnew])

theorem RegistryRun.run {calls : List RegistryCall} {config : PipelineConfiguration} {s s' : ConsumerPipeline}
    {actions : List PipelineAction} (h : RegistryRun calls s)
    (hrun : LiquidPetProject.Transitions.run (ConsumerPipeline.step config) s actions = some s') :
    ∃ more, RegistryRun (calls ++ more) s' := by
  induction actions generalizing calls s with
  | nil =>
    obtain rfl := Option.some.inj hrun
    exact ⟨[], by simpa using h⟩
  | cons a actions ih =>
    obtain ⟨t, ht, hrest⟩ := Option.bind_eq_some_iff.mp hrun
    obtain ⟨c, hc⟩ := h.step ht
    obtain ⟨more, hmore⟩ := ih hc hrest
    exact ⟨c :: more, by simpa using hmore⟩

theorem RegistryRun.valid {calls : List RegistryCall} {s : ConsumerPipeline} (h : RegistryRun calls s) :
    s.registry.Valid := by
  rw [h.registry]
  exact PartitionRegistry.Valid.trace calls

theorem RegistryRun.completed {calls : List RegistryCall} {config : PipelineConfiguration} {s : ConsumerPipeline}
    (h : RegistryRun calls s) {i : ℕ} {item : WorkItem} {pc pc' : ExecutorPc} {stop : Bool} {reply : Reply}
    {events : List ExecutorEvent} {reg : PartitionRegistry}
    (hw : s.pool.workers[i]? = some ⟨.running item pc, stop⟩)
    (hstep : RecordExecutor.step config.retry item stop s.registry pc reply = some (events, reg, pc'))
    {t : RecordTicket} {r : Except ErrorCode CompletionResult} (hr : .completed t r ∈ events) :
    r = .ok (if s.registry.isCurrent t then .applied else .stale) := by
  rcases RecordExecutor.step_registry hstep with ⟨-, hno⟩ | ⟨-, rfl, -⟩
  · exact absurd hr (hno t r)
  · obtain ⟨rfl, rfl⟩ : t = item.ticket ∧ r = (s.registry.complete item.ticket).1 := by simpa using hr
    have hheld : item.ticket ∈ s.held := by
      refine mem_held.mpr (.inr (.inr (.inr (List.mem_map_of_mem ?_))))
      refine List.mem_filterMap.mpr ⟨_, List.mem_of_getElem? hw, ?_⟩
      simp [executing, RecordExecutor.step_running hstep]
    have hissued : s.registry.Issued item.ticket := by
      rw [h.registry]
      exact PartitionRegistry.trace_issued PartitionRegistry.Valid.empty (h.held _ hheld)
    exact (PartitionRegistry.complete_issued h.valid hissued).1

theorem RegistryRun.confirmed {calls : List RegistryCall} {config : PipelineConfiguration}
    {s s' : ConsumerPipeline} (h : RegistryRun calls s) {p : CommitPosition} (hp : s.registry.Offered p)
    {later : List PipelineAction}
    (hrun : LiquidPetProject.Transitions.run (ConsumerPipeline.step config) s later = some s') :
    (s'.registry.confirmCommit p).1 = .ok () := by
  obtain ⟨more, hmore⟩ := h.run hrun
  have hreg : s'.registry = (trace PartitionRegistry.call s.registry more).2 := by
    rw [hmore.registry, trace_append, h.registry]
  have hoff := hp.trace h.valid more
  rw [← hreg] at hoff
  exact (PartitionRegistry.confirm_offered hmore.valid hoff).1

end ConsumerPipeline

/-- Tickets and positions stay good for ever: in every run of the registry, and so in every run of the
pipeline, no completion and no confirmation of something that was handed out fails. -/
theorem registry_calls_succeed :
    (∀ calls : List RegistryCall,
      (∀ t, .ticket (.ok t) ∈ (trace PartitionRegistry.call {} calls).1 →
        ((trace PartitionRegistry.call {} calls).2.complete t).1 =
          .ok (if (trace PartitionRegistry.call {} calls).2.isCurrent t then .applied else .stale)) ∧
      ∀ positions, .positions positions ∈ (trace PartitionRegistry.call {} calls).1 → ∀ p ∈ positions,
        ((trace PartitionRegistry.call {} calls).2.confirmCommit p).1 = .ok () ∧
        ∀ later c, c ∈ (trace PartitionRegistry.call
            ((trace PartitionRegistry.call {} calls).2.confirmCommit p).2 later).2.commitCandidates →
          c.partition = p.partition → c.generation = p.generation → p.offset < c.offset) ∧
    ∀ config actions s, run (ConsumerPipeline.step config) (.create config) actions = some s →
      (∀ (i : ℕ) (item : WorkItem) (pc : ExecutorPc) (stop : Bool) reply events reg pc',
        s.pool.workers[i]? = some ⟨.running item pc, stop⟩ →
        RecordExecutor.step config.retry item stop s.registry pc reply = some (events, reg, pc') →
        ∀ t r, .completed t r ∈ events →
          r = .ok (if s.registry.isCurrent t then .applied else .stale)) ∧
      ∀ p, (p ∈ s.registry.commitCandidates ∨ ∃ ps, p ∈ (s.registry.revoke ps).1) →
        ∀ later s', run (ConsumerPipeline.step config) s later = some s' →
          (s'.registry.confirmCommit p).1 = .ok () := by
  constructor
  · intro calls
    have hv := PartitionRegistry.Valid.trace calls
    constructor
    · intro t ht
      have hissued := PartitionRegistry.trace_issued PartitionRegistry.Valid.empty ht
      exact (PartitionRegistry.complete_issued hv hissued).1
    · intro positions hpositions p hp
      have hoff := PartitionRegistry.trace_offered PartitionRegistry.Valid.empty hp hpositions
      obtain ⟨hok, hrec⟩ := PartitionRegistry.confirm_offered hv hoff
      refine ⟨hok, ?_⟩
      intro later c hc hpart hgen
      have hv' := hv.call (.confirmCommit p)
      obtain ⟨hlast, hrec'⟩ := hrec.trace hv' later
      exact hrec'.candidate hlast hc hpart hgen
  · intro config actions s hrun
    obtain ⟨calls, hcalls⟩ := (ConsumerPipeline.RegistryRun.create config).run hrun
    constructor
    · intro i item pc stop reply events reg pc' hw hstep t r hr
      exact hcalls.completed hw hstep hr
    · intro p hp later s' hlater
      have hoff : s.registry.Offered p := by
        rcases hp with hp | ⟨ps, hp⟩
        · exact PartitionRegistry.candidate_offered hcalls.valid hp
        · exact PartitionRegistry.revoke_offered hcalls.valid hp
      exact hcalls.confirmed hoff hlater

end LiquidPetProject.Messaging
