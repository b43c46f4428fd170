import LiquidPetProject.AtLeastOnce
import LiquidPetProject.GroupSteps
import LiquidPetProject.PipelineLedger

namespace LiquidPetProject.Messaging

open Transitions

/-- What one process has registered and settled, the committed offsets that its partitions came with, and
whether the commit of `stop` has thrown. -/
structure TicketBook where
  registered : List RecordTicket := []
  settled : List RecordTicket := []
  initial : PartitionKey → Option ℤ := fun _ => none
  finalCommitThrew : Bool := false

namespace TicketBook

def record (b : TicketBook) (c : KafkaEventConsumer) (a : PipelineAction) : TicketBook :=
  { b with
    registered := b.registered ++ c.registeredTickets a
    settled := b.settled ++ c.settledTickets a }

def after (b : TicketBook) (committed : PartitionKey → Option ℤ) (c : KafkaEventConsumer) :
    GroupAction → TicketBook
  | .assigned _ ps => { b with initial := fun p => if p ∈ ps then committed p else b.initial p }
  | .proceed _ _ =>
    if c.pipeline.reader = .idle then
      match c.pc with
      | .ingesting (r :: _) => if r.error then b else b.record c (.ingest r.incoming)
      | _ => b
    else b.record c .reader
  | .commitFailed _ _ =>
    match c.pc with
    | .committing _ true .closing => { b with finalCommitThrew := true }
    | _ => b
  | .worker _ a => b.record c a
  | _ => b

def settledPrefix (b : TicketBook) (p : PartitionKey) (generation : ℕ) : List ℤ :=
  (ticketOffsets b.registered p generation).takeWhile (fun o => ⟨p, o, generation⟩ ∈ b.settled)

end TicketBook

/-- The positions that the broker has stored and the pipeline does not know of. -/
def ConsumerPc.unconfirmed : ConsumerPc → List CommitPosition
  | .confirming positions _ => positions
  | _ => []

theorem ConsumerPc.quiet_unconfirmed {pc : ConsumerPc} (h : pc.quiet = true) : pc.unconfirmed = [] := by
  cases pc with
  | confirming positions resume => cases h
  | _ => rfl

theorem commitOffsets_unconfirmed (positions : List CommitPosition) (confirm : Bool) {resume : ConsumerPc}
    (hq : resume.quiet = true) : (KafkaEventConsumer.commitOffsets positions confirm resume).unconfirmed = [] := by
  unfold KafkaEventConsumer.commitOffsets
  split_ifs
  · exact ConsumerPc.quiet_unconfirmed hq
  · rfl

namespace PartitionRegistry

def Follows (reg reg' : PartitionRegistry) : Prop :=
  ∀ p st', reg'.find p = some st' → ∃ st, reg.find p = some st ∧ st'.tracker.committed = st.tracker.committed ∧
    (st'.tracker.commitCandidate = none → st.tracker.commitCandidate = none)

theorem Follows.refl (reg : PartitionRegistry) : Follows reg reg := fun _ st hf => ⟨st, hf, rfl, id⟩

theorem Follows.insertOrAssign {reg : PartitionRegistry} {p : PartitionKey} {st : PartitionState}
    {tracker : OffsetTracker} (hf : reg.find p = some st) (hcom : tracker.committed = st.tracker.committed)
    (hcand : tracker.commitCandidate = none → st.tracker.commitCandidate = none) :
    Follows reg (reg.insertOrAssign p { st with tracker := tracker }) := by
  intro q st' hf'
  rw [find_insertOrAssign] at hf'
  split_ifs at hf' with hp
  · obtain rfl := Option.some.inj hf'
    subst hp
    exact ⟨st, hf, hcom, hcand⟩
  · exact ⟨st', hf', rfl, id⟩

theorem Follows.complete {reg : PartitionRegistry} (hv : reg.Valid) (t : RecordTicket) :
    Follows reg (reg.complete t).2 := by
  cases hc : reg.isCurrent t with
  | false =>
    rw [complete_of_stale hc]
    exact .refl reg
  | true =>
    obtain ⟨st, hf, hg⟩ := isCurrent_iff.mp hc
    rw [complete_of_current hf hg]
    apply Follows.insertOrAssign hf
    · rw [OffsetTracker.complete_eq (hv.tracker _ st hf)]
      split_ifs <;> rfl
    · intro hnone
      by_contra hsome
      obtain ⟨w, hw⟩ := Option.ne_none_iff_exists'.mp hsome
      obtain ⟨w', hw', -⟩ := OffsetTracker.complete_candidate (hv.tracker _ st hf) t.offset hw
      rw [hnone] at hw'
      cases hw'

theorem Follows.registerRecord {reg : PartitionRegistry} (hv : reg.Valid) (p : PartitionKey) (o : ℤ) :
    Follows reg (reg.registerRecord p o).2 := by
  cases hf : reg.find p with
  | none =>
    rw [registerRecord_of_unassigned hf]
    exact .refl reg
  | some st =>
    rw [registerRecord_of_assigned hf]
    apply Follows.insertOrAssign hf
    · rw [OffsetTracker.registerRecord_eq (hv.tracker p st hf)]
      split_ifs <;> rfl
    · intro hnone
      rwa [OffsetTracker.registerRecord_candidate (hv.tracker p st hf)] at hnone

end PartitionRegistry

theorem quiet_step_follows {config : PipelineConfiguration} {s s' : ConsumerPipeline} {a : PipelineAction}
    (hv : s.registry.Valid) (ha : a.ofWorker = true ∨ a = .reader) (h : s.step config a = some s') :
    s.registry.Follows s'.registry := by
  rcases quiet_step_registry ha h with hreg | ⟨t, hreg⟩
  · rw [hreg]
    exact .refl _
  · rw [hreg]
    exact .complete hv t

/-- What the broker has stored for a partition of the process is what the pipeline has confirmed, unless there is
something to commit; and a position under way was offered by the pipeline. -/
structure Synced (committed : PartitionKey → Option ℤ) (Owned : PartitionKey → Prop) (c : KafkaEventConsumer)
    (b : TicketBook) : Prop where
  ledger : c.pipeline.Ledger b.registered b.settled
  offered : ∀ x, x ∈ c.pc.inFlight ∨ x ∈ c.pc.unconfirmed → ⟨x.partition, x.offset - 1, x.generation⟩ ∈ b.registered
  stored : ∀ p st, Owned p → c.pipeline.registry.find p = some st → st.tracker.commitCandidate = none →
    committed p = st.tracker.committed.or (b.initial p)
  pending : ∀ x ∈ c.pc.inFlight, ∀ st, c.pipeline.registry.find x.partition = some st →
    st.tracker.commitCandidate ≠ none
  unconfirmed : ∀ x ∈ c.pc.unconfirmed, Owned x.partition → committed x.partition = some x.offset

section Moves

variable {committed committed' : PartitionKey → Option ℤ} {Owned Owned' : PartitionKey → Prop}
  {c c' : KafkaEventConsumer} {b b' : TicketBook}

theorem Synced.create (configuration : PipelineConfiguration) : Synced committed Owned (.create configuration) {} := by
  refine ⟨ConsumerPipeline.Ledger.create configuration, ?_, ?_, ?_, ?_⟩
  · rintro x (hx | hx) <;> cases hx
  · intro p st _ hf
    cases (PartitionRegistry.find_empty p).symm.trans hf
  · intro x hx
    cases hx
  · intro x hx
    cases hx

theorem Synced.frame (h : Synced committed Owned c b)
    (hkept : ∀ p, Owned' p → Owned p ∧ committed' p = committed p) : Synced committed' Owned' c b := by
  refine ⟨h.ledger, h.offered, ?_, h.pending, ?_⟩
  · intro p st hown hf hnone
    rw [(hkept p hown).2]
    exact h.stored p st (hkept p hown).1 hf hnone
  · intro x hx hown
    rw [(hkept _ hown).2]
    exact h.unconfirmed x hx (hkept _ hown).1

theorem Synced.move (h : Synced committed Owned c b) (hledger : c'.pipeline.Ledger b'.registered b'.settled)
    (hfollows : c.pipeline.registry.Follows c'.pipeline.registry) (hsub : b.registered ⊆ b'.registered)
    (hinitial : b'.initial = b.initial) (hin : c'.pc.inFlight ⊆ c.pc.inFlight)
    (hun : c'.pc.unconfirmed ⊆ c.pc.unconfirmed) : Synced committed Owned c' b' := by
  refine ⟨hledger, ?_, ?_, ?_, ?_⟩
  · intro x hx
    exact hsub (h.offered x (hx.imp (fun hm => hin hm) (fun hm => hun hm)))
  · intro p st' hown hf' hnone
    obtain ⟨st, hf, hcom, hcand⟩ := hfollows p st' hf'
    rw [hcom, hinitial]
    exact h.stored p st hown hf (hcand hnone)
  · intro x hx st' hf' hnone
    obtain ⟨st, hf, -, hcand⟩ := hfollows _ st' hf'
    exact h.pending x (hin hx) st hf (hcand hnone)
  · intro x hx
    exact h.unconfirmed x (hun hx)

theorem Synced.turn (h : Synced committed Owned c b) (hpipeline : c'.pipeline = c.pipeline)
    (hin : c'.pc.inFlight ⊆ c.pc.inFlight) (hun : c'.pc.unconfirmed ⊆ c.pc.unconfirmed) :
    Synced committed Owned c' b := by
  refine h.move ?_ ?_ (List.Subset.refl _) rfl hin hun
  · rw [hpipeline]
    exact h.ledger
  · rw [hpipeline]
    exact .refl _

theorem Synced.quiet (h : Synced committed Owned c b) {a : PipelineAction} {s' : ConsumerPipeline}
    (ha : a.ofWorker = true ∨ a = .reader) (hstep : c.pipeline.step c.configuration a = some s') :
    Synced committed Owned { c with pipeline := s' } (b.record c a) := by
  refine h.move ?_ ?_ (List.subset_append_left _ _) rfl (List.Subset.refl _) (List.Subset.refl _)
  · apply h.ledger.step hstep
    rintro x rfl
    rcases ha with ha | ha <;> cases ha
  · exact quiet_step_follows h.ledger.valid ha hstep

theorem Synced.request (h : Synced committed Owned c b) {resume : ConsumerPc} (hq : resume.quiet = true) :
    Synced committed Owned
      { c with pc := KafkaEventConsumer.commitOffsets c.pipeline.registry.commitCandidates true resume } b := by
  have hin := (commitOffsets_batch c.pipeline.registry.commitCandidates true hq).2.1
  have hun := commitOffsets_unconfirmed c.pipeline.registry.commitCandidates true hq
  refine ⟨h.ledger, ?_, h.stored, ?_, ?_⟩
  · dsimp only
    rw [hin, hun]
    rintro x (hx | hx)
    · exact h.ledger.booked.candidate h.ledger.valid (PartitionRegistry.mem_commitCandidates.mp hx)
    · cases hx
  · dsimp only
    rw [hin]
    intro x hx st hf
    obtain ⟨st', hf', hc⟩ := PartitionRegistry.mem_commitCandidates.mp hx
    obtain rfl := Option.some.inj (hf'.symm.trans hf)
    rw [PartitionRegistry.candidate_tracker hc]
    exact Option.some_ne_none _
  · dsimp only
    rw [hun]
    intro x hx
    cases hx

theorem Synced.confirm (h : Synced committed Owned c b) {x : CommitPosition} {rest : List CommitPosition}
    {resume : ConsumerPc} (hpc : c.pc = .confirming (x :: rest) resume) (hidle : c.pipeline.reader = .idle) :
    Synced committed Owned { c with
      pipeline := { c.pipeline with registry := (c.pipeline.registry.confirmCommit x).2 }
      pc := .confirming rest resume } b := by
  have hx : x ∈ c.pc.unconfirmed := by
    rw [hpc]
    exact List.mem_cons_self
  have hrest : ∀ y ∈ rest, y ∈ c.pc.unconfirmed := by
    rw [hpc]
    exact fun y hy => List.mem_cons_of_mem x hy
  have hcall : c.pipeline.step c.configuration (.confirmCommit x) =
      some { c.pipeline with registry := (c.pipeline.registry.confirmCommit x).2 } := by
    simp [ConsumerPipeline.step, hidle]
  refine ⟨?_, ?_, ?_, ?_, ?_⟩
  · apply h.ledger.silent hcall rfl rfl
    rintro y ⟨rfl⟩
    exact h.offered x (.inr hx)
  · rintro y (hy | hy)
    · cases hy
    · exact h.offered y (.inr (hrest y hy))
  · intro p st' hown hf' hnone
    dsimp only at hf'
    cases hc : c.pipeline.registry.isCurrent x.ticket with
    | false =>
      rw [PartitionRegistry.confirmCommit_of_stale hc] at hf'
      exact h.stored p st' hown hf' hnone
    | true =>
      obtain ⟨st, hf, hg⟩ := PartitionRegistry.isCurrent_iff.mp hc
      rw [PartitionRegistry.confirmCommit_of_current hf hg, PartitionRegistry.find_insertOrAssign] at hf'
      split_ifs at hf' with hp
      · obtain rfl := Option.some.inj hf'
        subst hp
        have hstored := h.stored _ st hown hf
        dsimp only at hnone ⊢
        rw [OffsetTracker.confirmCommit_eq (h.ledger.valid.tracker _ st hf)] at hnone ⊢
        split_ifs at hnone ⊢
        · exact hstored hnone
        · exact hstored hnone
        · rw [h.unconfirmed x hx hown]
          rfl
      · exact h.stored p st' hown hf' hnone
  · intro y hy
    cases hy
  · intro y hy
    exact h.unconfirmed y (hrest y hy)

theorem Synced.assigned (h : Synced committed Owned c b) (hcb : c.inCallback = true) (ps : List PartitionKey)
    (position : PartitionKey → ℤ) (hkept : ∀ p, p ∉ ps → Owned' p → Owned p) :
    Synced committed Owned' { c with
      pipeline := { c.pipeline with registry := c.pipeline.registry.assign ps }
      assignment := c.assignment ++ ps
      position := position }
      { b with initial := fun p => if p ∈ ps then committed p else b.initial p } := by
  have hidle := (KafkaEventConsumer.inCallback_iff.mp hcb).1
  have hquiet := ConsumerGroup.inCallback_quiet hcb
  have hin := ConsumerPc.quiet_inFlight hquiet
  have hun := ConsumerPc.quiet_unconfirmed hquiet
  have hcall : c.pipeline.step c.configuration (.onPartitionsAssigned ps) =
      some { c.pipeline with registry := c.pipeline.registry.assign ps } := by
    simp [ConsumerPipeline.step, hidle]
  refine ⟨?_, h.offered, ?_, ?_, ?_⟩
  · apply h.ledger.silent hcall rfl rfl
    intro x hx
    cases hx
  · intro p st hown hf hnone
    dsimp only at hf ⊢
    by_cases hp : p ∈ ps
    · obtain ⟨g, hf', -⟩ := PartitionRegistry.assign_find c.pipeline.registry hp
      obtain rfl := Option.some.inj (hf'.symm.trans hf)
      rw [if_pos hp]
      rfl
    · rw [PartitionRegistry.assign_find_other hp] at hf
      rw [if_neg hp]
      exact h.stored p st (hkept p hp hown) hf hnone
  · intro x hx
    rw [show ConsumerPc.inFlight _ = [] from hin] at hx
    cases hx
  · intro x hx
    rw [show ConsumerPc.unconfirmed _ = [] from hun] at hx
    cases hx

theorem Synced.revoked (h : Synced committed Owned c b) (hcb : c.inCallback = true) (ps : List PartitionKey) :
    Synced committed Owned { c with
      pipeline := { c.pipeline with registry := (c.pipeline.registry.revoke ps).2, reader := .revoking ps }
      assignment := c.assignment.filter (fun p => p ∉ ps)
      pc := .revoking (c.pipeline.registry.revoke ps).1 c.pc } b := by
  have hidle := (KafkaEventConsumer.inCallback_iff.mp hcb).1
  have hcall : c.pipeline.step c.configuration (.onPartitionsRevoked ps) =
      some { c.pipeline with registry := (c.pipeline.registry.revoke ps).2, reader := .revoking ps } := by
    simp [ConsumerPipeline.step, hidle]
  refine ⟨?_, ?_, ?_, ?_, ?_⟩
  · apply h.ledger.silent hcall rfl rfl
    intro x hx
    cases hx
  · rintro x (hx | hx)
    · exact h.ledger.booked.candidate h.ledger.valid (revoke_candidate hx).2
    · cases hx
  · intro p st hown hf
    dsimp only at hf
    rw [PartitionRegistry.revoke_find] at hf
    split_ifs at hf
    exact h.stored p st hown hf
  · intro x hx st hf
    dsimp only at hf
    rw [PartitionRegistry.revoke_find, if_pos (revoke_candidate hx).1] at hf
    cases hf
  · intro x hx
    cases hx

theorem Synced.answered (h : Synced committed Owned c b) {applied : List CommitPosition} {pc : ConsumerPc}
    (happlied : ∀ x ∈ applied, x ∈ c.pc.inFlight) (hin : pc.inFlight = [])
    (hun : ∀ x ∈ pc.unconfirmed, x ∈ c.pc.inFlight ∧
      ConsumerGroup.storeOffsets committed applied x.partition = some x.offset)
    (hledger : b'.registered = b.registered ∧ b'.settled = b.settled ∧ b'.initial = b.initial) :
    Synced (ConsumerGroup.storeOffsets committed applied) Owned { c with pc := pc } b' := by
  obtain ⟨hregistered, hsettled, hinitial⟩ := hledger
  refine ⟨?_, ?_, ?_, ?_, ?_⟩
  · rw [hregistered, hsettled]
    exact h.ledger
  · rw [hregistered]
    rintro x (hx | hx)
    · rw [show ConsumerPc.inFlight _ = [] from hin] at hx
      cases hx
    · exact h.offered x (.inl (hun x hx).1)
  · intro p st hown hf hnone
    rw [hinitial]
    rcases ConsumerGroup.storeOffsets_cases committed applied p with he | ⟨x, hx, rfl, -⟩
    · rw [he]
      exact h.stored p st hown hf hnone
    · exact absurd hnone (h.pending x (happlied x hx) st hf)
  · intro x hx
    rw [show ConsumerPc.inFlight _ = [] from hin] at hx
    cases hx
  · intro x hx _
    exact (hun x hx).2

end Moves

theorem storeOffsets_mem {committed : PartitionKey → Option ℤ} {positions : List CommitPosition} {x : CommitPosition}
    (hx : x ∈ positions) : ∃ y ∈ positions, y.partition = x.partition ∧
      ConsumerGroup.storeOffsets committed positions x.partition = some y.offset := by
  induction positions generalizing committed with
  | nil => cases hx
  | cons y positions ih =>
    rw [ConsumerGroup.storeOffsets]
    rcases List.mem_cons.mp hx with rfl | hx
    · rcases ConsumerGroup.storeOffsets_cases (Function.update committed x.partition (some x.offset)) positions
        x.partition with he | ⟨z, hz, hp, he⟩
      · refine ⟨x, List.mem_cons_self, rfl, ?_⟩
        rw [he, Function.update_self]
      · exact ⟨z, List.mem_cons_of_mem x hz, hp, he⟩
    · obtain ⟨z, hz, hp, he⟩ := @ih (Function.update committed y.partition (some y.offset)) hx
      exact ⟨z, List.mem_cons_of_mem y hz, hp, he⟩

section Loops

variable {committed : PartitionKey → Option ℤ} {Owned : PartitionKey → Prop} {c c' : KafkaEventConsumer}
  {b : TicketBook}

theorem after_proceed (hidle : c.pipeline.reader = .idle) (i : ℕ) (due : Bool) :
    b.after committed c (.proceed i due) =
      match c.pc with
      | .ingesting (r :: _) => if r.error then b else b.record c (.ingest r.incoming)
      | _ => b := if_pos hidle

theorem after_commitFailed (i : ℕ) (applied : List CommitPosition) :
    (b.after committed c (.commitFailed i applied)).registered = b.registered ∧
      (b.after committed c (.commitFailed i applied)).settled = b.settled ∧
      (b.after committed c (.commitFailed i applied)).initial = b.initial := by
  simp only [TicketBook.after]
  split <;> exact ⟨rfl, rfl, rfl⟩

theorem after_finalCommitThrew {a : GroupAction} (ha : ∀ i applied, a ≠ .commitFailed i applied) :
    (b.after committed c a).finalCommitThrew = b.finalCommitThrew := by
  cases a with
  | commitFailed i applied => exact absurd rfl (ha i applied)
  | proceed i due =>
    simp only [TicketBook.after]
    split_ifs
    · split
      · split_ifs <;> rfl
      · rfl
    · rfl
  | _ => rfl

theorem synced_loop (h : Synced committed Owned c b) (hq : c.pc.resumesQuiet = true)
    (hidle : c.pipeline.reader = .idle) (hstep : c.LoopStep c') (i : ℕ) (due : Bool) :
    Synced committed Owned c' (b.after committed c (.proceed i due)) := by
  rw [after_proceed hidle]
  cases hstep with
  | subscribed hpc =>
    rw [hpc]
    exact h.turn rfl (List.nil_subset _) (List.nil_subset _)
  | iterate hpc =>
    rw [hpc]
    exact h.turn rfl (List.nil_subset _) (List.nil_subset _)
  | stop hpc =>
    rw [hpc]
    have hcall : c.pipeline.step c.configuration .stop =
        some { c.pipeline with pool := c.pipeline.pool.close, reader := .stopping 0 } := by
      simp [ConsumerPipeline.step, hidle]
    have hledger := h.ledger.silent hcall rfl rfl (fun x hx => by cases hx)
    exact h.move hledger (.refl _) (List.Subset.refl _) rfl (List.nil_subset _) (List.nil_subset _)
  | skip r rest hpc herror =>
    rw [hpc]
    dsimp only
    rw [if_pos herror]
    exact h.turn rfl (List.nil_subset _) (List.nil_subset _)
  | ingest r rest hpc herror =>
    rw [hpc]
    dsimp only
    rw [if_neg (by rw [herror]; exact Bool.false_ne_true)]
    have hcall : c.pipeline.step c.configuration (.ingest r.incoming) = some (c.pipeline.register r.incoming) := by
      simp [ConsumerPipeline.step, hidle]
    have hledger := h.ledger.step hcall (fun x hx => by cases hx)
    refine h.move hledger ?_ (List.subset_append_left _ _) rfl (List.nil_subset _) (List.nil_subset _)
    rw [register_registry]
    exact .registerRecord h.ledger.valid _ _
  | pump hpc =>
    rw [hpc]
    have hcall : c.pipeline.step c.configuration .pump = some { c.pipeline with reader := .pumping } := by
      simp [ConsumerPipeline.step, hidle]
    have hledger := h.ledger.silent hcall rfl rfl (fun x hx => by cases hx)
    exact h.move hledger (.refl _) (List.Subset.refl _) rfl (List.nil_subset _) (List.nil_subset _)
  | pumped hpc =>
    rw [hpc]
    exact h.turn rfl (List.nil_subset _) (List.nil_subset _)
  | paced drained hpc =>
    rw [hpc]
    exact h.turn rfl (List.nil_subset _) (List.nil_subset _)
  | notDue hpc =>
    rw [hpc]
    exact h.turn rfl (List.nil_subset _) (List.nil_subset _)
  | due hpc =>
    rw [hpc]
    exact h.request rfl
  | revoked positions resume hpc =>
    rw [hpc] at hq ⊢
    have hin : (KafkaEventConsumer.commitOffsets positions false resume).inFlight ⊆ c.pc.inFlight := by
      rw [(commitOffsets_batch positions false hq).2.1, hpc]
      exact List.Subset.refl _
    have hun : (KafkaEventConsumer.commitOffsets positions false resume).unconfirmed ⊆ c.pc.unconfirmed := by
      rw [commitOffsets_unconfirmed positions false hq]
      exact List.nil_subset _
    exact h.turn rfl hin hun
  | confirm position rest resume hpc =>
    have hconfirmed := h.confirm hpc hidle
    rw [hpc]
    exact hconfirmed
  | confirmed resume hpc =>
    rw [hpc] at hq ⊢
    have hin : resume.inFlight ⊆ c.pc.inFlight := by
      rw [ConsumerPc.quiet_inFlight hq]
      exact List.nil_subset _
    have hun : resume.unconfirmed ⊆ c.pc.unconfirmed := by
      rw [ConsumerPc.quiet_unconfirmed hq]
      exact List.nil_subset _
    exact h.turn rfl hin hun
  | retry hpc =>
    rw [hpc]
    exact h.turn rfl (List.nil_subset _) (List.nil_subset _)
  | stopped hpc =>
    rw [hpc]
    exact h.turn rfl (List.nil_subset _) (List.nil_subset _)
  | finalCommit hpc =>
    rw [hpc]
    exact h.request rfl

theorem synced_proceed {due : Bool} {settled : List Settlement} (h : Synced committed Owned c b)
    (hq : c.pc.resumesQuiet = true) (hstep : c.proceed due = some (settled, c')) (i : ℕ) :
    Synced committed Owned c' (b.after committed c (.proceed i due)) := by
  rcases KafkaEventConsumer.proceed_some hstep with ⟨hidle, -, hloop⟩ | ⟨hbusy, -, pipeline, hreader, rfl⟩
  · exact synced_loop h hq hidle hloop i due
  · have hbook : b.after committed c (.proceed i due) = b.record c .reader := if_neg hbusy
    rw [hbook]
    exact h.quiet (.inr rfl) hreader

end Loops

namespace ConsumerGroup

def observeBooks (g : ConsumerGroup) (a : GroupAction) : (ℕ → TicketBook) → ℕ → TicketBook :=
  observeProcess {} (fun c b => b.after g.committed c a) a g

def bookStep : ConsumerGroup × (ℕ → TicketBook) → GroupAction → Option (ConsumerGroup × (ℕ → TicketBook)) :=
  observed step observeBooks

theorem run_booked {actions : List GroupAction} {g : ConsumerGroup} (h : run step {} actions = some g) :
    ∃ books, run bookStep ({}, fun _ => {}) actions = some (g, books) := run_observed h _

theorem step_frame {g g' : ConsumerGroup} {a : GroupAction} {j : ℕ} (h : g.step a = some g') (hj : a.actor ≠ some j)
    (p : PartitionKey) (hown : g'.owner p = some j) : g.owner p = some j ∧ g'.committed p = g.committed p := by
  have hstored : ∀ i applied, i ≠ j → g.ownsAll i applied = true → g.owner p = some j →
      storeOffsets g.committed applied p = g.committed p := by
    intro i applied hij hall hp
    rcases storeOffsets_cases g.committed applied p with he | ⟨x, hx, rfl, -⟩
    · exact he
    · simp only [ownsAll, List.all_eq_true, decide_eq_true_eq] at hall
      exact absurd (Option.some.inj ((hall x hx).symm.trans hp)) hij
  cases a with
  | produce r =>
    rw [produce_some h] at hown ⊢
    exact ⟨hown, rfl⟩
  | loseOwner q =>
    obtain rfl := Option.some.inj h
    dsimp only at hown
    rw [Function.update_apply] at hown
    split_ifs at hown
    exact ⟨hown, rfl⟩
  | spawn i configuration =>
    obtain ⟨-, rfl⟩ := spawn_some h
    exact ⟨hown, rfl⟩
  | crash i =>
    obtain rfl := Option.some.inj h
    exact ⟨hown, rfl⟩
  | requestStop i =>
    obtain ⟨c, -, rfl⟩ := requestStop_some h
    exact ⟨hown, rfl⟩
  | assigned i ps =>
    obtain ⟨c, -, -, -, rfl⟩ := assigned_some h
    dsimp only at hown
    split_ifs at hown
    · exact absurd hown hj
    · exact ⟨hown, rfl⟩
  | revoked i ps =>
    obtain ⟨c, -, -, rfl⟩ := revoked_some h
    exact ⟨hown, rfl⟩
  | polled i batch =>
    obtain ⟨c, -, -, -, rfl⟩ := polled_some h
    exact ⟨hown, rfl⟩
  | kafkaError i =>
    obtain ⟨c, -, -, rfl⟩ := kafkaError_some h
    exact ⟨hown, rfl⟩
  | proceed i due =>
    obtain ⟨c, c', settled, -, -, rfl⟩ := proceed_some h
    exact ⟨hown, rfl⟩
  | committed i =>
    obtain ⟨c, positions, confirm, resume, -, -, hall, rfl⟩ := committed_some h
    exact ⟨hown, hstored i positions (fun he => hj (congrArg some he)) hall hown⟩
  | commitFailed i applied =>
    obtain ⟨c, positions, confirm, resume, -, -, -, hall, rfl⟩ := commitFailed_some h
    exact ⟨hown, hstored i applied (fun he => hj (congrArg some he)) hall hown⟩
  | worker i a =>
    obtain ⟨c, pipeline, -, -, -, rfl⟩ := worker_some h
    exact ⟨hown, rfl⟩

def BooksSynced (s : ConsumerGroup × (ℕ → TicketBook)) : Prop :=
  ∀ i c, s.1.processes i = some c → Synced s.1.committed (fun p => s.1.owner p = some i) c (s.2 i)

section Books

variable {s t : ConsumerGroup × (ℕ → TicketBook)} {a : GroupAction} {i : ℕ} {c : KafkaEventConsumer}

theorem observeBooks_self {g : ConsumerGroup} {books : ℕ → TicketBook} (hi : a.actor = some i)
    (hc : g.processes i = some c) : observeBooks g a books i = (books i).after g.committed c a :=
  observeProcess_self hi hc

theorem synced_answered {g : ConsumerGroup} {b b' : TicketBook} (hs : ConsumerSound g.log g.history c)
    (h : Synced g.committed (fun p => g.owner p = some i) c b) {positions applied : List CommitPosition} {confirm : Bool}
    {resume pc : ConsumerPc} (hpc : c.pc = .committing positions confirm resume)
    (happlied : ∀ x ∈ applied, x ∈ positions)
    (hnext : applied = positions ∧ pc = .confirming positions resume ∨ pc = resume)
    (hledger : b'.registered = b.registered ∧ b'.settled = b.settled ∧ b'.initial = b.initial) :
    Synced (storeOffsets g.committed applied) (fun p => g.owner p = some i) { c with pc := pc } b' := by
  have hin : c.pc.inFlight = positions := by
    rw [hpc]
    rfl
  have hq : resume.quiet = true := by
    have hres := hs.resume
    rwa [hpc] at hres
  have hmem : ∀ x ∈ applied, x ∈ c.pc.inFlight := by
    rw [hin]
    exact happlied
  rcases hnext with ⟨rfl, rfl⟩ | rfl
  · refine h.answered hmem rfl ?_ hledger
    intro x hx
    obtain ⟨y, hy, hp, he⟩ := storeOffsets_mem hx
    have hxy := hs.unique y (hmem y hy) x (hmem x hx) hp
    rw [hxy] at he
    exact ⟨hmem x hx, he⟩
  · refine h.answered hmem (ConsumerPc.quiet_inFlight hq) ?_ hledger
    intro x hx
    rw [ConsumerPc.quiet_unconfirmed hq] at hx
    cases hx

theorem synced_step (hg : GroupSound s.1) (h : BooksSynced s) (hstep : bookStep s a = some t) : BooksSynced t := by
  obtain ⟨hgroup, hbooks⟩ := observed_some hstep
  intro j d hd
  rw [hbooks]
  by_cases hj : a.actor = some j
  · cases a with
    | produce r => cases hj
    | loseOwner p => cases hj
    | spawn i configuration =>
      obtain rfl := Option.some.inj hj
      obtain ⟨hnone, ht⟩ := spawn_some hgroup
      rw [ht, setProcess_self] at hd
      obtain rfl := Option.some.inj hd
      have hfresh : observeBooks s.1 (.spawn i configuration) s.2 i = {} := observeProcess_fresh rfl hnone
      rw [hfresh]
      exact Synced.create configuration
    | crash i =>
      obtain rfl := Option.some.inj hj
      have ht : t.1 = { s.1 with processes := Function.update s.1.processes i none } := (Option.some.inj hgroup).symm
      have hgone : t.1.processes i = none := by
        rw [ht]
        exact Function.update_self ..
      rw [hgone] at hd
      cases hd
    | requestStop i =>
      obtain rfl := Option.some.inj hj
      obtain ⟨c, hc, ht⟩ := requestStop_some hgroup
      rw [ht] at hd ⊢
      rw [setProcess_self] at hd
      obtain rfl := Option.some.inj hd
      rw [observeBooks_self rfl hc]
      exact (h i c hc).turn rfl (List.Subset.refl _) (List.Subset.refl _)
    | assigned i ps =>
      obtain rfl := Option.some.inj hj
      obtain ⟨c, hc, hcb, -, ht⟩ := assigned_some hgroup
      rw [ht] at hd ⊢
      obtain rfl := Option.some.inj ((setProcess_self s.1 i _).symm.trans hd)
      rw [observeBooks_self rfl hc]
      refine (h i c hc).assigned hcb ps _ ?_
      intro p hp hown
      dsimp only at hown
      rwa [if_neg hp] at hown
    | revoked i ps =>
      obtain rfl := Option.some.inj hj
      obtain ⟨c, hc, hcb, ht⟩ := revoked_some hgroup
      rw [ht] at hd ⊢
      rw [setProcess_self] at hd
      obtain rfl := Option.some.inj hd
      rw [observeBooks_self rfl hc]
      exact (h i c hc).revoked hcb ps
    | polled i batch =>
      obtain rfl := Option.some.inj hj
      obtain ⟨c, hc, hpc, -, ht⟩ := polled_some hgroup
      rw [ht] at hd ⊢
      rw [setProcess_self] at hd
      obtain rfl := Option.some.inj hd
      rw [observeBooks_self rfl hc]
      exact (h i c hc).turn rfl (List.nil_subset _) (List.nil_subset _)
    | kafkaError i =>
      obtain rfl := Option.some.inj hj
      obtain ⟨c, hc, -, ht⟩ := kafkaError_some hgroup
      rw [ht] at hd ⊢
      rw [setProcess_self] at hd
      obtain rfl := Option.some.inj hd
      rw [observeBooks_self rfl hc]
      exact (h i c hc).turn rfl (List.nil_subset _) (List.nil_subset _)
    | proceed i due =>
      obtain rfl := Option.some.inj hj
      obtain ⟨c, c', settled, hc, hproceed, ht⟩ := proceed_some hgroup
      rw [ht] at hd ⊢
      obtain rfl := Option.some.inj ((setProcess_self s.1 i _).symm.trans hd)
      rw [observeBooks_self rfl hc]
      exact synced_proceed (h i c hc) (hg.processes i c hc).resume hproceed i
    | committed i =>
      obtain rfl := Option.some.inj hj
      obtain ⟨c, positions, confirm, resume, hc, hpc, -, ht⟩ := committed_some hgroup
      rw [ht] at hd ⊢
      rw [setProcess_self] at hd
      obtain rfl := Option.some.inj hd
      rw [observeBooks_self rfl hc]
      refine synced_answered (hg.processes i c hc) (h i c hc) hpc (fun _ hx => hx) ?_ ⟨rfl, rfl, rfl⟩
      cases confirm with
      | false => exact .inr rfl
      | true => exact .inl ⟨rfl, rfl⟩
    | commitFailed i applied =>
      obtain rfl := Option.some.inj hj
      obtain ⟨c, positions, confirm, resume, hc, hpc, happlied, -, ht⟩ := commitFailed_some hgroup
      rw [ht] at hd ⊢
      rw [setProcess_self] at hd
      obtain rfl := Option.some.inj hd
      rw [observeBooks_self rfl hc]
      exact synced_answered (hg.processes i c hc) (h i c hc) hpc happlied (.inr rfl) (after_commitFailed i applied)
    | worker i a =>
      obtain rfl := Option.some.inj hj
      obtain ⟨c, pipeline, hc, ha, hp, ht⟩ := worker_some hgroup
      rw [ht] at hd ⊢
      obtain rfl := Option.some.inj ((setProcess_self s.1 i _).symm.trans hd)
      rw [observeBooks_self rfl hc]
      exact (h i c hc).quiet (.inl ha) hp
  · have hsame : observeBooks s.1 a s.2 j = s.2 j := observeProcess_other hj
    rw [step_other hgroup hj] at hd
    rw [hsame]
    exact (h j d hd).frame (step_frame hgroup hj)

end Books

end ConsumerGroup

end LiquidPetProject.Messaging
