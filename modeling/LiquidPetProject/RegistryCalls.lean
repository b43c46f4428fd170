import LiquidPetProject.PartitionRegistry
import LiquidPetProject.Transitions

namespace LiquidPetProject.Messaging

open Transitions

inductive RegistryCall
  | assign (partitions : List PartitionKey)
  | revoke (partitions : List PartitionKey)
  | registerRecord (partition : PartitionKey) (offset : ℤ)
  | complete (ticket : RecordTicket)
  | commitCandidates
  | confirmCommit (position : CommitPosition)
  | isCurrent (ticket : RecordTicket)
  deriving DecidableEq, Repr

def RegistryCall.assignments : RegistryCall → ℕ
  | .assign ps => ps.length
  | _ => 0

inductive RegistryResult
  | unit
  | positions (ps : List CommitPosition)
  | ticket (r : Except ErrorCode RecordTicket)
  | completion (r : Except ErrorCode CompletionResult)
  | confirmed (r : Except ErrorCode Unit)
  | current (b : Bool)
  deriving DecidableEq, Repr

inductive TrackerStep (t : OffsetTracker) : OffsetTracker → Prop
  | refl : TrackerStep t t
  | registerRecord (o : ℤ) : TrackerStep t (t.registerRecord o).2
  | complete (o : ℤ) : TrackerStep t (t.complete o).2
  | confirmCommit (p : ℤ) : TrackerStep t (t.confirmCommit p).2

theorem TrackerStep.valid {t t' : OffsetTracker} (h : TrackerStep t t') (ht : t.Valid) : t'.Valid := by
  cases h with
  | refl => exact ht
  | registerRecord o => exact ht.registerRecord o
  | complete o => exact ht.complete o
  | confirmCommit p => exact ht.confirmCommit p

def CommitPosition.ticket (c : CommitPosition) : RecordTicket := ⟨c.partition, c.offset, c.generation⟩

namespace PartitionRegistry

def call (reg : PartitionRegistry) : RegistryCall → RegistryResult × PartitionRegistry
  | .assign ps => (.unit, reg.assign ps)
  | .revoke ps => (.positions (reg.revoke ps).1, (reg.revoke ps).2)
  | .registerRecord p o => (.ticket (reg.registerRecord p o).1, (reg.registerRecord p o).2)
  | .complete t => (.completion (reg.complete t).1, (reg.complete t).2)
  | .commitCandidates => (.positions reg.commitCandidates, reg)
  | .confirmCommit c => (.confirmed (reg.confirmCommit c).1, (reg.confirmCommit c).2)
  | .isCurrent t => (.current (reg.isCurrent t), reg)

theorem isCurrent_iff {reg : PartitionRegistry} {t : RecordTicket} :
    reg.isCurrent t = true ↔ ∃ st, reg.find t.partition = some st ∧ st.generation = t.generation := by
  simp [isCurrent, Option.any_eq_true]

theorem complete_of_stale {reg : PartitionRegistry} {t : RecordTicket} (h : reg.isCurrent t = false) :
    reg.complete t = (.ok .stale, reg) := by
  unfold complete
  unfold isCurrent at h
  cases hf : reg.find t.partition with
  | none => rfl
  | some st =>
    have hg : st.generation ≠ t.generation := by simpa [hf] using h
    simp [hg]

theorem confirmCommit_of_stale {reg : PartitionRegistry} {c : CommitPosition}
    (h : reg.isCurrent c.ticket = false) : reg.confirmCommit c = (.ok (), reg) := by
  unfold confirmCommit
  unfold isCurrent CommitPosition.ticket at h
  cases hf : reg.find c.partition with
  | none => rfl
  | some st =>
    have hg : st.generation ≠ c.generation := by simpa [hf] using h
    simp [hg]

theorem complete_of_current {reg : PartitionRegistry} {t : RecordTicket} {st : PartitionState}
    (hf : reg.find t.partition = some st) (hg : st.generation = t.generation) :
    reg.complete t = ((st.tracker.complete t.offset).1.map (fun _ => .applied),
      reg.insertOrAssign t.partition { st with tracker := (st.tracker.complete t.offset).2 }) := by
  simp [complete, hf, hg]

theorem confirmCommit_of_current {reg : PartitionRegistry} {c : CommitPosition} {st : PartitionState}
    (hf : reg.find c.partition = some st) (hg : st.generation = c.generation) :
    reg.confirmCommit c = ((st.tracker.confirmCommit c.offset).1,
      reg.insertOrAssign c.partition { st with tracker := (st.tracker.confirmCommit c.offset).2 }) := by
  simp [confirmCommit, hf, hg]

theorem registerRecord_of_assigned {reg : PartitionRegistry} {p : PartitionKey} {o : ℤ}
    {st : PartitionState} (hf : reg.find p = some st) :
    reg.registerRecord p o = ((st.tracker.registerRecord o).1.map (fun _ => ⟨p, o, st.generation⟩),
      reg.insertOrAssign p { st with tracker := (st.tracker.registerRecord o).2 }) := by
  simp [registerRecord, hf]

theorem registerRecord_of_unassigned {reg : PartitionRegistry} {p : PartitionKey} {o : ℤ}
    (hf : reg.find p = none) :
    reg.registerRecord p o = (.error (.partitionRegistry .partitionNotAssigned), reg) := by
  simp [registerRecord, hf]

theorem revoke_find (reg : PartitionRegistry) (ps : List PartitionKey) (q : PartitionKey) :
    (reg.revoke ps).2.find q = if q ∈ ps then none else reg.find q := by
  induction ps generalizing reg with
  | nil => simp [revoke]
  | cons p ps ih =>
    unfold revoke
    by_cases hq : p = q
    · subst hq
      cases hf : reg.find p with
      | none => simp [ih, hf]
      | some st => simp [ih]
    · cases hf : reg.find p with
      | none => simp [ih, Ne.symm hq]
      | some st => simp [ih, hq, Ne.symm hq]

@[simp] theorem revoke_lastGeneration (reg : PartitionRegistry) (ps : List PartitionKey) :
    (reg.revoke ps).2.lastGeneration = reg.lastGeneration := by
  induction ps generalizing reg with
  | nil => rfl
  | cons p ps ih =>
    unfold revoke
    cases reg.find p with
    | none => exact ih reg
    | some st => exact ih (reg.erase p)

theorem candidate_partition {p : PartitionKey} {st : PartitionState} {c : CommitPosition}
    (h : candidate p st = some c) : c.partition = p ∧ c.generation = st.generation := by
  obtain ⟨o, -, rfl⟩ := Option.map_eq_some_iff.mp h
  exact ⟨rfl, rfl⟩

theorem revoke_filter (reg : PartitionRegistry) (ps : List PartitionKey) (q : PartitionKey) :
    (reg.revoke ps).1.filter (fun c => c.partition = q) =
      if q ∈ ps then ((reg.find q).bind (candidate q)).toList else [] := by
  induction ps generalizing reg with
  | nil => simp [revoke]
  | cons p ps ih =>
    unfold revoke
    cases hf : reg.find p with
    | none =>
      by_cases hq : q = p
      · subst hq
        simp [ih, hf]
      · simp [ih, hq]
    | some st =>
      have hc : ∀ c ∈ (candidate p st).toList, c.partition = p :=
        fun c hc => (candidate_partition (Option.mem_toList.mp hc)).1
      simp only [List.filter_append, ih, find_erase]
      by_cases hq : q = p
      · subst hq
        rw [List.filter_eq_self.mpr (fun c h => by simpa using hc c h)]
        simp [hf]
      · rw [List.filter_eq_nil_iff.mpr (fun c h => by simpa [hc c h] using Ne.symm hq)]
        simp [hq, Ne.symm hq]

@[simp] theorem assign_lastGeneration (reg : PartitionRegistry) (ps : List PartitionKey) :
    (reg.assign ps).lastGeneration = reg.lastGeneration + ps.length := by
  induction ps generalizing reg with
  | nil => rfl
  | cons p ps ih =>
    refine (ih (reg.assignOne p)).trans ?_
    simp only [assignOne_lastGeneration, List.length_cons]
    omega

theorem assign_find_other {reg : PartitionRegistry} {ps : List PartitionKey} {q : PartitionKey}
    (h : q ∉ ps) : (reg.assign ps).find q = reg.find q := by
  induction ps generalizing reg with
  | nil => rfl
  | cons p ps ih =>
    simp only [List.mem_cons, not_or] at h
    refine (ih h.2).trans ?_
    simp [Ne.symm h.1]

theorem assign_find (reg : PartitionRegistry) {ps : List PartitionKey} {q : PartitionKey} (h : q ∈ ps) :
    ∃ g, (reg.assign ps).find q = some ⟨g, {}⟩ ∧ reg.lastGeneration < g ∧
      g ≤ reg.lastGeneration + ps.length := by
  induction ps generalizing reg with
  | nil => simp at h
  | cons p ps ih =>
    by_cases hq : q ∈ ps
    · obtain ⟨g, hf, hlo, hhi⟩ := ih (reg.assignOne p) hq
      simp only [assignOne_lastGeneration] at hlo hhi
      refine ⟨g, hf, by omega, ?_⟩
      simp only [List.length_cons]
      omega
    · obtain rfl : q = p := by simpa [hq] using h
      refine ⟨reg.lastGeneration + 1, (assign_find_other hq).trans (by simp), by omega, ?_⟩
      simp only [List.length_cons]
      omega

theorem call_find {reg : PartitionRegistry} {c : RegistryCall} {q : PartitionKey} {st : PartitionState}
    (h : (reg.call c).2.find q = some st) :
    (∃ old, reg.find q = some old ∧ old.generation = st.generation ∧
        TrackerStep old.tracker st.tracker) ∨
      (st.tracker = {} ∧ reg.lastGeneration < st.generation ∧
        st.generation ≤ (reg.call c).2.lastGeneration) := by
  cases c with
  | assign ps =>
    by_cases hq : q ∈ ps
    · obtain ⟨g, hf, hlo, hhi⟩ := assign_find reg hq
      obtain rfl := Option.some.inj (hf.symm.trans h)
      exact .inr ⟨rfl, hlo, by simpa [call] using hhi⟩
    · exact .inl ⟨st, (assign_find_other hq).symm.trans h, rfl, .refl⟩
  | revoke ps =>
    simp only [call, revoke_find] at h
    split_ifs at h
    exact .inl ⟨st, h, rfl, .refl⟩
  | registerRecord p o =>
    simp only [call] at h
    cases hf : reg.find p with
    | none =>
      rw [registerRecord_of_unassigned hf] at h
      exact .inl ⟨st, h, rfl, .refl⟩
    | some old =>
      rw [registerRecord_of_assigned hf, find_insertOrAssign] at h
      split_ifs at h with hp
      · subst hp
        obtain rfl := Option.some.inj h
        exact .inl ⟨old, hf, rfl, .registerRecord o⟩
      · exact .inl ⟨st, h, rfl, .refl⟩
  | complete t =>
    simp only [call] at h
    cases hc : reg.isCurrent t with
    | false =>
      rw [complete_of_stale hc] at h
      exact .inl ⟨st, h, rfl, .refl⟩
    | true =>
      obtain ⟨old, hf, hg⟩ := isCurrent_iff.mp hc
      rw [complete_of_current hf hg, find_insertOrAssign] at h
      split_ifs at h with hp
      · subst hp
        obtain rfl := Option.some.inj h
        exact .inl ⟨old, hf, rfl, .complete t.offset⟩
      · exact .inl ⟨st, h, rfl, .refl⟩
  | confirmCommit c =>
    simp only [call] at h
    cases hc : reg.isCurrent c.ticket with
    | false =>
      rw [confirmCommit_of_stale hc] at h
      exact .inl ⟨st, h, rfl, .refl⟩
    | true =>
      obtain ⟨old, hf, hg⟩ := isCurrent_iff.mp hc
      rw [confirmCommit_of_current hf hg, find_insertOrAssign] at h
      split_ifs at h with hp
      · subst hp
        obtain rfl := Option.some.inj h
        exact .inl ⟨old, hf, rfl, .confirmCommit c.offset⟩
      · exact .inl ⟨st, h, rfl, .refl⟩
  | commitCandidates => exact .inl ⟨st, h, rfl, .refl⟩
  | isCurrent t => exact .inl ⟨st, h, rfl, .refl⟩

theorem call_lastGeneration (reg : PartitionRegistry) (c : RegistryCall) :
    (reg.call c).2.lastGeneration = reg.lastGeneration + c.assignments := by
  cases c with
  | assign ps => simp [call, RegistryCall.assignments]
  | revoke ps => simp [call, RegistryCall.assignments]
  | registerRecord p o =>
    cases hf : reg.find p with
    | none => simp [call, RegistryCall.assignments, registerRecord_of_unassigned hf]
    | some old => simp [call, RegistryCall.assignments, registerRecord_of_assigned hf]
  | complete t =>
    cases hc : reg.isCurrent t with
    | false => simp [call, RegistryCall.assignments, complete_of_stale hc]
    | true =>
      obtain ⟨old, hf, hg⟩ := isCurrent_iff.mp hc
      simp [call, RegistryCall.assignments, complete_of_current hf hg]
  | confirmCommit c =>
    cases hc : reg.isCurrent c.ticket with
    | false => simp [call, RegistryCall.assignments, confirmCommit_of_stale hc]
    | true =>
      obtain ⟨old, hf, hg⟩ := isCurrent_iff.mp hc
      simp [call, RegistryCall.assignments, confirmCommit_of_current hf hg]
  | commitCandidates => rfl
  | isCurrent t => rfl

theorem call_lastGeneration_le (reg : PartitionRegistry) (c : RegistryCall) :
    reg.lastGeneration ≤ (reg.call c).2.lastGeneration := by
  rw [call_lastGeneration]
  exact Nat.le_add_right ..

def Outdated (reg : PartitionRegistry) (t : RecordTicket) : Prop :=
  t.generation ≤ reg.lastGeneration ∧ reg.isCurrent t = false

theorem Outdated.call {reg : PartitionRegistry} {t : RecordTicket} (h : reg.Outdated t)
    (c : RegistryCall) : (reg.call c).2.Outdated t := by
  obtain ⟨hg, hc⟩ := h
  refine ⟨hg.trans (call_lastGeneration_le reg c), ?_⟩
  rw [Bool.eq_false_iff] at hc ⊢
  intro hcur
  obtain ⟨st, hf, he⟩ := isCurrent_iff.mp hcur
  rcases call_find hf with ⟨old, ho, hog, -⟩ | ⟨-, hlt, -⟩
  · exact hc (isCurrent_iff.mpr ⟨old, ho, hog.trans he⟩)
  · omega

theorem Outdated.trace {reg : PartitionRegistry} {t : RecordTicket} (h : reg.Outdated t)
    (calls : List RegistryCall) : (trace PartitionRegistry.call reg calls).2.Outdated t :=
  trace_preserves (I := fun r : PartitionRegistry => r.Outdated t) (fun _ c h => h.call c) h calls

structure Valid (reg : PartitionRegistry) : Prop where
  tracker : ∀ p st, reg.find p = some st → st.tracker.Valid
  generation : ∀ p st, reg.find p = some st → st.generation ≤ reg.lastGeneration

theorem Valid.empty : Valid {} := by
  constructor <;> simp

theorem Valid.call {reg : PartitionRegistry} (h : reg.Valid) (c : RegistryCall) : (reg.call c).2.Valid := by
  constructor
  · intro p st hf
    rcases call_find hf with ⟨old, ho, -, hs⟩ | ⟨ht, -⟩
    · exact hs.valid (h.tracker p old ho)
    · rw [ht]
      exact OffsetTracker.Valid.empty
  · intro p st hf
    rcases call_find hf with ⟨old, ho, hg, -⟩ | ⟨-, -, hle⟩
    · rw [← hg]
      exact (h.generation p old ho).trans (call_lastGeneration_le reg c)
    · exact hle

theorem Valid.trace (calls : List RegistryCall) : (trace PartitionRegistry.call {} calls).2.Valid :=
  trace_preserves (I := fun r : PartitionRegistry => r.Valid) (fun _ c h => h.call c) Valid.empty calls

def WhenCurrent (Q : OffsetTracker → ℤ → Prop) (reg : PartitionRegistry) (t : RecordTicket) : Prop :=
  ∀ st, reg.find t.partition = some st → st.generation = t.generation → Q st.tracker t.offset

theorem WhenCurrent.call {Q : OffsetTracker → ℤ → Prop} {reg : PartitionRegistry} {t : RecordTicket}
    (hQ : ∀ a b o, OffsetTracker.Valid a → TrackerStep a b → Q a o → Q b o) (hv : reg.Valid)
    (hg : t.generation ≤ reg.lastGeneration) (h : reg.WhenCurrent Q t) (c : RegistryCall) :
    (reg.call c).2.WhenCurrent Q t := by
  intro st hf hst
  rcases call_find hf with ⟨old, ho, hog, hs⟩ | ⟨-, hlt, -⟩
  · exact hQ _ _ _ (hv.tracker _ _ ho) hs (h old ho (hog.trans hst))
  · omega

end PartitionRegistry

def OffsetTracker.Knows (t : OffsetTracker) (o : ℤ) : Prop :=
  (∃ e ∈ t.entries, e.offset = o) ∨ ∃ c, t.committed = some c ∧ o < c

def OffsetTracker.Completed (t : OffsetTracker) (o : ℤ) : Prop :=
  (∃ e ∈ t.entries, e.offset = o ∧ e.done = true) ∨ ∃ c, t.committed = some c ∧ o < c

theorem OffsetTracker.markDone_mem {es : List Entry} {o : ℤ} {e : Entry} (he : e ∈ es) :
    ∃ f ∈ OffsetTracker.markDone o es, f.offset = e.offset ∧
      (f.done = true ↔ e.done = true ∨ e.offset = o) := by
  refine ⟨_, List.mem_map_of_mem he, ?_⟩
  split_ifs with ho <;> simp [ho]

theorem TrackerStep.keeps {t t' : OffsetTracker} {o : ℤ} {P : Entry → Prop}
    (hP : ∀ e f : Entry, (e.done = true → f.done = true) → P e → P f) (ht : t.Valid) (h : TrackerStep t t')
    (hk : (∃ e ∈ t.entries, e.offset = o ∧ P e) ∨ ∃ c, t.committed = some c ∧ o < c) :
    (∃ e ∈ t'.entries, e.offset = o ∧ P e) ∨ ∃ c, t'.committed = some c ∧ o < c := by
  cases h with
  | refl => exact hk
  | registerRecord x =>
    rw [OffsetTracker.registerRecord_eq ht]
    split_ifs
    · exact hk
    · exact hk.imp (fun ⟨e, he, ho⟩ => ⟨e, List.mem_append_left _ he, ho⟩) id
  | complete x =>
    rw [OffsetTracker.complete_eq ht]
    split_ifs
    · exact hk
    · refine hk.imp (fun ⟨e, he, ho, hp⟩ => ?_) id
      obtain ⟨f, hf, hfo, hfd⟩ := OffsetTracker.markDone_mem (o := x) he
      exact ⟨f, hf, hfo.trans ho, hP e f (fun hd => hfd.mpr (.inl hd)) hp⟩
    · exact hk
  | confirmCommit p =>
    rw [OffsetTracker.confirmCommit_eq ht]
    split_ifs with hc hw
    · exact hk
    · exact hk
    · rcases hk with ⟨e, he, rfl, hpe⟩ | ⟨c, hcom, hlt⟩
      · by_cases hp : p ≤ e.offset
        · exact .inl ⟨e, (OffsetTracker.not_covered ht.sorted).mpr ⟨he, hp⟩, rfl, hpe⟩
        · exact .inr ⟨p, rfl, by omega⟩
      · have : c < p := by simpa [hcom] using hc
        exact .inr ⟨p, rfl, by omega⟩

theorem TrackerStep.knows {t t' : OffsetTracker} {o : ℤ} (ht : t.Valid) (h : TrackerStep t t')
    (hk : t.Knows o) : t'.Knows o := by
  have hkept := h.keeps (P := fun _ => True) (fun _ _ _ hp => hp) ht
    (hk.imp (fun ⟨e, he, ho⟩ => ⟨e, he, ho, trivial⟩) id)
  exact hkept.imp (fun ⟨e, he, ho, _⟩ => ⟨e, he, ho⟩) id

theorem TrackerStep.completed {t t' : OffsetTracker} {o : ℤ} (ht : t.Valid) (h : TrackerStep t t')
    (hk : t.Completed o) : t'.Completed o :=
  h.keeps (fun _ _ hd => hd) ht hk

namespace PartitionRegistry

structure Issued (reg : PartitionRegistry) (t : RecordTicket) : Prop where
  generation : t.generation ≤ reg.lastGeneration
  known : reg.WhenCurrent OffsetTracker.Knows t

structure Settled (reg : PartitionRegistry) (t : RecordTicket) : Prop where
  generation : t.generation ≤ reg.lastGeneration
  completed : reg.WhenCurrent OffsetTracker.Completed t

theorem Issued.call {reg : PartitionRegistry} {t : RecordTicket} (hv : reg.Valid) (h : reg.Issued t)
    (c : RegistryCall) : (reg.call c).2.Issued t :=
  ⟨h.generation.trans (call_lastGeneration_le reg c),
    h.known.call (fun _ _ _ ha hs hk => hs.knows ha hk) hv h.generation c⟩

theorem Settled.call {reg : PartitionRegistry} {t : RecordTicket} (hv : reg.Valid) (h : reg.Settled t)
    (c : RegistryCall) : (reg.call c).2.Settled t :=
  ⟨h.generation.trans (call_lastGeneration_le reg c),
    h.completed.call (fun _ _ _ ha hs hk => hs.completed ha hk) hv h.generation c⟩

theorem registerRecord_issued {reg : PartitionRegistry} {p : PartitionKey} {o : ℤ} {t : RecordTicket}
    (hv : reg.Valid) (h : (reg.registerRecord p o).1 = .ok t) :
    (reg.registerRecord p o).2.Issued t ∧ t.partition = p ∧ t.offset = o := by
  cases hf : reg.find p with
  | none => simp [registerRecord_of_unassigned hf] at h
  | some st =>
    rw [registerRecord_of_assigned hf] at h ⊢
    cases hr : (st.tracker.registerRecord o).1 with
    | error e => simp [hr, Except.map] at h
    | ok u =>
      obtain rfl : (⟨p, o, st.generation⟩ : RecordTicket) = t := by simpa [hr, Except.map] using h
      refine ⟨⟨hv.generation p st hf, ?_⟩, rfl, rfl⟩
      intro st' hf' hg
      rw [find_insertOrAssign, if_pos rfl] at hf'
      obtain rfl := Option.some.inj hf'
      dsimp only
      rw [OffsetTracker.registerRecord_eq (hv.tracker p st hf)] at hr ⊢
      split_ifs at hr ⊢ with hl
      exact .inl ⟨⟨o, false⟩, by simp, rfl⟩

theorem Issued.trace {reg : PartitionRegistry} {t : RecordTicket} (hv : reg.Valid) (h : reg.Issued t)
    (calls : List RegistryCall) : (trace PartitionRegistry.call reg calls).2.Issued t :=
  (trace_preserves (I := fun r : PartitionRegistry => r.Valid ∧ r.Issued t)
    (fun _ c hr => ⟨hr.1.call c, hr.2.call hr.1 c⟩) ⟨hv, h⟩ calls).2

theorem trace_issued {reg : PartitionRegistry} (hv : reg.Valid) {calls : List RegistryCall}
    {t : RecordTicket} (h : .ticket (.ok t) ∈ (LiquidPetProject.Transitions.trace call reg calls).1) :
    (LiquidPetProject.Transitions.trace call reg calls).2.Issued t := by
  induction calls generalizing reg with
  | nil => simp at h
  | cons c calls ih =>
    simp only [trace_cons, List.mem_cons] at h
    rcases h with h | h
    · cases c with
      | registerRecord p o =>
        have hr : (reg.registerRecord p o).1 = .ok t := by simpa [call] using h.symm
        exact (registerRecord_issued hv hr).1.trace (hv.call (.registerRecord p o)) calls
      | _ => simp [call] at h
    · exact ih (hv.call c) h

theorem complete_issued {reg : PartitionRegistry} {t : RecordTicket} (hv : reg.Valid) (h : reg.Issued t) :
    (reg.complete t).1 = .ok (if reg.isCurrent t then .applied else .stale) ∧
      (reg.complete t).2.Settled t := by
  cases hc : reg.isCurrent t with
  | false =>
    rw [complete_of_stale hc]
    refine ⟨rfl, h.generation, fun st hf hg => ?_⟩
    rw [isCurrent_iff.mpr ⟨st, hf, hg⟩] at hc
    cases hc
  | true =>
    obtain ⟨st, hf, hg⟩ := isCurrent_iff.mp hc
    have htv := hv.tracker _ st hf
    have hk := h.known st hf hg
    rw [complete_of_current hf hg]
    have hdone : (st.tracker.complete t.offset).1 = .ok () ∧
        (st.tracker.complete t.offset).2.Completed t.offset := by
      rw [OffsetTracker.complete_eq htv]
      split_ifs with hcom hm
      · refine ⟨rfl, .inr ?_⟩
        cases hcc : st.tracker.committed with
        | none => simp [hcc] at hcom
        | some c => exact ⟨c, rfl, by simpa [hcc] using hcom⟩
      · obtain ⟨e, he, ho⟩ := hm
        obtain ⟨f, hfm, hfo, hfd⟩ := OffsetTracker.markDone_mem (o := t.offset) he
        exact ⟨rfl, .inl ⟨f, hfm, hfo.trans ho, hfd.mpr (.inr ho)⟩⟩
      · rcases hk with hk | ⟨c, hcc, hlt⟩
        · exact absurd hk hm
        · simp [hcc, hlt] at hcom
    refine ⟨by rw [hdone.1]; rfl, h.generation, fun st' hf' _ => ?_⟩
    rw [find_insertOrAssign, if_pos rfl] at hf'
    obtain rfl := Option.some.inj hf'
    exact hdone.2

end PartitionRegistry

end LiquidPetProject.Messaging
