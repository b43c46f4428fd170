import LiquidPetProject.RegistryCalls

namespace LiquidPetProject.Messaging

open Transitions

theorem OffsetTracker.Knows.lt_registered {t : OffsetTracker} (ht : t.Valid) {o x : ℤ} (h : t.Knows o)
    (hx : (t.registerRecord x).1 = .ok ()) : o < x := by
  have hlast : ∀ last, t.lastRegistered = some last → last < x := by
    intro last hl
    rw [OffsetTracker.registerRecord, hl] at hx
    by_contra hle
    simp [not_lt.mp hle] at hx
  rcases h with ⟨e, he, rfl⟩ | ⟨c, hc, hlt⟩
  · obtain ⟨last, hl, hle⟩ := ht.registered e he
    exact hle.trans_lt (hlast last hl)
  · obtain ⟨last, hl, hle⟩ := ht.committed c hc
    have := hlast last hl
    omega

theorem OffsetTracker.Completed.not_pending {t : OffsetTracker} (ht : t.Valid) {o : ℤ}
    (h : t.Completed o) : (⟨o, false⟩ : Entry) ∉ t.entries := by
  intro hmem
  rcases h with ⟨e, he, ho, hd⟩ | ⟨c, hc, hlt⟩
  · rw [ht.offset_unique he hmem ho] at hd
    cases hd
  · have := ht.uncommitted c hc _ hmem
    dsimp only at this
    omega

theorem OffsetTracker.registerRecord_pending {t : OffsetTracker} (ht : t.Valid) {o x : ℤ}
    (h : (⟨o, false⟩ : Entry) ∈ (t.registerRecord x).2.entries) :
    (⟨o, false⟩ : Entry) ∈ t.entries ∨ (o = x ∧ (t.registerRecord x).1 = .ok ()) := by
  rw [OffsetTracker.registerRecord_eq ht] at h ⊢
  split_ifs at h ⊢
  · exact .inl h
  · rcases List.mem_append.mp h with hold | hnew
    · exact .inl hold
    · exact .inr ⟨by simpa using hnew, rfl⟩

theorem OffsetTracker.complete_pending {t : OffsetTracker} (ht : t.Valid) {o x : ℤ}
    (h : (⟨o, false⟩ : Entry) ∈ (t.complete x).2.entries) : (⟨o, false⟩ : Entry) ∈ t.entries := by
  rw [OffsetTracker.complete_eq ht] at h
  split_ifs at h
  · exact h
  · obtain ⟨e, he, hee⟩ := List.mem_map.mp h
    split_ifs at hee
    · simp at hee
    · exact hee ▸ he
  · exact h

theorem OffsetTracker.confirmCommit_pending {t : OffsetTracker} (ht : t.Valid) {o x : ℤ}
    (h : (⟨o, false⟩ : Entry) ∈ (t.confirmCommit x).2.entries) : (⟨o, false⟩ : Entry) ∈ t.entries := by
  rw [OffsetTracker.confirmCommit_eq ht] at h
  split_ifs at h
  · exact h
  · exact h
  · exact ((OffsetTracker.not_covered ht.sorted).mp h).1

namespace PartitionRegistry

def isPending (reg : PartitionRegistry) (t : RecordTicket) : Bool :=
  (reg.find t.partition).any
    (fun st => st.generation = t.generation && st.tracker.entries.contains ⟨t.offset, false⟩)

theorem isPending_iff {reg : PartitionRegistry} {t : RecordTicket} :
    reg.isPending t = true ↔ ∃ st, reg.find t.partition = some st ∧ st.generation = t.generation ∧
      (⟨t.offset, false⟩ : Entry) ∈ st.tracker.entries := by
  simp [isPending, Option.any_eq_true]

theorem isPending_isCurrent {reg : PartitionRegistry} {t : RecordTicket} (h : reg.isPending t = true) :
    reg.isCurrent t = true := by
  obtain ⟨st, hf, hg, -⟩ := isPending_iff.mp h
  exact isCurrent_iff.mpr ⟨st, hf, hg⟩

theorem Settled.not_pending {reg : PartitionRegistry} {t : RecordTicket} (hv : reg.Valid)
    (h : reg.Settled t) : reg.isPending t = false := by
  rw [Bool.eq_false_iff]
  intro hp
  obtain ⟨st, hf, hg, hmem⟩ := isPending_iff.mp hp
  exact (h.completed st hf hg).not_pending (hv.tracker _ st hf) hmem

theorem isPending_insertOrAssign {reg : PartitionRegistry} {p : PartitionKey} {st : PartitionState}
    {tracker : OffsetTracker} {t : RecordTicket} {Q : ℤ → Prop} (hf : reg.find p = some st)
    (hQ : ∀ o, (⟨o, false⟩ : Entry) ∈ tracker.entries → (⟨o, false⟩ : Entry) ∈ st.tracker.entries ∨ Q o)
    (h : (reg.insertOrAssign p { st with tracker := tracker }).isPending t = true) :
    reg.isPending t = true ∨ ((⟨p, t.offset, st.generation⟩ : RecordTicket) = t ∧ Q t.offset) := by
  obtain ⟨st', hf', hg, hmem⟩ := isPending_iff.mp h
  rw [find_insertOrAssign] at hf'
  split_ifs at hf' with hp
  · obtain rfl := Option.some.inj hf'
    subst hp
    rcases hQ t.offset hmem with hold | hnew
    · exact .inl (isPending_iff.mpr ⟨st, hf, hg, hold⟩)
    · right
      refine ⟨?_, hnew⟩
      rw [show st.generation = t.generation from hg]
  · exact .inl (isPending_iff.mpr ⟨st', hf', hg, hmem⟩)

theorem isPending_call {reg : PartitionRegistry} (hv : reg.Valid) {c : RegistryCall} {t : RecordTicket}
    (h : (reg.call c).2.isPending t = true) :
    reg.isPending t = true ∨ (reg.call c).1 = .ticket (.ok t) := by
  cases c with
  | assign ps =>
    obtain ⟨st, hf, hg, hmem⟩ := isPending_iff.mp h
    by_cases hp : t.partition ∈ ps
    · obtain ⟨g, hf', -, -⟩ := assign_find reg hp
      obtain rfl := Option.some.inj (hf'.symm.trans hf)
      cases hmem
    · exact .inl (isPending_iff.mpr ⟨st, (assign_find_other hp).symm.trans hf, hg, hmem⟩)
  | revoke ps =>
    obtain ⟨st, hf, hg, hmem⟩ := isPending_iff.mp h
    simp only [call, revoke_find] at hf
    split_ifs at hf
    exact .inl (isPending_iff.mpr ⟨st, hf, hg, hmem⟩)
  | registerRecord p x =>
    simp only [call] at h ⊢
    cases hf : reg.find p with
    | none =>
      rw [registerRecord_of_unassigned hf] at h
      exact .inl h
    | some st =>
      rw [registerRecord_of_assigned hf] at h ⊢
      refine (isPending_insertOrAssign hf
        (fun _ => OffsetTracker.registerRecord_pending (hv.tracker p st hf)) h).imp_right ?_
      rintro ⟨ht, ho, hok⟩
      rw [hok, ← ho, Except.map, ht]
  | complete u =>
    simp only [call] at h
    cases hc : reg.isCurrent u with
    | false =>
      rw [complete_of_stale hc] at h
      exact .inl h
    | true =>
      obtain ⟨st, hf, hg⟩ := isCurrent_iff.mp hc
      rw [complete_of_current hf hg] at h
      exact (isPending_insertOrAssign (Q := fun _ => False) hf
        (fun _ hm => .inl (OffsetTracker.complete_pending (hv.tracker _ st hf) hm)) h).imp_right
          (fun hn => hn.2.elim)
  | confirmCommit c =>
    simp only [call] at h
    cases hc : reg.isCurrent c.ticket with
    | false =>
      rw [confirmCommit_of_stale hc] at h
      exact .inl h
    | true =>
      obtain ⟨st, hf, hg⟩ := isCurrent_iff.mp hc
      rw [confirmCommit_of_current hf hg] at h
      exact (isPending_insertOrAssign (Q := fun _ => False) hf
        (fun _ hm => .inl (OffsetTracker.confirmCommit_pending (hv.tracker _ st hf) hm)) h).imp_right
          (fun hn => hn.2.elim)
  | commitCandidates => exact .inl h
  | isCurrent u => exact .inl h

theorem find_none_call {reg : PartitionRegistry} {p : PartitionKey} {c : RegistryCall}
    (hc : c.assignments = 0) (h : reg.find p = none) : (reg.call c).2.find p = none := by
  cases hf : (reg.call c).2.find p with
  | none => rfl
  | some st =>
    rcases call_find hf with ⟨old, ho, -⟩ | ⟨-, hlt, hle⟩
    · rw [h] at ho
      cases ho
    · rw [call_lastGeneration, hc] at hle
      omega

theorem registerRecord_fresh {reg : PartitionRegistry} (hv : reg.Valid) {p : PartitionKey} {o : ℤ}
    {t u : RecordTicket} (h : (reg.registerRecord p o).1 = .ok t) (hu : reg.Issued u) : u ≠ t := by
  cases hf : reg.find p with
  | none => simp [registerRecord_of_unassigned hf] at h
  | some st =>
    rw [registerRecord_of_assigned hf] at h
    cases hr : (st.tracker.registerRecord o).1 with
    | error e => simp [hr, Except.map] at h
    | ok u' =>
      obtain rfl : (⟨p, o, st.generation⟩ : RecordTicket) = t := by simpa [hr, Except.map] using h
      rintro rfl
      have hlt := (hu.known st hf rfl).lt_registered (hv.tracker p st hf) hr
      exact absurd hlt (lt_irrefl o)

end PartitionRegistry

end LiquidPetProject.Messaging
