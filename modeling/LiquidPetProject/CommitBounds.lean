import LiquidPetProject.PendingRecords

namespace LiquidPetProject.Messaging.OffsetTracker

/-- A position that the broker may hold while the tracker is in use: nothing below it is pending, and no
candidate falls behind it. -/
structure CommitBound (t : OffsetTracker) (c : ℤ) : Prop where
  candidate : ∀ w, t.commitCandidate = some w → c ≤ w
  pending : ∀ e ∈ t.entries, e.done = false → c ≤ e.offset

theorem CommitBound.empty (c : ℤ) : CommitBound {} c := by
  constructor <;> simp [commitCandidate]

theorem CommitBound.of_candidate {t : OffsetTracker} (h : t.Valid) {w : ℤ}
    (hw : t.commitCandidate = some w) : CommitBound t w := by
  obtain ⟨-, -, -, hall, -⟩ := commitCandidate_some h hw
  constructor
  · intro w' hw'
    rw [hw] at hw'
    exact (Option.some.inj hw').le
  · intro e he hd
    by_contra hlt
    rw [hall e he (by omega)] at hd
    cases hd

theorem CommitBound.mono {t t' : OffsetTracker} {c : ℤ} (h : t.Valid) (h' : t'.Valid)
    (hc : CommitBound t c)
    (hsub : ∀ e' ∈ t'.entries, ∃ e ∈ t.entries, e.offset = e'.offset ∧ (e'.done = false → e.done = false))
    (hup : ∀ e ∈ t.entries, ∀ e' ∈ t'.entries, e'.offset ≤ e.offset → ∃ f ∈ t'.entries, f.offset = e.offset) :
    CommitBound t' c := by
  constructor
  · intro w' hw'
    obtain ⟨e', he', rfl, -, hpend⟩ := commitCandidate_some h' hw'
    obtain ⟨g, hg, hgo, -⟩ := hsub e' he'
    cases hw : t.commitCandidate with
    | none =>
      obtain ⟨f, hf, hle, hd⟩ := commitCandidate_none h hw g hg
      have := hc.pending f hf hd
      omega
    | some w =>
      obtain ⟨e, he, rfl, hall, -⟩ := commitCandidate_some h hw
      have hle := hc.candidate _ hw
      by_contra hlt
      obtain ⟨f, hf, hfo⟩ := hup e he e' he' (by omega)
      obtain ⟨x', hx', hxle, hxd⟩ := hpend f hf (by omega)
      obtain ⟨x, hx, hxo, hxp⟩ := hsub x' hx'
      rw [hall x hx (by omega)] at hxp
      cases hxp hxd
  · intro e' he' hd
    obtain ⟨e, he, ho, hp⟩ := hsub e' he'
    have := hc.pending e he (hp hd)
    omega

theorem CommitBound.complete {t : OffsetTracker} {c : ℤ} (h : t.Valid) (hc : CommitBound t c) (o : ℤ) :
    CommitBound (t.complete o).2 c := by
  refine hc.mono h (h.complete o) ?_ ?_
  · rw [complete_eq h]
    split_ifs
    · exact fun e he => ⟨e, he, rfl, id⟩
    · intro e' he'
      obtain ⟨e, he, rfl⟩ := List.mem_map.mp he'
      refine ⟨e, he, ?_⟩
      split_ifs <;> simp
    · exact fun e he => ⟨e, he, rfl, id⟩
  · rw [complete_eq h]
    split_ifs
    · exact fun e he _ _ _ => ⟨e, he, rfl⟩
    · intro e he _ _ _
      obtain ⟨f, hf, hfo, -⟩ := OffsetTracker.markDone_mem (o := o) he
      exact ⟨f, hf, hfo⟩
    · exact fun e he _ _ _ => ⟨e, he, rfl⟩

theorem CommitBound.confirmCommit {t : OffsetTracker} {c : ℤ} (h : t.Valid) (hc : CommitBound t c) (p : ℤ) :
    CommitBound (t.confirmCommit p).2 c := by
  refine hc.mono h (h.confirmCommit p) ?_ ?_
  · rw [confirmCommit_eq h]
    split_ifs
    · exact fun e he => ⟨e, he, rfl, id⟩
    · exact fun e he => ⟨e, he, rfl, id⟩
    · exact fun e he => ⟨e, ((not_covered h.sorted).mp he).1, rfl, id⟩
  · rw [confirmCommit_eq h]
    split_ifs
    · exact fun e he _ _ _ => ⟨e, he, rfl⟩
    · exact fun e he _ _ _ => ⟨e, he, rfl⟩
    · intro e he e' he' hle
      have := ((not_covered h.sorted).mp he').2
      exact ⟨e, (not_covered h.sorted).mpr ⟨he, by omega⟩, rfl⟩

theorem registerRecord_candidate {t : OffsetTracker} (h : t.Valid) (o : ℤ) :
    (t.registerRecord o).2.commitCandidate = t.commitCandidate := by
  unfold OffsetTracker.registerRecord
  split_ifs
  · rfl
  · have hle : t.prefixDone ≤ t.entries.length := h.prefixDone.trans_le (donePrefix_le t.entries)
    unfold commitCandidate
    dsimp only
    split_ifs with hz
    · rfl
    · rw [List.getElem?_append_left (by omega)]

theorem CommitBound.registerRecord {t : OffsetTracker} {c : ℤ} (h : t.Valid) (hc : CommitBound t c) {o : ℤ}
    (ho : c ≤ o) : CommitBound (t.registerRecord o).2 c := by
  constructor
  · intro w hw
    rw [registerRecord_candidate h] at hw
    exact hc.candidate w hw
  · intro e he hd
    rw [registerRecord_eq h] at he
    split_ifs at he
    · exact hc.pending e he hd
    · rcases List.mem_append.mp he with he | he
      · exact hc.pending e he hd
      · rw [List.mem_singleton.mp he]
        exact ho

end LiquidPetProject.Messaging.OffsetTracker
