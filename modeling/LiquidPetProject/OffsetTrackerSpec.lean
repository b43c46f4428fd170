import Mathlib.Data.Finset.Max
import LiquidPetProject.FixedWidth
import LiquidPetProject.OffsetTrackerOperations
import LiquidPetProject.Transitions

namespace LiquidPetProject.Messaging

open FixedWidth Transitions

inductive TrackerCall
  | registerRecord (offset : ℤ)
  | complete (offset : ℤ)
  | commitCandidate
  | confirmCommit (position : ℤ)
  | uncommittedCount
  | inFlightCount
  | reset
  deriving DecidableEq, Repr

inductive TrackerResult
  | expected (r : Except ErrorCode Unit)
  | position (p : Option ℤ)
  | count (n : ℕ)
  | unit
  deriving DecidableEq, Repr

def OffsetTracker.call (t : OffsetTracker) : TrackerCall → TrackerResult × OffsetTracker
  | .registerRecord offset => (.expected (t.registerRecord offset).1, (t.registerRecord offset).2)
  | .complete offset => (.expected (t.complete offset).1, (t.complete offset).2)
  | .commitCandidate => (.position t.commitCandidate, t)
  | .confirmCommit position => (.expected (t.confirmCommit position).1, (t.confirmCommit position).2)
  | .uncommittedCount => (.count t.uncommittedCount, t)
  | .inFlightCount => (.count t.inFlightCount, t)
  | .reset => (.unit, t.reset)

/-- What a tracker is for: the offsets registered since the last reset, those of them that are
completed, and the confirmed position. -/
structure OffsetSpec where
  registered : Finset ℤ := ∅
  completed : Finset ℤ := ∅
  committed : Option ℤ := none

namespace OffsetSpec

def uncommitted (s : OffsetSpec) : Finset ℤ :=
  s.registered.filter (fun r => s.committed.all (fun c => c ≤ r))

def committable (s : OffsetSpec) : Finset ℤ :=
  s.uncommitted.filter (fun m => ∀ r ∈ s.uncommitted, r ≤ m → r ∈ s.completed)

def commitCandidate (s : OffsetSpec) : Option ℤ :=
  if h : s.committable.Nonempty then some (s.committable.max' h + 1) else none

def registerRecord (s : OffsetSpec) (o : ℤ) : Except ErrorCode Unit × OffsetSpec :=
  if ∃ r ∈ s.registered, o ≤ r then (.error (.offsetTracker .outOfOrderRegistration), s)
  else (.ok (), { s with registered := insert o s.registered })

def complete (s : OffsetSpec) (o : ℤ) : Except ErrorCode Unit × OffsetSpec :=
  if s.committed.any (fun c => o < c) then (.ok (), s)
  else if o ∉ s.registered then (.error (.offsetTracker .unknownOffset), s)
  else (.ok (), { s with completed := insert o s.completed })

def confirmCommit (s : OffsetSpec) (p : ℤ) : Except ErrorCode Unit × OffsetSpec :=
  if s.committed.any (fun c => p ≤ c) then (.ok (), s)
  else if s.commitCandidate.all (fun w => p > w) then
    (.error (.offsetTracker .commitBeyondWatermark), s)
  else (.ok (), { s with committed := some p })

def call (s : OffsetSpec) : TrackerCall → TrackerResult × OffsetSpec
  | .registerRecord o => (.expected (s.registerRecord o).1, (s.registerRecord o).2)
  | .complete o => (.expected (s.complete o).1, (s.complete o).2)
  | .commitCandidate => (.position s.commitCandidate, s)
  | .confirmCommit p => (.expected (s.confirmCommit p).1, (s.confirmCommit p).2)
  | .uncommittedCount => (.count s.uncommitted.card, s)
  | .inFlightCount => (.count (s.registered \ s.completed).card, s)
  | .reset => (.unit, {})

end OffsetSpec

/-- The entries are the uncommitted offsets, marked when they are completed, and everything below
the confirmed position is completed. -/
structure Refines (t : OffsetTracker) (s : OffsetSpec) : Prop where
  valid : t.Valid
  committed : s.committed = t.committed
  entries : ∀ o, (∃ e ∈ t.entries, e.offset = o) ↔ o ∈ s.uncommitted
  done : ∀ e ∈ t.entries, e.done = true ↔ e.offset ∈ s.completed
  covered : ∀ r ∈ s.registered, r ∉ s.uncommitted → r ∈ s.completed
  subset : s.completed ⊆ s.registered
  last : ∀ o, t.lastRegistered.any (fun l => o ≤ l) ↔ ∃ r ∈ s.registered, o ≤ r

theorem Refines.empty : Refines {} {} := by
  constructor <;> simp [OffsetTracker.Valid.empty, OffsetSpec.uncommitted]

theorem OffsetSpec.mem_committable {s : OffsetSpec} {m : ℤ} :
    m ∈ s.committable ↔ m ∈ s.uncommitted ∧ ∀ r ∈ s.uncommitted, r ≤ m → r ∈ s.completed := by
  simp [committable]

theorem Refines.mem_entries {t : OffsetTracker} {s : OffsetSpec} (h : Refines t s) {o : ℤ}
    (ho : o ∈ s.uncommitted) : ∃ e ∈ t.entries, e.offset = o ∧ (e.done = true ↔ o ∈ s.completed) := by
  obtain ⟨e, he, rfl⟩ := (h.entries o).mpr ho
  exact ⟨e, he, rfl, h.done e he⟩

theorem Refines.commitCandidate {t : OffsetTracker} {s : OffsetSpec} (h : Refines t s) :
    t.commitCandidate = s.commitCandidate := by
  unfold OffsetSpec.commitCandidate
  cases hc : t.commitCandidate with
  | none =>
    rw [dif_neg]
    rintro ⟨m, hm⟩
    obtain ⟨hu, hall⟩ := OffsetSpec.mem_committable.mp hm
    obtain ⟨g, hg, rfl⟩ := (h.entries m).mpr hu
    obtain ⟨f, hf, hle, hd⟩ := OffsetTracker.commitCandidate_none h.valid hc g hg
    have hcompleted := hall f.offset ((h.entries _).mp ⟨f, hf, rfl⟩) hle
    rw [← h.done f hf, hd] at hcompleted
    cases hcompleted
  | some w =>
    obtain ⟨e, he, rfl, hdone, hpending⟩ := OffsetTracker.commitCandidate_some h.valid hc
    have hmem : e.offset ∈ s.committable := by
      refine OffsetSpec.mem_committable.mpr ⟨(h.entries _).mp ⟨e, he, rfl⟩, ?_⟩
      intro r hr hle
      obtain ⟨f, hf, rfl, hd⟩ := h.mem_entries hr
      exact hd.mp (hdone f hf (by omega))
    rw [dif_pos ⟨_, hmem⟩]
    congr 2
    apply le_antisymm (Finset.le_max' _ _ hmem)
    apply Finset.max'_le
    intro m hm
    obtain ⟨hu, hall⟩ := OffsetSpec.mem_committable.mp hm
    obtain ⟨g, hg, rfl⟩ := (h.entries m).mpr hu
    by_contra hlt
    obtain ⟨f, hf, hle, hd⟩ := hpending g hg (by omega)
    have hcompleted := hall f.offset ((h.entries _).mp ⟨f, hf, rfl⟩) hle
    rw [← h.done f hf, hd] at hcompleted
    cases hcompleted

theorem Refines.uncommittedCount {t : OffsetTracker} {s : OffsetSpec} (h : Refines t s) :
    t.uncommittedCount = s.uncommitted.card := by
  have hset : s.uncommitted = (t.entries.map Entry.offset).toFinset := by
    ext o
    simp [← h.entries o]
  rw [hset, List.toFinset_card_of_nodup h.valid.offsets_nodup]
  simp [OffsetTracker.uncommittedCount]

theorem Refines.inFlightCount {t : OffsetTracker} {s : OffsetSpec} (h : Refines t s) :
    t.inFlightCount = (s.registered \ s.completed).card := by
  have hset : s.registered \ s.completed =
      ((t.entries.filter (fun e => !e.done)).map Entry.offset).toFinset := by
    ext o
    simp only [Finset.mem_sdiff, List.mem_toFinset, List.mem_map, List.mem_filter]
    constructor
    · rintro ⟨hr, hc⟩
      have hu : o ∈ s.uncommitted := by
        by_contra hu
        exact hc (h.covered o hr hu)
      obtain ⟨e, he, rfl, hd⟩ := h.mem_entries hu
      exact ⟨e, ⟨he, by rw [← hd] at hc; simpa using hc⟩, rfl⟩
    · rintro ⟨e, ⟨he, hd⟩, rfl⟩
      have hu := (h.entries _).mp ⟨e, he, rfl⟩
      refine ⟨(Finset.mem_filter.mp hu).1, ?_⟩
      rw [← h.done e he]
      simpa using hd
  rw [hset, List.toFinset_card_of_nodup]
  · rw [List.length_map, ← List.countP_eq_length_filter]
    exact h.valid.inFlight
  · exact h.valid.offsets_nodup.sublist (List.filter_sublist.map _)

theorem Refines.registerRecord {t : OffsetTracker} {s : OffsetSpec} (h : Refines t s) (o : ℤ) :
    (t.registerRecord o).1 = (s.registerRecord o).1 ∧
      Refines (t.registerRecord o).2 (s.registerRecord o).2 := by
  have hvalid := h.valid.registerRecord o
  rw [OffsetTracker.registerRecord_eq h.valid] at hvalid ⊢
  unfold OffsetSpec.registerRecord
  by_cases hl : ∃ r ∈ s.registered, o ≤ r
  · rw [if_pos hl, if_pos ((h.last o).mpr hl)]
    exact ⟨rfl, h⟩
  · rw [if_neg (mt (h.last o).mp hl)] at hvalid ⊢
    rw [if_neg hl]
    push Not at hl
    have hnew : s.committed.all (fun c => c ≤ o) = true := by
      rw [h.committed]
      cases hc : t.committed with
      | none => rfl
      | some c =>
        have := hvalid.uncommitted c hc ⟨o, false⟩ (by simp)
        simpa using this
    have hfresh : o ∉ s.completed := fun hc => (hl o (h.subset hc)).ne rfl
    have hu : ∀ r, r ∈ ({ s with registered := insert o s.registered } : OffsetSpec).uncommitted ↔
        r = o ∨ r ∈ s.uncommitted := by
      intro r
      simp only [OffsetSpec.uncommitted, Finset.mem_filter, Finset.mem_insert]
      constructor
      · rintro ⟨rfl | hr, hc⟩
        · exact .inl rfl
        · exact .inr ⟨hr, hc⟩
      · rintro (rfl | ⟨hr, hc⟩)
        · exact ⟨.inl rfl, hnew⟩
        · exact ⟨.inr hr, hc⟩
    refine ⟨rfl, hvalid, h.committed, ?_, ?_, ?_, ?_, ?_⟩
    · intro r
      rw [hu, ← h.entries r]
      simp only [OffsetTracker.withEntries_entries, List.mem_append, List.mem_singleton]
      constructor
      · rintro ⟨e, he | rfl, rfl⟩
        · exact .inr ⟨e, he, rfl⟩
        · exact .inl rfl
      · rintro (rfl | ⟨e, he, rfl⟩)
        · exact ⟨⟨r, false⟩, .inr rfl, rfl⟩
        · exact ⟨e, .inl he, rfl⟩
    · intro e he
      rcases List.mem_append.mp he with he | he
      · exact h.done e he
      · rw [List.mem_singleton.mp he]
        simpa using hfresh
    · intro r hr hnu
      rw [hu, not_or] at hnu
      rcases Finset.mem_insert.mp hr with rfl | hr
      · exact absurd rfl hnu.1
      · exact h.covered r hr hnu.2
    · exact h.subset.trans (Finset.subset_insert _ _)
    · intro x
      simp only [Option.any_some, decide_eq_true_eq, Finset.mem_insert]
      constructor
      · intro hx
        exact ⟨o, .inl rfl, hx⟩
      · rintro ⟨r, rfl | hr, hx⟩
        · exact hx
        · exact hx.trans (hl r hr).le

theorem OffsetTracker.mem_markDone {es : List Entry} {o : ℤ} {e : Entry}
    (h : e ∈ OffsetTracker.markDone o es) :
    ∃ f ∈ es, f.offset = e.offset ∧ (e.done = true ↔ f.done = true ∨ f.offset = o) := by
  obtain ⟨f, hf, rfl⟩ := List.mem_map.mp h
  refine ⟨f, hf, ?_⟩
  split_ifs with ho <;> simp [ho]

theorem OffsetTracker.markDone_offsets {es : List Entry} {o r : ℤ} :
    (∃ e ∈ OffsetTracker.markDone o es, e.offset = r) ↔ ∃ e ∈ es, e.offset = r := by
  constructor
  · rintro ⟨e, he, rfl⟩
    obtain ⟨f, hf, ho, -⟩ := OffsetTracker.mem_markDone he
    exact ⟨f, hf, ho⟩
  · rintro ⟨f, hf, rfl⟩
    exact ⟨_, List.mem_map_of_mem hf, by split_ifs <;> rfl⟩

theorem Refines.complete {t : OffsetTracker} {s : OffsetSpec} (h : Refines t s) (o : ℤ) :
    (t.complete o).1 = (s.complete o).1 ∧ Refines (t.complete o).2 (s.complete o).2 := by
  have hvalid := h.valid.complete o
  rw [OffsetTracker.complete_eq h.valid] at hvalid ⊢
  unfold OffsetSpec.complete
  have hany : s.committed.any (fun c => o < c) = t.committed.any (fun c => o < c) := by rw [h.committed]
  by_cases hc : t.committed.any (fun c => o < c) = true
  · rw [if_pos hc, if_pos (hany.trans hc)]
    exact ⟨rfl, h⟩
  · rw [if_neg hc] at hvalid ⊢
    rw [if_neg (show ¬ s.committed.any (fun c => o < c) = true by rwa [hany])]
    have huncommitted : o ∈ s.uncommitted ↔ o ∈ s.registered := by
      simp only [OffsetSpec.uncommitted, Finset.mem_filter, and_iff_left_iff_imp, h.committed]
      intro _
      cases hcom : t.committed with
      | none => rfl
      | some c => simpa [hcom] using hc
    by_cases hm : ∃ e ∈ t.entries, e.offset = o
    · have hr := huncommitted.mp ((h.entries o).mp hm)
      rw [if_pos hm] at hvalid ⊢
      rw [if_neg (not_not.mpr hr)]
      refine ⟨rfl, hvalid, h.committed, ?_, ?_, ?_, ?_, h.last⟩
      · intro r
        exact OffsetTracker.markDone_offsets.trans (h.entries r)
      · intro e he
        obtain ⟨f, hf, ho, hd⟩ := OffsetTracker.mem_markDone he
        rw [hd, h.done f hf, Finset.mem_insert, ← ho, or_comm]
      · intro r hr' hnu
        exact Finset.mem_insert_of_mem (h.covered r hr' hnu)
      · exact Finset.insert_subset hr h.subset
    · rw [if_neg hm, if_pos (fun hr => hm ((h.entries o).mpr (huncommitted.mpr hr)))]
      exact ⟨rfl, h⟩

theorem Refines.confirmCommit {t : OffsetTracker} {s : OffsetSpec} (h : Refines t s) (p : ℤ) :
    (t.confirmCommit p).1 = (s.confirmCommit p).1 ∧
      Refines (t.confirmCommit p).2 (s.confirmCommit p).2 := by
  have hvalid := h.valid.confirmCommit p
  rw [OffsetTracker.confirmCommit_eq h.valid] at hvalid ⊢
  unfold OffsetSpec.confirmCommit
  rw [h.committed, ← h.commitCandidate]
  split_ifs at hvalid ⊢ with hc hw
  · exact ⟨rfl, h⟩
  · exact ⟨rfl, h⟩
  · have hu : ∀ r, r ∈ ({ s with committed := some p } : OffsetSpec).uncommitted ↔
        r ∈ s.uncommitted ∧ p ≤ r := by
      intro r
      simp only [OffsetSpec.uncommitted, Finset.mem_filter, Option.all_some, decide_eq_true_eq,
        h.committed]
      constructor
      · rintro ⟨hr, hp⟩
        refine ⟨⟨hr, ?_⟩, hp⟩
        cases hcom : t.committed with
        | none => rfl
        | some c =>
          have : c < p := by simpa [hcom] using hc
          simpa using by omega
      · rintro ⟨⟨hr, -⟩, hp⟩
        exact ⟨hr, hp⟩
    have hmem : ∀ e, e ∈ t.entries.dropWhile (fun e => e.offset < p) ↔ e ∈ t.entries ∧ p ≤ e.offset :=
      fun e => OffsetTracker.not_covered h.valid.sorted
    refine ⟨rfl, hvalid, rfl, ?_, ?_, ?_, h.subset, h.last⟩
    · intro r
      rw [hu, ← h.entries r]
      constructor
      · rintro ⟨e, he, rfl⟩
        exact ⟨⟨e, ((hmem e).mp he).1, rfl⟩, ((hmem e).mp he).2⟩
      · rintro ⟨⟨e, he, rfl⟩, hp⟩
        exact ⟨e, (hmem e).mpr ⟨he, hp⟩, rfl⟩
    · intro e he
      exact h.done e ((hmem e).mp he).1
    · intro r hr hnu
      by_cases hur : r ∈ s.uncommitted
      · obtain ⟨e, he, rfl, hd⟩ := h.mem_entries hur
        have hp : e.offset < p := by
          by_contra hge
          exact hnu ((hu _).mpr ⟨hur, by omega⟩)
        exact hd.mp (OffsetTracker.covered_done h.valid hw e he hp)
      · exact h.covered r hr hur

theorem Refines.call {t : OffsetTracker} {s : OffsetSpec} (h : Refines t s) (c : TrackerCall) :
    (t.call c).1 = (s.call c).1 ∧ Refines (t.call c).2 (s.call c).2 := by
  cases c with
  | registerRecord o =>
    obtain ⟨hr, hs⟩ := h.registerRecord o
    exact ⟨congrArg _ hr, hs⟩
  | complete o =>
    obtain ⟨hr, hs⟩ := h.complete o
    exact ⟨congrArg _ hr, hs⟩
  | commitCandidate => exact ⟨congrArg _ h.commitCandidate, h⟩
  | confirmCommit p =>
    obtain ⟨hr, hs⟩ := h.confirmCommit p
    exact ⟨congrArg _ hr, hs⟩
  | uncommittedCount => exact ⟨congrArg _ h.uncommittedCount, h⟩
  | inFlightCount => exact ⟨congrArg _ h.inFlightCount, h⟩
  | reset => exact ⟨rfl, Refines.empty⟩

theorem OffsetTracker.call_failed {t : OffsetTracker} {c : TrackerCall} {e : ErrorCode}
    (h : (t.call c).1 = .expected (.error e)) : (t.call c).2 = t := by
  cases c with
  | registerRecord o =>
    simp only [OffsetTracker.call, TrackerResult.expected.injEq] at h ⊢
    unfold OffsetTracker.registerRecord at h ⊢
    split_ifs at h ⊢
    rfl
  | complete o =>
    simp only [OffsetTracker.call, TrackerResult.expected.injEq] at h ⊢
    revert h
    unfold OffsetTracker.complete
    split_ifs
    · simp
    · dsimp only
      split
      · simp
      · split_ifs <;> simp
  | confirmCommit p =>
    simp only [OffsetTracker.call, TrackerResult.expected.injEq] at h ⊢
    unfold OffsetTracker.confirmCommit at h ⊢
    split_ifs at h ⊢
    rfl
  | commitCandidate => rfl
  | uncommittedCount => rfl
  | inFlightCount => rfl
  | reset => cases h

theorem OffsetSpec.call_registered {s : OffsetSpec} {c : TrackerCall} {o : ℤ}
    (h : o ∈ (s.call c).2.registered) : o ∈ s.registered ∨ c = .registerRecord o := by
  cases c with
  | registerRecord x =>
    simp only [OffsetSpec.call] at h
    unfold OffsetSpec.registerRecord at h
    split_ifs at h
    · exact .inl h
    · rcases Finset.mem_insert.mp h with rfl | h
      · exact .inr rfl
      · exact .inl h
  | complete x =>
    simp only [OffsetSpec.call] at h
    unfold OffsetSpec.complete at h
    split_ifs at h <;> exact .inl h
  | confirmCommit p =>
    simp only [OffsetSpec.call] at h
    unfold OffsetSpec.confirmCommit at h
    split_ifs at h <;> exact .inl h
  | commitCandidate => exact .inl h
  | uncommittedCount => exact .inl h
  | inFlightCount => exact .inl h
  | reset => simp [OffsetSpec.call] at h

theorem OffsetSpec.trace_registered {s : OffsetSpec} {calls : List TrackerCall} {o : ℤ}
    (h : o ∈ (trace OffsetSpec.call s calls).2.registered) :
    o ∈ s.registered ∨ .registerRecord o ∈ calls := by
  induction calls generalizing s with
  | nil => exact .inl h
  | cons c calls ih =>
    rcases ih h with h | h
    · rcases OffsetSpec.call_registered h with h | rfl
      · exact .inl h
      · exact .inr (List.mem_cons_self ..)
    · exact .inr (List.mem_cons_of_mem _ h)

theorem Refines.commitCandidate_inRange {t : OffsetTracker} {s : OffsetSpec} (h : Refines t s)
    (hs : ∀ o ∈ s.registered, InRange 64 o ∧ o < 2 ^ 63 - 1) {p : ℤ} (hp : t.commitCandidate = some p) :
    InRange 64 p := by
  obtain ⟨e, he, rfl, -, -⟩ := OffsetTracker.commitCandidate_some h.valid hp
  have hr := (Finset.mem_filter.mp ((h.entries _).mp ⟨e, he, rfl⟩)).1
  obtain ⟨⟨hlo, -⟩, hhi⟩ := hs _ hr
  exact ⟨by omega, by norm_num; omega⟩

/-- The deque tracker answers every sequence of calls as the sets do, a failed call changes nothing,
and no candidate overflows when the registered offsets are below `INT64_MAX`. -/
theorem offsetTracker_refines (calls : List TrackerCall) :
    let t := (trace OffsetTracker.call {} calls).2
    (trace OffsetTracker.call {} calls).1 = (trace OffsetSpec.call {} calls).1 ∧
      (∀ c e, (t.call c).1 = .expected (.error e) → (t.call c).2 = t) ∧
      ((∀ o, .registerRecord o ∈ calls → InRange 64 o ∧ o < 2 ^ 63 - 1) →
        ∀ p, t.commitCandidate = some p → InRange 64 p) := by
  obtain ⟨hresults, hstate⟩ := trace_simulates (fun _ _ c h => h.call c) Refines.empty calls
  refine ⟨hresults, fun _ _ h => OffsetTracker.call_failed h, fun hcalls p hp => ?_⟩
  apply hstate.commitCandidate_inRange _ hp
  intro o ho
  rcases OffsetSpec.trace_registered ho with ho | ho
  · simp at ho
  · exact hcalls o ho

end LiquidPetProject.Messaging
