import Mathlib.Data.List.TakeWhile
import LiquidPetProject.OffsetTracker

namespace LiquidPetProject.Messaging.OffsetTracker

open LowerBound

def donePrefix (es : List Entry) : ℕ := (es.takeWhile Entry.done).length

def withEntries (t : OffsetTracker) (es : List Entry) : OffsetTracker :=
  { t with
    entries := es
    prefixDone := donePrefix es
    inFlight := es.countP (fun e => !e.done) }

@[simp] theorem withEntries_entries (t : OffsetTracker) (es : List Entry) :
    (t.withEntries es).entries = es := rfl

@[simp] theorem withEntries_lastRegistered (t : OffsetTracker) (es : List Entry) :
    (t.withEntries es).lastRegistered = t.lastRegistered := rfl

@[simp] theorem withEntries_committed (t : OffsetTracker) (es : List Entry) :
    (t.withEntries es).committed = t.committed := rfl

theorem Valid.eq_withEntries {t : OffsetTracker} (h : t.Valid) : t.withEntries t.entries = t := by
  cases t
  simp only [withEntries, donePrefix, mk.injEq, true_and, and_true]
  exact ⟨h.prefixDone.symm, h.inFlight.symm⟩

theorem donePrefix_le (es : List Entry) : donePrefix es ≤ es.length :=
  (List.takeWhile_prefix _).length_le

theorem done_of_lt_donePrefix {es : List Entry} {i : ℕ} (hi : i < es.length)
    (hp : i < donePrefix es) : es[i].done = true := by
  have hm : es[i] ∈ es.takeWhile Entry.done := by
    rw [← (List.takeWhile_prefix Entry.done).getElem hp]
    exact List.getElem_mem _
  exact List.mem_takeWhile_imp hm

theorem donePrefix_append {es : List Entry} (fs : List Entry) (h : ∀ e ∈ es, e.done = true) :
    donePrefix (es ++ fs) = es.length + donePrefix fs := by
  rw [donePrefix, List.takeWhile_append_of_pos h, List.length_append]
  rfl

theorem donePrefix_concat_pending (es : List Entry) (o : ℤ) :
    donePrefix (es ++ [⟨o, false⟩]) = donePrefix es := by
  unfold donePrefix
  rw [List.takeWhile_append]
  split_ifs with h
  · simp [h]
  · rfl

theorem donePrefix_split {es : List Entry} {n : ℕ} (hn : n ≤ es.length)
    (h : ∀ i (hi : i < es.length), i < n → es[i].done = true) :
    donePrefix es = n + donePrefix (es.drop n) := by
  have hd : ∀ e ∈ es.take n, e.done = true := by
    intro e he
    obtain ⟨i, hi, rfl⟩ := List.mem_iff_getElem.mp he
    rw [List.getElem_take]
    rw [List.length_take] at hi
    exact h i (by omega) (by omega)
  have ha := donePrefix_append (es.drop n) hd
  rwa [List.take_append_drop, List.length_take, Nat.min_eq_left hn] at ha

theorem advance_eq (es : List Entry) (n : ℕ) : advance es n = n + donePrefix es := by
  induction es generalizing n with
  | nil => rfl
  | cons e es ih =>
    unfold advance donePrefix
    cases hd : e.done
    · simp [hd]
    · simp only [if_true, ih, List.takeWhile_cons, hd, List.length_cons, donePrefix]
      omega

theorem popCovered_eq (position : ℤ) (es : List Entry) (n : ℕ) :
    popCovered position es n = (es.dropWhile (fun e => e.offset < position),
      n - (es.takeWhile (fun e => e.offset < position)).length) := by
  induction es generalizing n with
  | nil => simp [popCovered]
  | cons e es ih =>
    unfold popCovered
    by_cases he : e.offset < position
    · simp only [he, if_true, ih, List.dropWhile_cons, List.takeWhile_cons, decide_true,
        List.length_cons, Nat.sub_add_eq, Nat.sub_right_comm]
    · simp [he]

theorem registerRecord_eq {t : OffsetTracker} (h : t.Valid) (offset : ℤ) :
    t.registerRecord offset =
      if t.lastRegistered.any (fun last => offset ≤ last) then
        (.error (.offsetTracker .outOfOrderRegistration), t)
      else (.ok (), { t.withEntries (t.entries ++ [⟨offset, false⟩]) with
        lastRegistered := some offset }) := by
  unfold registerRecord
  split_ifs
  · rfl
  · have hp : t.prefixDone = donePrefix t.entries := h.prefixDone
    simp only [withEntries, donePrefix_concat_pending, List.countP_append, h.inFlight, hp,
      List.countP_cons, List.countP_nil, Bool.not_false, if_true, Nat.zero_add]

theorem lower_bound_entry {es : List Entry} (hs : es.Pairwise (fun a b => a.offset < b.offset))
    (offset : ℤ) :
    let it := lowerBound (fun e : Entry => decide (e.offset < offset)) es
    (∀ (hi : it < es.length), offset ≤ es[it].offset) ∧
      ∀ i (hi : i < es.length), i < it → es[i].offset < offset := by
  have hp : Partitioned (fun e : Entry => decide (e.offset < offset)) es := by
    refine hs.imp ?_
    intro a b hab hb
    simp only [decide_eq_true_eq] at hb ⊢
    omega
  obtain ⟨-, hc⟩ := lowerBound_correct hp
  refine ⟨fun hi => ?_, fun i hi hlt => by simpa using (hc i hi).mpr hlt⟩
  by_contra hlt
  have := (hc _ hi).mp (by simpa using hlt)
  omega

def markDone (offset : ℤ) (es : List Entry) : List Entry :=
  es.map (fun e => if e.offset = offset then { e with done := true } else e)

theorem markDone_done {es : List Entry} {offset : ℤ}
    (h : ∀ e ∈ es, e.offset = offset → e.done = true) : markDone offset es = es := by
  have he : ∀ e ∈ es, (if e.offset = offset then ({ e with done := true } : Entry) else e) = e := by
    intro e hm
    split_ifs with ho
    · rw [← h e hm ho]
    · rfl
  unfold markDone
  rw [List.map_congr_left he, List.map_id']

theorem set_eq_markDone {es : List Entry} (hs : es.Pairwise (fun a b => a.offset < b.offset))
    {i : ℕ} (hi : i < es.length) :
    es.set i ⟨es[i].offset, true⟩ = markDone es[i].offset es := by
  apply List.ext_getElem
  · simp [markDone]
  · intro j hj hj'
    simp only [List.length_set] at hj
    simp only [markDone, List.getElem_set, List.getElem_map]
    rcases Nat.lt_trichotomy i j with hlt | rfl | hlt
    · have := List.pairwise_iff_getElem.mp hs i j hi hj hlt
      rw [if_neg (by omega), if_neg (by omega)]
    · simp
    · have := List.pairwise_iff_getElem.mp hs j i hj hi hlt
      rw [if_neg (by omega), if_neg (by omega)]

theorem set_done_inFlight {es : List Entry} {i : ℕ} (hi : i < es.length) (hd : es[i].done = false) :
    (es.set i ⟨es[i].offset, true⟩).countP (fun e => !e.done) =
      es.countP (fun e => !e.done) - 1 := by
  rw [List.countP_set hi]
  simp [hd]

theorem complete_eq {t : OffsetTracker} (h : t.Valid) (offset : ℤ) :
    t.complete offset =
      if t.committed.any (fun c => offset < c) then (.ok (), t)
      else if ∃ e ∈ t.entries, e.offset = offset then (.ok (), t.withEntries (markDone offset t.entries))
      else (.error (.offsetTracker .unknownOffset), t) := by
  unfold complete
  split_ifs with hc hm
  · rfl
  · obtain ⟨hge, hlt⟩ := lower_bound_entry h.sorted offset
    obtain ⟨e, he, ho⟩ := hm
    obtain ⟨i, hi, rfl⟩ := List.mem_iff_getElem.mp he
    have hit : lowerBound (fun e : Entry => decide (e.offset < offset)) t.entries = i := by
      rcases Nat.lt_trichotomy i (lowerBound (fun e : Entry => decide (e.offset < offset)) t.entries)
        with hl | hl | hl
      · have := hlt i hi hl; omega
      · exact hl.symm
      · have hs := List.pairwise_iff_getElem.mp h.sorted _ i (by omega) hi hl
        have := hge (by omega)
        omega
    simp only [hit, List.getElem?_eq_getElem hi, ho, ne_eq, not_true_eq_false, if_false]
    split_ifs with hd
    · have hone : ∀ e ∈ t.entries, e.offset = offset → e.done = true := by
        intro e he heo
        obtain ⟨j, hj, rfl⟩ := List.mem_iff_getElem.mp he
        rcases Nat.lt_trichotomy i j with hl | rfl | hl
        · have := List.pairwise_iff_getElem.mp h.sorted i j hi hj hl; omega
        · exact hd
        · have := List.pairwise_iff_getElem.mp h.sorted j i hj hi hl; omega
      rw [markDone_done hone, h.eq_withEntries]
    · have hset := set_eq_markDone h.sorted hi
      have hcount := set_done_inFlight hi (by simpa using hd)
      have hle : t.prefixDone ≤ i := by
        by_contra hlt'
        exact hd (done_of_lt_donePrefix hi (by rw [h.prefixDone] at hlt'; unfold donePrefix; omega))
      rw [hset] at hcount
      rw [ho] at hset hcount
      have hsplit : donePrefix (markDone offset t.entries) =
          t.prefixDone + donePrefix ((markDone offset t.entries).drop t.prefixDone) := by
        rw [← hset]
        apply donePrefix_split (by simpa using by omega)
        intro j hj hjp
        rw [List.getElem_set_of_ne (by omega)]
        rw [List.length_set] at hj
        exact done_of_lt_donePrefix hj (by rw [h.prefixDone] at hjp; exact hjp)
      simp only [advancePrefix, advance_eq, hset, withEntries, ← hcount, h.inFlight, hsplit]
  · obtain ⟨hge, hlt⟩ := lower_bound_entry h.sorted offset
    dsimp only
    split
    · rfl
    · next e he =>
      obtain ⟨hi, rfl⟩ := List.getElem?_eq_some_iff.mp he
      rw [if_pos]
      intro ho
      exact hm ⟨_, List.getElem_mem hi, ho⟩

theorem pending_at_donePrefix {es : List Entry} (hs : es.Pairwise (fun a b => a.offset < b.offset))
    {i : ℕ} (hi : i < es.length) (hp : donePrefix es ≤ i) :
    ∃ f ∈ es, f.offset ≤ es[i].offset ∧ f.done = false := by
  have hlt : donePrefix es < es.length := by omega
  have hd := donePrefix_split (n := donePrefix es) hlt.le (fun j hj => done_of_lt_donePrefix hj)
  refine ⟨es[donePrefix es], List.getElem_mem hlt, ?_, ?_⟩
  · rcases Nat.eq_or_lt_of_le hp with heq | hl
    · simp [heq]
    · exact (List.pairwise_iff_getElem.mp hs _ i hlt hi hl).le
  · rw [List.drop_eq_getElem_cons hlt] at hd
    by_contra hdone
    simp only [Bool.not_eq_false] at hdone
    simp only [donePrefix, List.takeWhile_cons] at hd hdone
    simp only [hdone, if_true, List.length_cons] at hd
    omega

theorem commitCandidate_some {t : OffsetTracker} (h : t.Valid) {w : ℤ}
    (hw : t.commitCandidate = some w) :
    ∃ e ∈ t.entries, w = e.offset + 1 ∧ (∀ f ∈ t.entries, f.offset < w → f.done = true) ∧
      ∀ g ∈ t.entries, w ≤ g.offset → ∃ f ∈ t.entries, f.offset ≤ g.offset ∧ f.done = false := by
  unfold commitCandidate at hw
  split_ifs at hw with hz
  obtain ⟨e, he, rfl⟩ := Option.map_eq_some_iff.mp hw
  obtain ⟨hi, rfl⟩ := List.getElem?_eq_some_iff.mp he
  have hp : t.prefixDone = donePrefix t.entries := h.prefixDone
  refine ⟨_, List.getElem_mem hi, rfl, ?_, ?_⟩
  · intro f hf hlt
    obtain ⟨j, hj, rfl⟩ := List.mem_iff_getElem.mp hf
    apply done_of_lt_donePrefix hj
    by_contra hge
    have := List.pairwise_iff_getElem.mp h.sorted (t.prefixDone - 1) j hi hj (by omega)
    omega
  · intro g hg hle
    obtain ⟨j, hj, rfl⟩ := List.mem_iff_getElem.mp hg
    apply pending_at_donePrefix h.sorted hj
    by_contra hlt
    rcases Nat.eq_or_lt_of_le (show j ≤ t.prefixDone - 1 by omega) with rfl | hl
    · omega
    · have := List.pairwise_iff_getElem.mp h.sorted j (t.prefixDone - 1) hj hi hl
      omega

theorem commitCandidate_none {t : OffsetTracker} (h : t.Valid) (hw : t.commitCandidate = none) :
    ∀ g ∈ t.entries, ∃ f ∈ t.entries, f.offset ≤ g.offset ∧ f.done = false := by
  intro g hg
  obtain ⟨j, hj, rfl⟩ := List.mem_iff_getElem.mp hg
  have hp : t.prefixDone = donePrefix t.entries := h.prefixDone
  have hle := donePrefix_le t.entries
  apply pending_at_donePrefix h.sorted hj
  unfold commitCandidate at hw
  split_ifs at hw with hz
  · omega
  · rw [List.getElem?_eq_getElem (by omega)] at hw
    cases hw

theorem covered_done {t : OffsetTracker} (h : t.Valid) {position : ℤ}
    (hw : ¬ t.commitCandidate.all (fun watermark => position > watermark)) :
    ∀ e ∈ t.entries, e.offset < position → e.done = true := by
  intro e he hlt
  cases hc : t.commitCandidate with
  | none => simp [hc] at hw
  | some w =>
    simp only [hc, Option.all_some, decide_eq_true_eq, not_lt] at hw
    obtain ⟨-, -, -, hall, -⟩ := commitCandidate_some h hc
    exact hall e he (by omega)

theorem dropWhile_covered {es : List Entry} {position : ℤ}
    (hd : ∀ e ∈ es, e.offset < position → e.done = true) :
    donePrefix (es.dropWhile (fun e => e.offset < position)) =
        donePrefix es - (es.takeWhile (fun e => e.offset < position)).length ∧
      (es.takeWhile (fun e => e.offset < position)).length ≤ donePrefix es ∧
      (es.dropWhile (fun e => e.offset < position)).countP (fun e => !e.done) =
        es.countP (fun e => !e.done) := by
  have hpre : ∀ e ∈ es.takeWhile (fun e => e.offset < position), e.done = true := by
    intro e he
    exact hd e (List.takeWhile_subset _ he) (by simpa using List.mem_takeWhile_imp he)
  have hsum := donePrefix_append (es.dropWhile (fun e => e.offset < position)) hpre
  rw [List.takeWhile_append_dropWhile] at hsum
  refine ⟨by omega, by omega, ?_⟩
  have hz : (es.takeWhile (fun e => e.offset < position)).countP (fun e => !e.done) = 0 :=
    List.countP_eq_zero.mpr (fun e he => by simp [hpre e he])
  have hc : (es.takeWhile (fun e => e.offset < position) ++
      es.dropWhile (fun e => e.offset < position)).countP (fun e => !e.done) =
        (es.takeWhile (fun e => e.offset < position)).countP (fun e => !e.done) +
          (es.dropWhile (fun e => e.offset < position)).countP (fun e => !e.done) :=
    List.countP_append
  rw [List.takeWhile_append_dropWhile, hz] at hc
  omega

theorem confirmCommit_eq {t : OffsetTracker} (h : t.Valid) (position : ℤ) :
    t.confirmCommit position =
      if t.committed.any (fun c => position ≤ c) then (.ok (), t)
      else if t.commitCandidate.all (fun watermark => position > watermark) then
        (.error (.offsetTracker .commitBeyondWatermark), t)
      else (.ok (), { t.withEntries (t.entries.dropWhile (fun e => e.offset < position)) with
        committed := some position }) := by
  unfold confirmCommit
  split_ifs with hc hw
  · rfl
  · rfl
  · obtain ⟨hp, -, hcount⟩ := dropWhile_covered (covered_done h hw)
    have he : t.prefixDone = donePrefix t.entries := h.prefixDone
    simp only [popCovered_eq, withEntries, hp, hcount, h.inFlight, he]

theorem popped_le_prefixDone {t : OffsetTracker} (h : t.Valid) {position : ℤ}
    (hw : ¬ t.commitCandidate.all (fun watermark => position > watermark)) :
    (t.entries.takeWhile (fun e => e.offset < position)).length ≤ t.prefixDone := by
  rw [h.prefixDone]
  exact (dropWhile_covered (covered_done h hw)).2.1

theorem Valid.offsets_nodup {t : OffsetTracker} (h : t.Valid) : (t.entries.map Entry.offset).Nodup :=
  List.pairwise_map.mpr (h.sorted.imp (fun hab => hab.ne))

theorem Valid.offset_unique {t : OffsetTracker} (h : t.Valid) {e f : Entry} (he : e ∈ t.entries)
    (hf : f ∈ t.entries) (ho : e.offset = f.offset) : e = f :=
  List.inj_on_of_nodup_map h.offsets_nodup he hf ho

theorem Valid.registerRecord {t : OffsetTracker} (h : t.Valid) (offset : ℤ) :
    (t.registerRecord offset).2.Valid := by
  rw [registerRecord_eq h]
  split_ifs with hr
  · exact h
  · have hlast : ∀ last, t.lastRegistered = some last → last < offset := by
      intro last hl
      simpa [hl] using hr
    have hlt : ∀ e ∈ t.entries, e.offset < offset := by
      intro e he
      obtain ⟨last, hl, hle⟩ := h.registered e he
      exact hle.trans_lt (hlast last hl)
    constructor
    · refine List.pairwise_append.mpr ⟨h.sorted, List.pairwise_singleton _ _, ?_⟩
      simpa using hlt
    · rfl
    · rfl
    · intro e he
      refine ⟨offset, rfl, ?_⟩
      rcases List.mem_append.mp he with he | he
      · exact (hlt e he).le
      · rw [List.mem_singleton.mp he]
    · intro c hc e he
      rcases List.mem_append.mp he with he | he
      · exact h.uncommitted c hc e he
      · obtain ⟨last, hl, hle⟩ := h.committed c hc
        have := hlast last hl
        rw [List.mem_singleton.mp he]
        dsimp only
        omega
    · intro c hc
      obtain ⟨last, hl, hle⟩ := h.committed c hc
      have := hlast last hl
      exact ⟨offset, rfl, by omega⟩

theorem Valid.complete {t : OffsetTracker} (h : t.Valid) (offset : ℤ) :
    (t.complete offset).2.Valid := by
  rw [complete_eq h]
  split_ifs with hc hm
  · exact h
  · have hoff : ∀ e ∈ markDone offset t.entries, ∃ f ∈ t.entries, f.offset = e.offset := by
      intro e he
      obtain ⟨f, hf, rfl⟩ := List.mem_map.mp he
      exact ⟨f, hf, by split_ifs <;> rfl⟩
    constructor
    · refine List.pairwise_map.mpr (h.sorted.imp ?_)
      intro a b hab
      split_ifs <;> exact hab
    · rfl
    · rfl
    · intro e he
      obtain ⟨f, hf, ho⟩ := hoff e he
      rw [← ho]
      exact h.registered f hf
    · intro c hc e he
      obtain ⟨f, hf, ho⟩ := hoff e he
      rw [← ho]
      exact h.uncommitted c hc f hf
    · exact h.committed
  · exact h

theorem not_covered {es : List Entry} (hs : es.Pairwise (fun a b => a.offset < b.offset))
    {position : ℤ} {e : Entry} :
    e ∈ es.dropWhile (fun e => e.offset < position) ↔ e ∈ es ∧ position ≤ e.offset := by
  induction es with
  | nil => simp
  | cons a es ih =>
    obtain ⟨ha, hes⟩ := List.pairwise_cons.mp hs
    rw [List.dropWhile_cons]
    by_cases hp : a.offset < position
    · simp only [hp, decide_true, if_true, ih hes, List.mem_cons]
      constructor
      · rintro ⟨he, hle⟩
        exact ⟨.inr he, hle⟩
      · rintro ⟨rfl | he, hle⟩
        · omega
        · exact ⟨he, hle⟩
    · simp only [hp, decide_false, Bool.false_eq_true, if_false, List.mem_cons]
      constructor
      · rintro (rfl | he)
        · exact ⟨.inl rfl, by omega⟩
        · exact ⟨.inr he, by have := ha e he; omega⟩
      · exact fun h => h.1

theorem Valid.confirmCommit {t : OffsetTracker} (h : t.Valid) (position : ℤ) :
    (t.confirmCommit position).2.Valid := by
  rw [confirmCommit_eq h]
  split_ifs with hc hw
  · exact h
  · exact h
  · have hmem : ∀ e, e ∈ t.entries.dropWhile (fun e => e.offset < position) ↔
        e ∈ t.entries ∧ position ≤ e.offset := fun e => not_covered h.sorted
    constructor
    · exact h.sorted.sublist (List.dropWhile_suffix _).sublist
    · rfl
    · rfl
    · intro e he
      exact h.registered e ((hmem e).mp he).1
    · rintro c ⟨⟩ e he
      exact ((hmem e).mp he).2
    · rintro c ⟨⟩
      cases hcand : t.commitCandidate with
      | none => simp [hcand] at hw
      | some w =>
        simp only [hcand, Option.all_some, decide_eq_true_eq, not_lt] at hw
        obtain ⟨e, he, rfl, -, -⟩ := commitCandidate_some h hcand
        obtain ⟨last, hl, hle⟩ := h.registered e he
        exact ⟨last, hl, by omega⟩

end LiquidPetProject.Messaging.OffsetTracker
