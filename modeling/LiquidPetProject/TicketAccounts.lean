import LiquidPetProject.RegistryTotality

namespace LiquidPetProject.Messaging

namespace OffsetTracker

/-- The registered offsets in their order: first those that a commit has covered, and then the entries. -/
structure Account (registered : List ℤ) (Finished : ℤ → Prop) (t : OffsetTracker) : Prop where
  covered : ∃ covered, registered = covered ++ t.entries.map Entry.offset ∧
    t.committed = covered.getLast?.map (fun o => o + 1) ∧
    ∀ o ∈ covered, Finished o ∧ ∃ c, t.committed = some c ∧ o < c
  done : ∀ e ∈ t.entries, e.done = true → Finished e.offset

section Accounts

variable {registered : List ℤ} {Finished : ℤ → Prop} {t : OffsetTracker}

theorem Account.empty (Finished : ℤ → Prop) : Account [] Finished {} :=
  ⟨⟨[], rfl, rfl, by simp⟩, by simp⟩

theorem Account.mono {Finished' : ℤ → Prop} (h : t.Account registered Finished)
    (hf : ∀ o, Finished o → Finished' o) : t.Account registered Finished' := by
  obtain ⟨⟨covered, hreg, hcom, hcov⟩, hdone⟩ := h
  refine ⟨⟨covered, hreg, hcom, ?_⟩, ?_⟩
  · intro o ho
    exact ⟨hf o (hcov o ho).1, (hcov o ho).2⟩
  · intro e he hd
    exact hf _ (hdone e he hd)

theorem Account.knows (h : t.Account registered Finished) {o : ℤ} (ho : o ∈ registered) : t.Knows o := by
  obtain ⟨⟨covered, rfl, -, hcov⟩, -⟩ := h
  rcases List.mem_append.mp ho with hold | hentry
  · exact .inr (hcov o hold).2
  · exact .inl (List.mem_map.mp hentry)

theorem registerRecord_rejected {o : ℤ} {e : ErrorCode} (h : (t.registerRecord o).1 = .error e) :
    (t.registerRecord o).2 = t := by
  unfold OffsetTracker.registerRecord at h ⊢
  split_ifs at h ⊢
  rfl

theorem Account.registerRecord (hv : t.Valid) (h : t.Account registered Finished) {o : ℤ} {u : Unit}
    (hr : (t.registerRecord o).1 = .ok u) : (t.registerRecord o).2.Account (registered ++ [o]) Finished := by
  obtain ⟨⟨covered, hreg, hcom, hcov⟩, hdone⟩ := h
  rw [registerRecord_eq hv] at hr ⊢
  split_ifs at hr ⊢
  refine ⟨⟨covered, ?_, hcom, hcov⟩, ?_⟩
  · simp [hreg]
  · intro e he hd
    rcases List.mem_append.mp he with he | he
    · exact hdone e he hd
    · rw [List.mem_singleton.mp he] at hd
      cases hd

theorem markDone_map_offset (o : ℤ) (es : List Entry) :
    (markDone o es).map Entry.offset = es.map Entry.offset := by
  unfold markDone
  rw [List.map_map]
  apply List.map_congr_left
  intro e _
  dsimp only [Function.comp_apply]
  split_ifs <;> rfl

theorem Account.complete (hv : t.Valid) (h : t.Account registered Finished) {o : ℤ} (ho : Finished o) :
    (t.complete o).2.Account registered Finished := by
  obtain ⟨⟨covered, hreg, hcom, hcov⟩, hdone⟩ := h
  rw [complete_eq hv]
  split_ifs
  · exact ⟨⟨covered, hreg, hcom, hcov⟩, hdone⟩
  · refine ⟨⟨covered, ?_, hcom, hcov⟩, ?_⟩
    · rw [withEntries_entries, markDone_map_offset]
      exact hreg
    · intro e he hd
      obtain ⟨f, hf, rfl⟩ := List.mem_map.mp he
      split_ifs at hd ⊢ with hfo
      · exact hfo ▸ ho
      · exact hdone f hf hd
  · exact ⟨⟨covered, hreg, hcom, hcov⟩, hdone⟩

theorem getLast?_of_greatest {xs : List ℤ} (hs : xs.Pairwise (fun a b => a < b)) {m : ℤ} (hm : m ∈ xs)
    (hmax : ∀ x ∈ xs, x ≤ m) : xs.getLast? = some m := by
  rcases List.eq_nil_or_concat xs with rfl | ⟨ys, x, rfl⟩
  · cases hm
  · rw [List.concat_eq_append] at hs hm hmax ⊢
    have hx := hmax x (by simp)
    have hmx : m = x := by
      rcases List.mem_append.mp hm with hy | hy
      · have := (List.pairwise_append.mp hs).2.2 m hy x (List.mem_singleton_self x)
        omega
      · exact List.mem_singleton.mp hy
    simp [hmx]

theorem Account.confirmCommit (hv : t.Valid) (h : t.Account registered Finished) {p : ℤ}
    (hp : p - 1 ∈ registered) : (t.confirmCommit p).2.Account registered Finished := by
  obtain ⟨⟨covered, hreg, hcom, hcov⟩, hdone⟩ := h
  rw [confirmCommit_eq hv]
  split_ifs with hc hw
  · exact ⟨⟨covered, hreg, hcom, hcov⟩, hdone⟩
  · exact ⟨⟨covered, hreg, hcom, hcov⟩, hdone⟩
  · have hbelow : ∀ c, t.committed = some c → c < p := by
      intro c hcc
      simpa [hcc] using hc
    let popped := t.entries.takeWhile (fun e => e.offset < p)
    have hpopped : ∀ e ∈ popped, e ∈ t.entries ∧ e.offset < p := by
      intro e he
      exact ⟨List.takeWhile_subset _ he, by simpa using List.mem_takeWhile_imp he⟩
    have hlast : (popped.map Entry.offset).getLast? = some (p - 1) := by
      apply getLast?_of_greatest
      · exact List.pairwise_map.mpr (hv.sorted.sublist (List.takeWhile_sublist _))
      · rw [hreg] at hp
        rcases List.mem_append.mp hp with hold | hentry
        · obtain ⟨c, hcc, hlt⟩ := (hcov _ hold).2
          have := hbelow c hcc
          omega
        · obtain ⟨e, he, heo⟩ := List.mem_map.mp hentry
          refine List.mem_map.mpr ⟨e, ?_, heo⟩
          have hsplit : e ∈ popped ++ t.entries.dropWhile (fun e => e.offset < p) := by
            rwa [List.takeWhile_append_dropWhile]
          rcases List.mem_append.mp hsplit with he | he
          · exact he
          · have := ((not_covered hv.sorted).mp he).2
            omega
      · intro x hx
        obtain ⟨e, he, rfl⟩ := List.mem_map.mp hx
        have := (hpopped e he).2
        omega
    refine ⟨⟨covered ++ popped.map Entry.offset, ?_, ?_, ?_⟩, ?_⟩
    · rw [hreg, List.append_assoc, ← List.map_append, withEntries_entries, List.takeWhile_append_dropWhile]
    · rw [List.getLast?_append, hlast]
      simp
    · intro o ho
      rcases List.mem_append.mp ho with hold | hnew
      · obtain ⟨hf, c, hcc, hlt⟩ := hcov o hold
        exact ⟨hf, p, rfl, hlt.trans (hbelow c hcc)⟩
      · obtain ⟨e, he, rfl⟩ := List.mem_map.mp hnew
        obtain ⟨hmem, hlt⟩ := hpopped e he
        exact ⟨hdone e hmem (covered_done hv hw e hmem hlt), p, rfl, hlt⟩
    · intro e he hd
      exact hdone e ((not_covered hv.sorted).mp he).1 hd

theorem Account.candidate (hv : t.Valid) (h : t.Account registered Finished) {w : ℤ}
    (hw : t.commitCandidate = some w) : w - 1 ∈ registered := by
  obtain ⟨⟨covered, rfl, -, -⟩, -⟩ := h
  obtain ⟨e, he, rfl, -⟩ := commitCandidate_some hv hw
  rw [add_sub_cancel_right]
  exact List.mem_append_right _ (List.mem_map_of_mem he)

theorem Account.finished_covered [DecidablePred Finished] (hv : t.Valid) (h : t.Account registered Finished)
    (hf : ∀ o ∈ registered, Finished o → t.Completed o) (hc : t.commitCandidate = none) :
    t.committed = (registered.takeWhile Finished).getLast?.map (fun o => o + 1) ∧
      ∀ o ∈ registered.takeWhile Finished, ∃ c, t.committed = some c ∧ o < c := by
  obtain ⟨⟨covered, rfl, hcom, hcov⟩, hdone⟩ := h
  have hrest : (t.entries.map Entry.offset).takeWhile Finished = [] := by
    cases hes : t.entries with
    | nil => rfl
    | cons e es =>
      have he : e ∈ t.entries := by
        rw [hes]
        exact List.mem_cons_self
      have hpending : e.done = false := by
        obtain ⟨f, hmem, hle, hfd⟩ := commitCandidate_none hv hc e he
        have hsorted := hv.sorted
        rw [hes] at hsorted hmem
        rcases List.mem_cons.mp hmem with rfl | hmem
        · exact hfd
        · have := (List.pairwise_cons.mp hsorted).1 f hmem
          omega
      have hnot : ¬ Finished e.offset := by
        intro hfin
        have hreg : e.offset ∈ covered ++ t.entries.map Entry.offset :=
          List.mem_append_right _ (List.mem_map_of_mem he)
        rcases hf _ hreg hfin with ⟨f, hmem, hfo, hfd⟩ | ⟨c, hcc, hlt⟩
        · rw [hv.offset_unique hmem he hfo, hpending] at hfd
          cases hfd
        · have := hv.uncommitted c hcc e he
          omega
      simp [hnot]
  have hcovered : (covered ++ t.entries.map Entry.offset).takeWhile Finished = covered := by
    rw [List.takeWhile_append_of_pos, hrest, List.append_nil]
    intro o ho
    simpa using (hcov o ho).1
  rw [hcovered]
  exact ⟨hcom, fun o ho => (hcov o ho).2⟩

end Accounts

end OffsetTracker

def ticketOffsets (tickets : List RecordTicket) (p : PartitionKey) (generation : ℕ) : List ℤ :=
  (tickets.filter (fun t => t.partition = p ∧ t.generation = generation)).map RecordTicket.offset

theorem mem_ticketOffsets {tickets : List RecordTicket} {p : PartitionKey} {o : ℤ} {generation : ℕ} :
    o ∈ ticketOffsets tickets p generation ↔ ⟨p, o, generation⟩ ∈ tickets := by
  unfold ticketOffsets
  constructor
  · intro ho
    obtain ⟨t, ht, rfl⟩ := List.mem_map.mp ho
    obtain ⟨hmem, hkey⟩ := List.mem_filter.mp ht
    obtain ⟨rfl, rfl⟩ := of_decide_eq_true hkey
    exact hmem
  · intro ht
    exact List.mem_map.mpr ⟨_, List.mem_filter.mpr ⟨ht, by simp⟩, rfl⟩

theorem ticketOffsets_append (tickets tickets' : List RecordTicket) (p : PartitionKey) (generation : ℕ) :
    ticketOffsets (tickets ++ tickets') p generation =
      ticketOffsets tickets p generation ++ ticketOffsets tickets' p generation := by
  simp [ticketOffsets]

theorem ticketOffsets_other {t : RecordTicket} {p : PartitionKey} {generation : ℕ} (h : t.partition ≠ p) :
    ticketOffsets [t] p generation = [] := by
  simp [ticketOffsets, h]

namespace PartitionRegistry

structure Booked (registered settled : List RecordTicket) (reg : PartitionRegistry) : Prop where
  generation : ∀ t ∈ registered, t.generation ≤ reg.lastGeneration
  account : ∀ p st, reg.find p = some st →
    st.tracker.Account (ticketOffsets registered p st.generation) (fun o => ⟨p, o, st.generation⟩ ∈ settled)

def newTickets (reg : PartitionRegistry) (p : PartitionKey) (offset : ℤ) : List RecordTicket :=
  (reg.registerRecord p offset).1.toOption.toList

section Books

variable {registered settled : List RecordTicket} {reg : PartitionRegistry}

theorem Booked.mono {settled' : List RecordTicket} (h : Booked registered settled reg) (hsub : settled ⊆ settled') :
    Booked registered settled' reg := by
  refine ⟨h.generation, ?_⟩
  intro p st hf
  exact (h.account p st hf).mono (fun o ho => hsub ho)

theorem Booked.issued (h : Booked registered settled reg) {t : RecordTicket} (ht : t ∈ registered) :
    reg.Issued t := by
  refine ⟨h.generation t ht, ?_⟩
  intro st hf hg
  apply (h.account t.partition st hf).knows
  rw [mem_ticketOffsets, hg]
  exact ht

theorem Booked.candidate (hv : reg.Valid) (h : Booked registered settled reg) {x : CommitPosition}
    (hx : IsCandidate reg x) : ⟨x.partition, x.offset - 1, x.generation⟩ ∈ registered := by
  obtain ⟨st, hf, hc⟩ := hx
  rw [(candidate_partition hc).2, ← mem_ticketOffsets]
  exact (h.account _ st hf).candidate (hv.tracker _ st hf) (candidate_tracker hc)

theorem Booked.insertOrAssign (h : Booked registered settled reg) {p : PartitionKey} {st : PartitionState}
    {tracker : OffsetTracker}
    (ht : tracker.Account (ticketOffsets registered p st.generation) (fun o => ⟨p, o, st.generation⟩ ∈ settled)) :
    Booked registered settled (reg.insertOrAssign p { st with tracker := tracker }) := by
  refine ⟨h.generation, ?_⟩
  intro q st' hf
  rw [find_insertOrAssign] at hf
  split_ifs at hf with hp
  · obtain rfl := Option.some.inj hf
    subst hp
    exact ht
  · exact h.account q st' hf

theorem Booked.assign (h : Booked registered settled reg) (ps : List PartitionKey) :
    Booked registered settled (reg.assign ps) := by
  constructor
  · intro t ht
    rw [assign_lastGeneration]
    exact (h.generation t ht).trans (Nat.le_add_right ..)
  · intro p st hf
    by_cases hp : p ∈ ps
    · obtain ⟨g, hf', hlt, -⟩ := assign_find reg hp
      obtain rfl := Option.some.inj (hf'.symm.trans hf)
      have hnone : ticketOffsets registered p g = [] := by
        rw [List.eq_nil_iff_forall_not_mem]
        intro o ho
        have := h.generation _ (mem_ticketOffsets.mp ho)
        dsimp only at this
        omega
      dsimp only
      rw [hnone]
      exact OffsetTracker.Account.empty _
    · exact h.account p st ((assign_find_other hp).symm.trans hf)

theorem Booked.revoke (h : Booked registered settled reg) (ps : List PartitionKey) :
    Booked registered settled (reg.revoke ps).2 := by
  constructor
  · intro t ht
    rw [revoke_lastGeneration]
    exact h.generation t ht
  · intro p st hf
    rw [revoke_find] at hf
    split_ifs at hf
    exact h.account p st hf

theorem Booked.registerRecord (hv : reg.Valid) (h : Booked registered settled reg) (p : PartitionKey) (o : ℤ) :
    Booked (registered ++ reg.newTickets p o) settled (reg.registerRecord p o).2 := by
  unfold newTickets
  cases hf : reg.find p with
  | none =>
    rw [registerRecord_of_unassigned hf]
    simpa [Except.toOption] using h
  | some st =>
    rw [registerRecord_of_assigned hf]
    cases hr : (st.tracker.registerRecord o).1 with
    | error e =>
      rw [OffsetTracker.registerRecord_rejected hr]
      have hsame := h.insertOrAssign (h.account p st hf)
      simpa [Except.map, Except.toOption] using hsame
    | ok u =>
      have hnew := (h.account p st hf).registerRecord (hv.tracker p st hf) hr
      simp only [Except.map, Except.toOption, Option.toList_some]
      constructor
      · intro t ht
        rcases List.mem_append.mp ht with ht | ht
        · exact h.generation t ht
        · rw [List.mem_singleton.mp ht]
          exact hv.generation p st hf
      · intro q st' hf'
        rw [find_insertOrAssign] at hf'
        rw [ticketOffsets_append]
        split_ifs at hf' with hq
        · obtain rfl := Option.some.inj hf'
          subst hq
          simpa [ticketOffsets] using hnew
        · rw [ticketOffsets_other hq, List.append_nil]
          exact h.account q st' hf'

theorem Booked.complete (hv : reg.Valid) (h : Booked registered settled reg) {t : RecordTicket}
    (ht : t ∈ settled) : Booked registered settled (reg.complete t).2 := by
  cases hc : reg.isCurrent t with
  | false =>
    rw [complete_of_stale hc]
    exact h
  | true =>
    obtain ⟨st, hf, hg⟩ := isCurrent_iff.mp hc
    rw [complete_of_current hf hg]
    apply h.insertOrAssign
    apply (h.account _ st hf).complete (hv.tracker _ st hf)
    rw [hg]
    exact ht

theorem Booked.confirmCommit (hv : reg.Valid) (h : Booked registered settled reg) {x : CommitPosition}
    (hx : ⟨x.partition, x.offset - 1, x.generation⟩ ∈ registered) :
    Booked registered settled (reg.confirmCommit x).2 := by
  cases hc : reg.isCurrent x.ticket with
  | false =>
    rw [confirmCommit_of_stale hc]
    exact h
  | true =>
    obtain ⟨st, hf, hg⟩ := isCurrent_iff.mp hc
    rw [confirmCommit_of_current hf hg]
    apply h.insertOrAssign
    apply (h.account _ st hf).confirmCommit (hv.tracker _ st hf)
    rw [mem_ticketOffsets, hg]
    exact hx

end Books

end PartitionRegistry

end LiquidPetProject.Messaging
