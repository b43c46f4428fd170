import LiquidPetProject.OutboxDelivery

namespace LiquidPetProject.Outbox

open Models Messaging Repository Transitions

variable {π : Type}

namespace OutboxState

theorem setPc_other {s : OutboxState π} {i j : ℕ} {pc : PublisherPc π} (hij : i ≠ j) :
    (s.setPc i pc).publishers[j]? = s.publishers[j]? := by
  change (s.publishers.modify i _)[j]? = _
  rw [List.getElem?_modify_ne _ _ hij]

theorem setPc_self {s : OutboxState π} {i : ℕ} {p : OutboxPublisher π} {pc : PublisherPc π}
    (h : s.publishers[i]? = some p) : (s.setPc i pc).publishers[i]? = some { p with pc := pc } := by
  change (s.publishers.modify i _)[i]? = _
  rw [List.getElem?_modify_eq, h]
  rfl

theorem Moves.publishers {s u : OutboxState π} {p : OutboxPublisher π} {pc : PublisherPc π}
    (hm : Moves s p u pc) : u.publishers = s.publishers := by
  cases hm <;> rfl

theorem step_frame {s t : OutboxState π} {a : OutboxAction π} {i : ℕ} (ha : ∀ event, a ≠ .publisher i event)
    (h : s.step a = some t) : t.publishers[i]? = s.publishers[i]? := by
  cases a with
  | insert entry createdAt =>
    obtain rfl := Option.some.inj h
    rfl
  | insertCommitted k =>
    obtain ⟨row, -, -, rfl⟩ := step_insertCommitted h
    rfl
  | insertRolledBack k =>
    obtain rfl := Option.some.inj h
    rfl
  | publisher j event =>
    have hij : j ≠ i := by
      rintro rfl
      exact ha event rfl
    obtain ⟨p, -, hstep⟩ := step_publisher h
    obtain ⟨u, pc, rfl, hm⟩ := publisherStep_moves hstep
    rw [setPc_other hij, hm.publishers]
  | broker f event =>
    obtain ⟨future, -, hstep⟩ := step_broker h
    rw [(brokerStep_frame hstep).2]

theorem run_frame {s t : OutboxState π} {actions : List (OutboxAction π)} {i : ℕ}
    (ha : ∀ a ∈ actions, ∀ event, a ≠ .publisher i event) (h : run step s actions = some t) :
    t.publishers[i]? = s.publishers[i]? :=
  run_preserves (I := fun u => u.publishers[i]? = s.publishers[i]?)
    (fun _ _ _ hi hP hstep => (step_frame hP hstep).trans hi) rfl ha h

def Fetches (i : ℕ) (s : OutboxState π) (rows : List (OutboxEntry π)) : Prop :=
  ∃ rank between s₁ s₂ s₃ p, s.step (.publisher i (.select rank)) = some s₁ ∧ run step s₁ between = some s₂ ∧
    (∀ a ∈ between, ∀ event, a ≠ .publisher i event) ∧ s₂.step (.publisher i .fetchCommitted) = some s₃ ∧
    s₃.publishers[i]? = some p ∧ p.pc = .publishing rows []

def NoOtherTransaction (i : ℕ) (s : OutboxState π) : Prop :=
  s.inserts = [] ∧ ∀ j p, j ≠ i → s.publishers[j]? = some p → p.pc.inTransaction = false

theorem locks_eq_nil {pc : PublisherPc π} (h : pc.inTransaction = false) : pc.locks = [] := by
  cases pc with
  | fetching rows => cases h
  | updating entry pending result => cases h
  | _ => rfl

theorem locked_eq_nil {s : OutboxState π} {i : ℕ} {p : OutboxPublisher π} (hothers : s.NoOtherTransaction i)
    (hp : s.publishers[i]? = some p) (hpc : p.pc.inTransaction = false) : s.locked = [] := by
  apply List.flatMap_eq_nil_iff.mpr
  intro q hq
  obtain ⟨j, hj⟩ := List.mem_iff_getElem?.mp hq
  by_cases hij : j = i
  · subst hij
    obtain rfl := Option.some.inj (hj.symm.trans hp)
    exact locks_eq_nil hpc
  · exact locks_eq_nil (hothers.2 j q hij hj)

theorem publisherStep_select {s t : OutboxState π} {i : ℕ} {p : OutboxPublisher π} {rank : OutboxEventId → ℕ}
    (h : s.publisherStep i p (.select rank) = some t) :
    p.pc.inTransaction = false ∧ t = s.selectUnpublished i p rank := by
  unfold publisherStep at h
  cases hpc : p.pc with
  | idle last =>
    rw [hpc] at h
    exact ⟨rfl, (Option.some.inj h).symm⟩
  | _ =>
    rw [hpc] at h
    cases h

theorem publisherStep_fetchCommitted {s t : OutboxState π} {i : ℕ} {p : OutboxPublisher π}
    (h : s.publisherStep i p .fetchCommitted = some t) :
    ∃ rows, p.pc = .fetching rows ∧ t = s.setPc i (.publishing rows []) := by
  unfold publisherStep at h
  cases hpc : p.pc with
  | fetching rows =>
    rw [hpc] at h
    exact ⟨rows, rfl, (Option.some.inj h).symm⟩
  | _ =>
    rw [hpc] at h
    cases h

theorem Fetches.selected {i : ℕ} {s : OutboxState π} {rows : List (OutboxEntry π)} (h : Fetches i s rows) :
    ∃ p rank, s.publishers[i]? = some p ∧ p.pc.inTransaction = false ∧ 0 ≤ p.batchSize.toInt ∧
      rows = entries (selectUnpublishedOutbox rank s.locked p.batchSize.toInt.toNat s.rows) := by
  obtain ⟨rank, between, s₁, s₂, s₃, q, hselect, hrun, hothers, hcommit, hq, hqpc⟩ := h
  obtain ⟨p, hp, hstep⟩ := step_publisher hselect
  obtain ⟨hidle, rfl⟩ := publisherStep_select hstep
  obtain ⟨p₂, hp₂, hstep₂⟩ := step_publisher hcommit
  obtain ⟨fetched, hfetched, rfl⟩ := publisherStep_fetchCommitted hstep₂
  rw [setPc_self hp₂] at hq
  obtain rfl := Option.some.inj hq
  obtain ⟨rfl, -⟩ := PublisherPc.publishing.inj hqpc
  rw [run_frame hothers hrun] at hp₂
  refine ⟨p, rank, hp, hidle, ?_⟩
  unfold selectUnpublished at hp₂
  split_ifs at hp₂ with hneg
  · rw [setPc_self hp] at hp₂
    obtain rfl := Option.some.inj hp₂
    cases hfetched
  · rw [setPc_self hp] at hp₂
    obtain rfl := Option.some.inj hp₂
    exact ⟨not_lt.mp hneg, (PublisherPc.fetching.inj hfetched).symm⟩

theorem fetch_complete {i : ℕ} {s : OutboxState π} {rows : List (OutboxEntry π)} {p : OutboxPublisher π}
    (hothers : s.NoOtherTransaction i) (hp : s.publishers[i]? = some p)
    (hlimit : ((s.rows.filter (fun row => !row.published)).length : ℤ) ≤ p.batchSize.toInt) (h : Fetches i s rows)
    {row : OutboxRow π} (hrow : row ∈ s.rows) (hunpublished : row.published = false) :
    row.toOutboxEntry ∈ rows := by
  obtain ⟨q, rank, hq, hidle, -, rfl⟩ := h.selected
  obtain rfl := Option.some.inj (hp.symm.trans hq)
  rw [locked_eq_nil hothers hp hidle]
  apply List.mem_map_of_mem
  exact selectUnpublishedOutbox_complete (by omega) hrow hunpublished

def Delivers (m : PublishRequest π) (row : OutboxRow π) : Prop :=
  m.metadata.eventId = row.id ∧ m.key = row.aggregateId ∧ m.metadata.eventType = row.eventType ∧
    m.payload = row.payload

theorem delivers_of_entryOf {m : PublishRequest π} {row : OutboxRow π} (h : entryOf m = row.toOutboxEntry) :
    Delivers m row :=
  ⟨congrArg OutboxEntry.id h, congrArg OutboxEntry.aggregateId h, congrArg OutboxEntry.eventType h,
    congrArg OutboxEntry.payload h⟩

def NeverReset (s t : OutboxState π) : Prop :=
  ∀ row ∈ s.rows, row.published = true →
    (∃ row' ∈ t.rows, row'.id = row.id) ∧ ∀ row' ∈ t.rows, row'.id = row.id → row'.published = true

theorem Sound.neverReset {s t : OutboxState π} (ht : t.Sound) (hg : Grows s t) : NeverReset s t := by
  intro row hrow hp
  obtain ⟨kept, hkept, hentry, hpub⟩ := hg.published row hrow
  have hid : kept.id = row.id := congrArg OutboxEntry.id hentry
  refine ⟨⟨kept, hkept, hid⟩, ?_⟩
  intro row' hrow' hid'
  rw [List.inj_on_of_nodup_map ht.recorded.ids hrow' hkept (hid'.trans hid.symm)]
  exact hpub hp

theorem outbox_delivers (instances : List (String × Int32)) (actions : List (OutboxAction π)) (s : OutboxState π)
    (h : run step (start instances) actions = some s) :
    (∀ row ∈ s.rows, row.published = true → ∃ m ∈ s.messages, Delivers m row) ∧
      (∀ m ∈ s.messages, ∃ row ∈ s.rows, Delivers m row) ∧
      (∀ later t, run step s later = some t → NeverReset s t) ∧
      ∀ i p rows, s.NoOtherTransaction i → s.publishers[i]? = some p →
        ((s.rows.filter (fun row => !row.published)).length : ℤ) ≤ p.batchSize.toInt → Fetches i s rows →
        ∀ row ∈ s.rows, row.published = false → row.toOutboxEntry ∈ rows := by
  have hs : s.Sound := run_sound (sound_start instances) h
  refine ⟨?_, ?_, ?_, ?_⟩
  · intro row hrow hp
    obtain ⟨m, hm, hentry⟩ := List.mem_map.mp (hs.recorded.published row hrow hp)
    exact ⟨m, hm, delivers_of_entryOf hentry⟩
  · intro m hm
    obtain ⟨row, hrow, hentry⟩ := List.mem_map.mp (hs.recorded.held (List.mem_map_of_mem hm))
    exact ⟨row, hrow, delivers_of_entryOf hentry.symm⟩
  · intro later t hlater
    exact (run_sound hs hlater).neverReset (run_grows hs hlater)
  · intro i p rows hothers hp hlimit hf row hrow hunpublished
    exact fetch_complete hothers hp hlimit hf hrow hunpublished

def sampleEntry : OutboxEntry String where
  id := ⟨"550e8400-e29b-41d4-a716-446655440020", by decide, by decide⟩
  aggregateId := "550e8400-e29b-41d4-a716-446655440021"
  eventType := "OrderCreated"
  payload := "{}"

def samplePublication : List (OutboxAction String) :=
  [.insert sampleEntry 0, .insertCommitted 0, .publisher 0 (.select (fun _ => 0)), .publisher 0 .fetchCommitted,
    .publisher 0 .publish, .publisher 0 .publishFinished, .broker 0 .stored, .broker 0 .acknowledged,
    .publisher 0 .ready, .publisher 0 .update, .publisher 0 (.markFinished (.inDoubt .inDoubtError))]

theorem outbox_delivers_sample :
    ∃ s, run step (start [("orders", 100)]) samplePublication = some s ∧ s.rows = [⟨sampleEntry, true, 0⟩] ∧
      ∃ m ∈ s.messages, Delivers m ⟨sampleEntry, true, 0⟩ := by
  refine ⟨_, rfl, rfl, ?_⟩
  exact (outbox_delivers [("orders", 100)] samplePublication _ rfl).1 ⟨sampleEntry, true, 0⟩ List.mem_cons_self rfl

end OutboxState

end LiquidPetProject.Outbox
