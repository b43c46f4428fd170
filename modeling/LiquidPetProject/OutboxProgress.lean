import LiquidPetProject.OutboxGuarantees

namespace LiquidPetProject.Outbox

open Models Messaging Repository Transitions

variable {π : Type}

section Rows

def unpublished (rows : List (OutboxRow π)) : List (OutboxRow π) := rows.filter (fun row => !row.published)

def Marked (rows : List (OutboxRow π)) (id : OutboxEventId) : Prop := ∀ row ∈ rows, row.id = id → row.published = true

theorem mem_unpublished {rows : List (OutboxRow π)} {row : OutboxRow π} :
    row ∈ unpublished rows ↔ row ∈ rows ∧ row.published = false := by
  unfold unpublished
  rw [List.mem_filter, Bool.not_eq_true']

theorem markOutboxPublished_of_marked {rows : List (OutboxRow π)} {id : OutboxEventId} (h : Marked rows id) :
    markOutboxPublished id rows = rows := by
  refine Eq.trans (List.map_congr_left ?_) (List.map_id rows)
  intro row hrow
  split_ifs with hid
  · obtain ⟨entry, published, createdAt⟩ := row
    obtain rfl : published = true := h _ hrow hid
    rfl
  · rfl

theorem unpublished_markOutboxPublished (rows : List (OutboxRow π)) (id : OutboxEventId) :
    (unpublished (markOutboxPublished id rows)).length =
      ((unpublished rows).filter (fun row => row.id ≠ id)).length := by
  unfold unpublished markOutboxPublished
  rw [List.filter_map, List.length_map, List.filter_filter]
  congr 1
  apply List.filter_congr
  intro row _
  by_cases hid : row.id = id
  · simp [hid]
  · simp [hid]

theorem mark_cases (rows : List (OutboxRow π)) (id : OutboxEventId) :
    Marked rows id ∧ markOutboxPublished id rows = rows ∨
      (unpublished (markOutboxPublished id rows)).length < (unpublished rows).length := by
  by_cases h : Marked rows id
  · exact .inl ⟨h, markOutboxPublished_of_marked h⟩
  · right
    unfold Marked at h
    push Not at h
    obtain ⟨row, hrow, hid, hp⟩ := h
    rw [unpublished_markOutboxPublished, List.length_filter_lt_length_iff_exists]
    refine ⟨row, mem_unpublished.mpr ⟨hrow, Bool.eq_false_iff.mpr hp⟩, ?_⟩
    simp [hid]

end Rows

namespace PublisherPc

def isIdle : PublisherPc π → Bool
  | idle _ => true
  | _ => false

def result : PublisherPc π → BatchResult
  | idle result => result
  | awaiting _ result => result
  | marking _ _ result => result
  | updating _ _ result => result
  | _ => {}

def inHand : PublisherPc π → List OutboxEventId
  | idle _ => []
  | fetching rows => rows.map OutboxEntry.id
  | publishing todo pending => todo.map OutboxEntry.id ++ pending.map (fun x => x.1.id)
  | awaiting pending _ => pending.map (fun x => x.1.id)
  | marking entry pending _ => entry.id :: pending.map (fun x => x.1.id)
  | updating entry pending _ => entry.id :: pending.map (fun x => x.1.id)

theorem isIdle_of_inHand {pc : PublisherPc π} {id : OutboxEventId} (h : id ∈ pc.inHand) : pc.isIdle = false := by
  cases pc with
  | idle result => cases h
  | _ => rfl

theorem next_result (pending : List (OutboxEntry π × ℕ)) (result : BatchResult) :
    (next pending result).result = result := by
  cases pending <;> rfl

theorem next_inHand (pending : List (OutboxEntry π × ℕ)) (result : BatchResult) :
    (next pending result).inHand = pending.map (fun x => x.1.id) := by
  cases pending <;> rfl

end PublisherPc

def Spent (rows : List (OutboxRow π)) (pc : PublisherPc π) : Prop :=
  0 < pc.result.published ∨ ∃ id ∈ pc.inHand, Marked rows id

structure Within (n : ℕ) (rows : List (OutboxRow π)) (pc : PublisherPc π) : Prop where
  le : (unpublished rows).length ≤ n
  spent : pc.isIdle = false → Spent rows pc → (unpublished rows).length < n

theorem Within.of_lt {n : ℕ} {rows : List (OutboxRow π)} (h : (unpublished rows).length < n) (pc : PublisherPc π) :
    Within n rows pc :=
  ⟨h.le, fun _ _ => h⟩

theorem Within.idle {n : ℕ} {rows : List (OutboxRow π)} {pc : PublisherPc π} (h : (unpublished rows).length ≤ n)
    (hidle : pc.isIdle = true) : Within n rows pc := by
  refine ⟨h, ?_⟩
  intro hbusy
  rw [hidle] at hbusy
  cases hbusy

namespace OutboxState

section Steps

variable {s t : OutboxState π} {i : ℕ} {p q : OutboxPublisher π}

theorem Moves.rows {u : OutboxState π} {pc : PublisherPc π} (hm : Moves s p u pc) :
    u.rows = s.rows ∨ ∃ id ∈ p.pc.inHand, u.rows = markOutboxPublished id s.rows := by
  cases hm with
  | applied last h | abandoned h =>
    right
    rw [h]
    exact ⟨_, List.mem_cons_self, rfl⟩
  | _ => exact .inl rfl

theorem Moves.inHand {u : OutboxState π} {pc : PublisherPc π} (hm : Moves s p u pc) {id : OutboxEventId}
    (hid : id ∈ pc.inHand) : id ∈ p.pc.inHand ∨ ¬ Marked s.rows id := by
  cases hm with
  | stop last => cases hid
  | select rank limit =>
    right
    obtain ⟨entry, hentry, rfl⟩ := List.mem_map.mp hid
    obtain ⟨row, hrow, rfl⟩ := List.mem_map.mp hentry
    obtain ⟨hmem, hp⟩ := mem_selectUnpublishedOutbox hrow
    intro hmarked
    have htrue := hmarked row hmem rfl
    rw [hp] at htrue
    cases htrue
  | fetched h =>
    left
    rw [h]
    simpa [PublisherPc.inHand] using hid
  | publish h =>
    left
    rw [h]
    simp only [PublisherPc.inHand, List.map_append, List.map_cons, List.map_nil, List.mem_append, List.mem_cons,
      List.not_mem_nil, or_false] at hid ⊢
    tauto
  | succeed h hf hok =>
    left
    rw [h]
    exact hid
  | update h =>
    left
    rw [h]
    exact hid
  | published result h =>
    left
    rw [PublisherPc.next_inHand] at hid
    rw [h]
    exact hid
  | skip h | unmarked h | unapplied h | applied last h =>
    left
    rw [PublisherPc.next_inHand] at hid
    rw [h]
    exact List.mem_cons_of_mem _ hid
  | abandoned h => cases hid

theorem publisherStep_result {event : PublisherEvent} (hi : s.publishers[i]? = some p)
    (h : s.publisherStep i p event = some t) (hq : t.publishers[i]? = some q) (hcount : 0 < q.pc.result.published) :
    p.pc.isIdle = false ∧ 0 < p.pc.result.published ∨ ∃ id ∈ p.pc.inHand, t.rows = markOutboxPublished id s.rows := by
  have hnext {u : OutboxState π} {pc : PublisherPc π} (ht : some (u.setPc i pc) = some t)
      (hu : u.publishers = s.publishers) : 0 < pc.result.published := by
    rw [← Option.some.inj ht, setPc_self (hu ▸ hi)] at hq
    obtain rfl := Option.some.inj hq
    exact hcount
  have hsame {pc : PublisherPc π} {pending : List (OutboxEntry π × ℕ)} {result : BatchResult} (hpc : p.pc = pc)
      (hbusy : pc.isIdle = false) (hresult : pc.result = result) (ht : some (s.setPc i (.next pending result)) = some t) :
      p.pc.isIdle = false ∧ 0 < p.pc.result.published := by
    have hpos := hnext ht rfl
    rw [PublisherPc.next_result] at hpos
    rw [hpc, hresult]
    exact ⟨hbusy, hpos⟩
  unfold publisherStep at h
  split at h
  · unfold selectUnpublished at h
    split_ifs at h
    · exact absurd (hnext h rfl) (lt_irrefl 0)
    · exact absurd (hnext h rfl) (lt_irrefl 0)
  · exact absurd (hnext h rfl) (lt_irrefl 0)
  · exact absurd (hnext h rfl) (lt_irrefl 0)
  · exact absurd (hnext h rfl) (lt_irrefl 0)
  · next todo pending hpc =>
    cases todo with
    | nil => cases h
    | cons entry todo => exact absurd (hnext h rfl) (lt_irrefl 0)
  · next todo pending hpc =>
    cases todo with
    | nil =>
      have hpos := hnext h rfl
      rw [PublisherPc.next_result] at hpos
      exact absurd hpos (lt_irrefl 0)
    | cons entry todo => cases h
  · next pending result hpc =>
    cases pending with
    | nil => cases h
    | cons head pending =>
      simp only [waitTimedOut] at h
      split_ifs at h
      exact .inl (hsame hpc rfl rfl h)
  · next pending result hpc =>
    cases pending with
    | nil => cases h
    | cons head pending =>
      obtain ⟨entry, f⟩ := head
      simp only [waitReady] at h
      cases hf : s.futureResult f with
      | none =>
        rw [hf] at h
        cases h
      | some outcome =>
        rw [hf] at h
        cases outcome with
        | error e => exact .inl (hsame hpc rfl rfl h)
        | ok sent =>
          have hpos := hnext h rfl
          rw [hpc]
          exact .inl ⟨rfl, hpos⟩
  · next hpc => exact .inl (hsame hpc rfl rfl h)
  · next hpc =>
    unfold updatePublished at h
    split_ifs at h
    · have hpos := hnext h rfl
      rw [hpc]
      exact .inl ⟨rfl, hpos⟩
    · exact .inl (hsame hpc rfl rfl h)
  · next entry pending result outcome hpc =>
    cases outcome with
    | committed =>
      right
      rw [hpc]
      exact ⟨entry.id, List.mem_cons_self, congrArg OutboxState.rows (Option.some.inj h).symm⟩
    | failed e => exact .inl (hsame hpc rfl rfl h)
    | inDoubt e =>
      right
      rw [hpc]
      exact ⟨entry.id, List.mem_cons_self, congrArg OutboxState.rows (Option.some.inj h).symm⟩
  · unfold restart at h
    split at h
    · split_ifs at h
      · exact absurd (hnext h rfl) (lt_irrefl 0)
      · exact absurd (hnext h rfl) (lt_irrefl 0)
    · exact absurd (hnext h rfl) (lt_irrefl 0)
  · cases h

theorem step_rows {a : OutboxAction π} (ha : ∀ k, a ≠ .insertCommitted k) (h : s.step a = some t) :
    t.rows = s.rows ∨ ∃ id, t.rows = markOutboxPublished id s.rows := by
  cases a with
  | insert entry createdAt =>
    obtain rfl := Option.some.inj h
    exact .inl rfl
  | insertCommitted k => exact absurd rfl (ha k)
  | insertRolledBack k =>
    obtain rfl := Option.some.inj h
    exact .inl rfl
  | publisher j event =>
    obtain ⟨p, -, hstep⟩ := step_publisher h
    obtain ⟨u, pc, rfl, hm⟩ := publisherStep_moves hstep
    rcases hm.rows with hrows | ⟨id, -, hrows⟩
    · exact .inl hrows
    · exact .inr ⟨id, hrows⟩
  | broker f event =>
    obtain ⟨future, -, hstep⟩ := step_broker h
    exact .inl (brokerStep_frame hstep).1

theorem publisherStep_within {n : ℕ} {event : PublisherEvent} (hi : s.publishers[i]? = some p)
    (hw : Within n s.rows p.pc) (h : s.publisherStep i p event = some t) :
    ∃ pc, t.publishers[i]? = some { p with pc := pc } ∧ (unpublished t.rows).length ≤ n ∧
      (Spent t.rows pc → (unpublished t.rows).length < n) := by
  obtain ⟨u, pc, rfl, hm⟩ := publisherStep_moves h
  have hq : (u.setPc i pc).publishers[i]? = some { p with pc := pc } := setPc_self (hm.publishers ▸ hi)
  refine ⟨pc, hq, ?_⟩
  change (unpublished u.rows).length ≤ n ∧ (Spent u.rows pc → (unpublished u.rows).length < n)
  by_cases hlt : (unpublished u.rows).length < n
  · exact ⟨hlt.le, fun _ => hlt⟩
  have hkept {id : OutboxEventId} (hmark : u.rows = markOutboxPublished id s.rows) :
      Marked s.rows id ∧ u.rows = s.rows := by
    rcases mark_cases s.rows id with ⟨hmarked, hsame⟩ | hfewer
    · exact ⟨hmarked, hmark.trans hsame⟩
    · rw [← hmark] at hfewer
      exact absurd (hfewer.trans_le hw.le) hlt
  have hrows : u.rows = s.rows := by
    rcases hm.rows with hsame | ⟨id, -, hmark⟩
    · exact hsame
    · exact (hkept hmark).2
  rw [hrows]
  refine ⟨hw.le, ?_⟩
  rintro (hcount | ⟨id, hid, hmarked⟩)
  · rcases publisherStep_result hi h hq hcount with ⟨hbusy, hpos⟩ | ⟨id, hid, hmark⟩
    · exact hw.spent hbusy (.inl hpos)
    · exact hw.spent (PublisherPc.isIdle_of_inHand hid) (.inr ⟨id, hid, (hkept hmark).1⟩)
  · rcases hm.inHand hid with hbefore | hnot
    · exact hw.spent (PublisherPc.isIdle_of_inHand hbefore) (.inr ⟨id, hbefore, hmarked⟩)
    · exact absurd hmarked hnot

theorem step_within {n : ℕ} {a : OutboxAction π} (hi : s.publishers[i]? = some p) (hw : Within n s.rows p.pc)
    (hinsert : ∀ k, a ≠ .insertCommitted k) (ha : ∀ event, a ≠ .publisher i event) (h : s.step a = some t) :
    t.publishers[i]? = some p ∧ Within n t.rows p.pc := by
  refine ⟨(step_frame ha h).trans hi, ?_⟩
  rcases step_rows hinsert h with hrows | ⟨id, hrows⟩
  · rw [hrows]
    exact hw
  · rw [hrows]
    rcases mark_cases s.rows id with ⟨-, hsame⟩ | hfewer
    · rw [hsame]
      exact hw
    · exact Within.of_lt (hfewer.trans_le hw.le) p.pc

end Steps

def returned (i : ℕ) (a : OutboxAction π) (t : OutboxState π) : Option BatchResult :=
  match a with
  | .publisher _ (.restarted _) => none
  | .publisher j _ =>
    if j = i then
      match t.publishers[i]?.map OutboxPublisher.pc with
      | some (.idle result) => some result
      | _ => none
    else none
  | _ => none

def batchResults (i : ℕ) : OutboxState π → List (OutboxAction π) → List BatchResult
  | _, [] => []
  | s, a :: actions =>
    match s.step a with
    | none => []
    | some t => (returned i a t).toList ++ batchResults i t actions

theorem returned_other {i : ℕ} {a : OutboxAction π} (ha : ∀ event, a ≠ .publisher i event) (t : OutboxState π) :
    returned i a t = none := by
  unfold returned
  split
  · rfl
  · next j event _ =>
    have hj : j ≠ i := by
      rintro rfl
      exact ha event rfl
    rw [if_neg hj]
  · rfl

theorem returned_some {i : ℕ} {a : OutboxAction π} {t : OutboxState π} {q : OutboxPublisher π} {result : BatchResult}
    (hq : t.publishers[i]? = some q) (h : returned i a t = some result) : q.pc = .idle result := by
  unfold returned at h
  split at h
  · cases h
  · split_ifs at h
    rw [hq] at h
    split at h
    · next hpc =>
      obtain rfl := Option.some.inj h
      exact Option.some.inj hpc
    · cases h
  · cases h

theorem batches_le {s t : OutboxState π} {i n : ℕ} {p : OutboxPublisher π} {actions : List (OutboxAction π)}
    (hi : s.publishers[i]? = some p) (hw : Within n s.rows p.pc) (hinserts : ∀ k, .insertCommitted k ∉ actions)
    (h : run step s actions = some t) (batchSize : Int32) :
    ((batchResults i s actions).filter (fun result => result.hasMoreWork batchSize)).length +
      (unpublished t.rows).length ≤ n := by
  induction actions generalizing s n p with
  | nil =>
    obtain rfl := Option.some.inj h
    simpa [batchResults] using hw.le
  | cons a actions ih =>
    obtain ⟨u, hu, ht⟩ := Option.bind_eq_some_iff.mp h
    have hrest : ∀ k, .insertCommitted k ∉ actions := fun k hk => hinserts k (List.mem_cons_of_mem _ hk)
    simp only [batchResults, hu]
    by_cases ha : ∃ event, a = .publisher i event
    · obtain ⟨event, rfl⟩ := ha
      obtain ⟨p', hp', hstep⟩ := step_publisher hu
      obtain rfl := Option.some.inj (hi.symm.trans hp')
      obtain ⟨pc, hq, hle, hspent⟩ := publisherStep_within hi hw hstep
      cases hret : returned i (.publisher i event) u with
      | none => exact ih hq ⟨hle, fun _ => hspent⟩ hrest ht
      | some result =>
        have hpc : pc = .idle result := returned_some hq hret
        subst hpc
        cases hmore : result.hasMoreWork batchSize with
        | false => simpa [hmore] using ih hq (Within.idle hle rfl) hrest ht
        | true =>
          have hpos : 0 < result.published := by
            unfold BatchResult.hasMoreWork at hmore
            simp only [Bool.and_eq_true, decide_eq_true_eq] at hmore
            exact hmore.1
          have hfewer := hspent (.inl hpos)
          have hih := ih hq (Within.idle (Nat.le_sub_one_of_lt hfewer) rfl) hrest ht
          rw [Option.toList_some, List.singleton_append, List.filter_cons_of_pos (by exact hmore), List.length_cons]
          omega
    · push Not at ha
      rw [returned_other ha]
      obtain ⟨hq, hw'⟩ := step_within hi hw (fun k hk => hinserts k (hk ▸ List.mem_cons_self)) ha hu
      exact ih hq hw' hrest ht

def Later (rows rows' : List (OutboxRow π)) : Prop :=
  List.Forall₂ (fun row row' => row' = row ∨ row' = { row with published := true }) rows rows'

def Turned (rows rows' : List (OutboxRow π)) : Prop :=
  ∃ (k : ℕ) (row : OutboxRow π), rows[k]? = some row ∧ row.published = false ∧
    rows'[k]? = some { row with published := true }

theorem Later.refl (rows : List (OutboxRow π)) : Later rows rows := List.forall₂_same.mpr (fun _ _ => .inl rfl)

theorem later_mark (rows : List (OutboxRow π)) (id : OutboxEventId) : Later rows (markOutboxPublished id rows) := by
  unfold Later markOutboxPublished
  rw [List.forall₂_map_right_iff, List.forall₂_same]
  intro row _
  split_ifs
  · exact .inr rfl
  · exact .inl rfl

theorem Later.trans {rows rows' rows'' : List (OutboxRow π)} (h : Later rows rows') (h' : Later rows' rows'') :
    Later rows rows'' := by
  induction h generalizing rows'' with
  | nil => exact h'
  | cons hrow _ ih =>
    cases h' with
    | cons hrow' hrest =>
      refine .cons ?_ (ih hrest)
      rcases hrow with rfl | rfl
      · exact hrow'
      · rcases hrow' with rfl | rfl
        · exact .inr rfl
        · exact .inr rfl

theorem Later.turned {rows rows' : List (OutboxRow π)} (h : Later rows rows')
    (hfewer : (unpublished rows').length < (unpublished rows).length) : Turned rows rows' := by
  induction h with
  | nil => exact absurd hfewer (lt_irrefl _)
  | @cons row row' rows rows' hrow _ ih =>
    by_cases hkept : row' = row
    · have hrest : (unpublished rows').length < (unpublished rows).length := by
        rw [hkept] at hfewer
        simp only [unpublished, List.filter_cons] at hfewer ⊢
        split_ifs at hfewer
        · exact Nat.lt_of_succ_lt_succ hfewer
        · exact hfewer
      obtain ⟨k, old, hold, hp, hnew⟩ := ih hrest
      exact ⟨k + 1, old, hold, hp, hnew⟩
    · have hmarked : row' = { row with published := true } := hrow.resolve_left hkept
      refine ⟨0, row, rfl, ?_, congrArg some hmarked⟩
      rw [← Bool.not_eq_true]
      intro hp
      apply hkept
      rw [hmarked]
      obtain ⟨entry, published, createdAt⟩ := row
      obtain rfl : published = true := hp
      rfl

theorem later_run {s t : OutboxState π} {actions : List (OutboxAction π)}
    (hinserts : ∀ k, .insertCommitted k ∉ actions) (h : run step s actions = some t) : Later s.rows t.rows := by
  apply run_preserves (I := fun u => Later s.rows u.rows) (P := fun a => ∀ k, a ≠ .insertCommitted k) ?_
    (Later.refl s.rows) (fun a ha k hk => hinserts k (by rwa [hk] at ha)) h
  intro u a v hu ha hstep
  rcases step_rows ha hstep with hrows | ⟨id, hrows⟩
  · rw [hrows]
    exact hu
  · rw [hrows]
    exact hu.trans (later_mark u.rows id)

/-- From a moment at which an instance is about to call `processBatch`. -/
theorem outbox_cannot_spin {s t : OutboxState π} {i : ℕ} {p : OutboxPublisher π} {last : BatchResult}
    {actions : List (OutboxAction π)} (hi : s.publishers[i]? = some p) (hidle : p.pc = .idle last)
    (hinserts : ∀ k, .insertCommitted k ∉ actions) (h : run step s actions = some t) :
    (∀ block, block <:+: batchResults i s actions →
      (∀ result ∈ block, result.hasMoreWork p.batchSize = true) → block.length ≤ (unpublished s.rows).length) ∧
    ∀ result, batchResults i s actions = [result] → result.hasMoreWork p.batchSize = true →
      Turned s.rows t.rows := by
  have hw : Within (unpublished s.rows).length s.rows p.pc := Within.idle le_rfl (by rw [hidle]; rfl)
  have hle := batches_le hi hw hinserts h p.batchSize
  constructor
  · intro block hblock hmore
    have hsub := (hblock.sublist.filter (fun result => result.hasMoreWork p.batchSize)).length_le
    rw [List.filter_eq_self.mpr hmore] at hsub
    omega
  · intro result hresult hmore
    apply Later.turned (later_run hinserts h)
    rw [hresult, List.filter_cons_of_pos (by exact hmore), List.length_cons] at hle
    omega

def sampleTable : OutboxState String where
  rows := [⟨sampleEntry, false, 0⟩]
  inserts := []
  publishers := [⟨"orders", 1, .idle {}⟩]
  futures := []
  messages := []

def sampleBatch : List (OutboxAction String) :=
  [.publisher 0 (.select (fun _ => 0)), .publisher 0 .fetchCommitted, .publisher 0 .publish,
    .publisher 0 .publishFinished, .broker 0 .stored, .broker 0 .acknowledged, .publisher 0 .ready,
    .publisher 0 .update, .publisher 0 (.markFinished .committed)]

theorem outbox_cannot_spin_sample :
    ∃ t, run step sampleTable sampleBatch = some t ∧ batchResults 0 sampleTable sampleBatch = [⟨1, 1⟩] ∧
      Turned sampleTable.rows t.rows := by
  have hinserts : ∀ k, .insertCommitted k ∉ sampleBatch := by
    intro k hk
    simp [sampleBatch] at hk
  refine ⟨_, rfl, rfl, ?_⟩
  exact (outbox_cannot_spin (s := sampleTable) (i := 0) rfl rfl hinserts rfl).2 ⟨1, 1⟩ rfl rfl

end OutboxState

end LiquidPetProject.Outbox
