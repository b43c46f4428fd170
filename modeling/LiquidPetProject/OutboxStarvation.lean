import LiquidPetProject.OutboxBatches
import LiquidPetProject.SortedWindow

namespace LiquidPetProject.Outbox

open Models Messaging Repository Transitions SortedWindow

variable {π : Type} {B : OutboxEventId → Bool} {limit : ℕ}

section Rows

instance (rank : OutboxEventId → ℕ) : Std.Total (Earlier (π := π) rank) where
  total a b := by
    unfold Earlier
    omega

instance (rank : OutboxEventId → ℕ) : IsTrans (OutboxRow π) (Earlier rank) where
  trans a b c hab hbc := by
    unfold Earlier at hab hbc ⊢
    omega

theorem selectUnpublishedOutbox_unlocked (rank : OutboxEventId → ℕ) (rows : List (OutboxRow π)) :
    selectUnpublishedOutbox rank [] limit rows = ((unpublished rows).insertionSort (Earlier rank)).take limit := by
  unfold selectUnpublishedOutbox unpublished
  simp

def accepted (B : OutboxEventId → Bool) (rows : List (OutboxRow π)) : List (OutboxRow π) :=
  (unpublished rows).filter (fun row => !B row.id)

def rejectedBefore (B : OutboxEventId → Bool) (rows : List (OutboxRow π)) (row : OutboxRow π) : List (OutboxRow π) :=
  (unpublished rows).filter (fun bad => B bad.id && decide (bad.createdAt ≤ row.createdAt))

def FewRejected (B : OutboxEventId → Bool) (limit : ℕ) (rows : List (OutboxRow π)) : Prop :=
  ∀ row ∈ accepted B rows, (rejectedBefore B rows row).length < limit

theorem mem_accepted {rows : List (OutboxRow π)} {row : OutboxRow π} :
    row ∈ accepted B rows ↔ row ∈ unpublished rows ∧ B row.id = false := by
  unfold accepted
  rw [List.mem_filter, Bool.not_eq_true']

def batchIds (B : OutboxEventId → Bool) (limit : ℕ) (rank : OutboxEventId → ℕ) (rows : List (OutboxRow π)) :
    List OutboxEventId :=
  ((selectUnpublishedOutbox rank [] limit rows).map (fun row => row.id)).filter (fun id => !B id)

theorem unpublished_batch (rank : OutboxEventId → ℕ) (rows : List (OutboxRow π)) :
    unpublished (batch B limit rank rows) =
      (unpublished rows).filter (fun row => row.id ∉ batchIds B limit rank rows) :=
  unpublished_markRows _ rows

theorem unpublished_batch_sublist (rank : OutboxEventId → ℕ) (rows : List (OutboxRow π)) :
    (unpublished (batch B limit rank rows)).Sublist (unpublished rows) := by
  rw [unpublished_batch]
  exact List.filter_sublist

theorem accepted_batch (rank : OutboxEventId → ℕ) (rows : List (OutboxRow π)) :
    accepted B (batch B limit rank rows) =
      (accepted B rows).filter (fun row => row.id ∉ batchIds B limit rank rows) := by
  unfold accepted
  rw [unpublished_batch, List.filter_filter, List.filter_filter]
  apply List.filter_congr
  intro row _
  exact Bool.and_comm _ _

theorem FewRejected.batch {rows : List (OutboxRow π)} (h : FewRejected B limit rows) (rank : OutboxEventId → ℕ) :
    FewRejected B limit (batch B limit rank rows) := by
  intro row hrow
  have hsub : (unpublished (Outbox.batch B limit rank rows)).Sublist (unpublished rows) :=
    unpublished_batch_sublist rank rows
  have hle := (hsub.filter (fun bad => B bad.id && decide (bad.createdAt ≤ row.createdAt))).length_le
  exact hle.trans_lt (h row ((hsub.filter _).subset hrow))

theorem accepted_batch_lt {rows : List (OutboxRow π)} (h : FewRejected B limit rows) (rank : OutboxEventId → ℕ)
    (hne : accepted B rows ≠ []) :
    (accepted B (Outbox.batch B limit rank rows)).length < (accepted B rows).length := by
  obtain ⟨row, hrow⟩ := List.exists_mem_of_ne_nil _ hne
  obtain ⟨hmem, hB⟩ := mem_accepted.mp hrow
  have hfew : ((unpublished rows).filter (fun b => !(!B b.id) && decide (Earlier rank b row))).length < limit := by
    refine (List.Sublist.length_le ?_).trans_lt (h row hrow)
    apply List.monotone_filter_right
    intro bad hbad
    simp only [Bool.not_not, Bool.and_eq_true, decide_eq_true_eq] at hbad ⊢
    refine ⟨hbad.1, ?_⟩
    have hearlier := hbad.2
    unfold Earlier at hearlier
    omega
  obtain ⟨found, hfound, hgood⟩ := window_meets (r := Earlier rank) hmem (p := fun b => !B b.id) (by simp [hB]) hfew
  have hfoundMem : found ∈ unpublished rows :=
    (List.mem_insertionSort _).mp (List.mem_of_mem_take hfound)
  have hid : found.id ∈ batchIds B limit rank rows := by
    refine List.mem_filter.mpr ⟨?_, hgood⟩
    rw [selectUnpublishedOutbox_unlocked]
    exact List.mem_map_of_mem hfound
  rw [accepted_batch, List.length_filter_lt_length_iff_exists]
  refine ⟨found, List.mem_filter.mpr ⟨hfoundMem, hgood⟩, ?_⟩
  simp [hid]

theorem accepted_batches {rows : List (OutboxRow π)} (h : FewRejected B limit rows)
    (ranks : List (OutboxEventId → ℕ)) :
    (accepted B (ranks.foldl (fun rows rank => Outbox.batch B limit rank rows) rows)).length ≤
      (accepted B rows).length - ranks.length := by
  induction ranks generalizing rows with
  | nil => simp
  | cons rank ranks ih =>
    have hrest := ih (h.batch rank)
    rw [List.foldl_cons, List.length_cons]
    by_cases hne : accepted B rows = []
    · rw [accepted_batch, hne, List.filter_nil, List.length_nil] at hrest
      omega
    · have hlt := accepted_batch_lt h rank hne
      omega

structure Starved (B : OutboxEventId → Bool) (limit : ℕ) (rows : List (OutboxRow π)) (row : OutboxRow π) : Prop where
  ids : ((unpublished rows).map (fun row => row.id)).Nodup
  waiting : row ∈ accepted B rows
  behind : limit ≤ (rejectedBefore B rows row).length

def rejectedFirst (B : OutboxEventId → Bool) (id : OutboxEventId) : ℕ := if B id then 0 else 1

theorem Starved.batch {rows : List (OutboxRow π)} {row : OutboxRow π} (h : Starved B limit rows row) :
    Starved B limit (batch B limit (rejectedFirst B) rows) row := by
  obtain ⟨hmem, hB⟩ := mem_accepted.mp h.waiting
  have hmany : limit ≤ ((unpublished rows).filter (fun b => decide ¬ Earlier (rejectedFirst B) row b)).length := by
    refine h.behind.trans (List.Sublist.length_le ?_)
    apply List.monotone_filter_right
    intro bad hbad
    simp only [Bool.and_eq_true, decide_eq_true_eq] at hbad ⊢
    unfold Earlier rejectedFirst
    rw [hbad.1, hB]
    simp
    omega
  have hnot : row.id ∉ batchIds B limit (rejectedFirst B) rows := by
    intro hid
    obtain ⟨hid, -⟩ := List.mem_filter.mp hid
    obtain ⟨found, hfound, hsame⟩ := List.mem_map.mp hid
    rw [selectUnpublishedOutbox_unlocked] at hfound
    have hfoundMem : found ∈ unpublished rows := (List.mem_insertionSort _).mp (List.mem_of_mem_take hfound)
    obtain rfl := List.inj_on_of_nodup_map h.ids hfoundMem hmem hsame
    exact window_avoids hmany hfound
  refine ⟨h.ids.sublist ((unpublished_batch_sublist _ rows).map _), ?_, ?_⟩
  · rw [mem_accepted, unpublished_batch]
    exact ⟨List.mem_filter.mpr ⟨hmem, by simp [hnot]⟩, hB⟩
  · unfold rejectedBefore
    rw [unpublished_batch, List.filter_filter]
    refine h.behind.trans (List.Sublist.length_le ?_)
    apply List.monotone_filter_right
    intro bad hbad
    have hkept : bad.id ∉ batchIds B limit (rejectedFirst B) rows := by
      intro hid
      have hgood := (List.mem_filter.mp hid).2
      simp only [Bool.and_eq_true] at hbad
      simp [hbad.1] at hgood
    rw [hbad]
    simp [hkept]

end Rows

namespace OutboxState

theorem Later.unpublished_subset {rows rows' : List (OutboxRow π)} (h : Later rows rows') {row : OutboxRow π}
    (hrow : row ∈ unpublished rows') : row ∈ unpublished rows := by
  rw [mem_unpublished] at hrow ⊢
  obtain ⟨hmem, hp⟩ := hrow
  refine ⟨?_, hp⟩
  induction h with
  | nil => exact hmem
  | cons hsame _ ih =>
    rcases List.mem_cons.mp hmem with rfl | hmem
    · rcases hsame with rfl | rfl
      · exact List.mem_cons_self
      · cases hp
    · exact List.mem_cons_of_mem _ (ih hmem)

variable {s : OutboxState π} {p : OutboxPublisher π} {last : BatchResult}

def Clears (B : OutboxEventId → Bool) (s : OutboxState π) : Prop :=
  ∃ k, ∀ actions t, run step s actions = some t → meets step (undisturbed B) s actions = true →
    k ≤ (batchResults 0 s actions).length → ∀ row ∈ t.rows, B row.id = false → row.published = true

theorem clears_of_fewRejected (halone : s.publishers = [p]) (hidle : p.pc = .idle last)
    (hlimit : p.batchSize.toInt = limit) (h : FewRejected B limit s.rows) : Clears B s := by
  refine ⟨(accepted B s.rows).length, ?_⟩
  intro actions t hrun hu hk row hrow hB
  have hserving : Serving B s p := by
    refine ⟨halone, ?_, ?_⟩
    · rw [hidle]
      nofun
    · rw [hidle]
      nofun
  obtain ⟨ranks, pc, hlength, hat⟩ := run_batches hserving hlimit (.inl ⟨by rw [hidle]; rfl, rfl⟩) hu hrun
  have hlater : Later (ranks.foldl (fun rows rank => batch B limit rank rows) s.rows) t.rows := by
    rcases hat with ⟨-, hrows⟩ | ⟨-, hlater, -⟩
    · rw [hrows]
      exact Later.refl _
    · exact hlater
  have hle := accepted_batches h ranks
  have hnone : accepted B (ranks.foldl (fun rows rank => batch B limit rank rows) s.rows) = [] :=
    List.eq_nil_of_length_eq_zero (by omega)
  by_contra hp
  have hmem := hlater.unpublished_subset (mem_unpublished.mpr ⟨hrow, Bool.eq_false_iff.mpr hp⟩)
  have haccepted := mem_accepted.mpr ⟨hmem, hB⟩
  rw [hnone] at haccepted
  cases haccepted

theorem starved_drives {row : OutboxRow π} (halone : s.publishers = [p]) (hidle : p.pc = .idle last)
    (hlimit : p.batchSize.toInt = limit) (h : Starved B limit s.rows row) (k : ℕ) :
    ∃ t last', Drives B s t k ∧ t.publishers = [{ p with pc := .idle last' }] ∧ Starved B limit t.rows row := by
  induction k with
  | zero =>
    refine ⟨s, last, Drives.refl s, ?_, h⟩
    rw [halone, ← hidle]
  | succ k ih =>
    obtain ⟨t, last', hdrives, ht, hstarved⟩ := ih
    obtain ⟨u, last'', hbatch, hu, hrows⟩ := batch_drives (B := B) ht rfl hlimit (rejectedFirst B)
    refine ⟨u, last'', hdrives.trans hbatch, hu, ?_⟩
    rw [hrows]
    exact hstarved.batch

theorem not_clears_of_starved {row : OutboxRow π} (halone : s.publishers = [p]) (hidle : p.pc = .idle last)
    (hlimit : p.batchSize.toInt = limit) (h : Starved B limit s.rows row) : ¬ Clears B s := by
  rintro ⟨k, hclears⟩
  obtain ⟨t, _, ⟨actions, hrun, hu, hlength⟩, -, hstarved⟩ := starved_drives halone hidle hlimit h k
  obtain ⟨hmem, hB⟩ := mem_accepted.mp hstarved.waiting
  obtain ⟨hrow, hp⟩ := mem_unpublished.mp hmem
  have htrue := hclears actions t hrun hu hlength.ge row hrow hB
  rw [hp] at htrue
  cases htrue

theorem unpublished_ids {rows : List (OutboxRow π)} (h : (rows.map (fun row => row.id)).Nodup) :
    ((unpublished rows).map (fun row => row.id)).Nodup :=
  h.sublist (List.filter_sublist.map _)

/-- The accepted rows of a table are all published in the end exactly when none of them waits behind a batch of
rejected ones. -/
theorem clears_iff (halone : s.publishers = [p]) (hidle : p.pc = .idle last) (hsize : 1 ≤ p.batchSize.toInt)
    (hids : (s.rows.map (fun row => row.id)).Nodup) :
    Clears B s ↔ FewRejected B p.batchSize.toInt.toNat s.rows := by
  have hlimit : p.batchSize.toInt = p.batchSize.toInt.toNat := by omega
  constructor
  · intro hclears row hrow
    by_contra hbehind
    exact not_clears_of_starved halone hidle hlimit ⟨unpublished_ids hids, hrow, not_lt.mp hbehind⟩ hclears
  · exact clears_of_fewRejected halone hidle hlimit

def laterEntry : OutboxEntry String where
  id := ⟨"550e8400-e29b-41d4-a716-446655440022", by decide, by decide⟩
  aggregateId := "550e8400-e29b-41d4-a716-446655440023"
  eventType := "OrderCreated"
  payload := "{}"

def sampleQueue (batchSize : Int32) : OutboxState String where
  rows := [⟨sampleEntry, false, 0⟩, ⟨laterEntry, false, 1⟩]
  inserts := []
  publishers := [⟨"orders", batchSize, .idle {}⟩]
  futures := []
  messages := []

theorem clears_two_at_a_time : Clears (fun id => id = sampleEntry.id) (sampleQueue 2) := by
  apply (clears_iff (s := sampleQueue 2) rfl rfl (by decide) (by decide)).mpr
  have haccepted : accepted (fun id => id = sampleEntry.id) (sampleQueue 2).rows = [⟨laterEntry, false, 1⟩] := rfl
  intro row hrow
  rw [haccepted, List.mem_singleton] at hrow
  rw [hrow]
  decide

theorem clears_not_one_at_a_time : ¬ Clears (fun id => id = sampleEntry.id) (sampleQueue 1) := by
  have hstarved : Starved (fun id => id = sampleEntry.id) 1 (sampleQueue 1).rows ⟨laterEntry, false, 1⟩ := by
    refine ⟨by decide, ?_, by decide⟩
    exact mem_accepted.mpr ⟨List.mem_cons_of_mem _ List.mem_cons_self, by decide⟩
  exact not_clears_of_starved (s := sampleQueue 1) rfl rfl rfl hstarved

end OutboxState

end LiquidPetProject.Outbox
