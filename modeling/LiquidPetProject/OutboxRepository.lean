import LiquidPetProject.Uuid
import Mathlib.Data.List.Sort

namespace LiquidPetProject.Outbox

open Models Repository

variable {π : Type}

structure OutboxEntry (π : Type) where
  id : OutboxEventId
  aggregateId : String
  eventType : String
  payload : π

structure OutboxRow (π : Type) extends OutboxEntry π where
  published : Bool
  createdAt : ℤ

def insertOutboxEvent (entry : OutboxEntry π) (createdAt : ℤ) : OutboxRow π := ⟨entry, false, createdAt⟩

/-- `ORDER BY created_at`; `rank` is the order the database gives to rows of one instant. -/
def Earlier (rank : OutboxEventId → ℕ) (a b : OutboxRow π) : Prop :=
  a.createdAt < b.createdAt ∨ a.createdAt = b.createdAt ∧ rank a.id ≤ rank b.id

instance (rank : OutboxEventId → ℕ) : DecidableRel (Earlier (π := π) rank) :=
  fun _ _ => inferInstanceAs (Decidable (_ ∨ _))

def selectUnpublishedOutbox (rank : OutboxEventId → ℕ) (locked : List OutboxEventId) (limit : ℕ)
    (rows : List (OutboxRow π)) : List (OutboxRow π) :=
  ((rows.filter (fun row => !row.published && row.id ∉ locked)).insertionSort (Earlier rank)).take limit

def markOutboxPublished (id : OutboxEventId) (rows : List (OutboxRow π)) : List (OutboxRow π) :=
  rows.map (fun row => if row.id = id then { row with published := true } else row)

def rowKeys (rows : List (OutboxRow π)) : List Uuid := rows.map (fun row => Uuid.ofId row.id)

theorem notMem_ids {id : OutboxEventId} {rows : List (OutboxRow π)} (h : Uuid.ofId id ∉ rowKeys rows) :
    id ∉ rows.map (fun row => row.id) := by
  intro hmem
  obtain ⟨row, hrow, rfl⟩ := List.mem_map.mp hmem
  exact h (List.mem_map_of_mem hrow)

def entries (rows : List (OutboxRow π)) : List (OutboxEntry π) := rows.map OutboxRow.toOutboxEntry

theorem mem_selectUnpublishedOutbox {rank : OutboxEventId → ℕ} {locked : List OutboxEventId} {limit : ℕ}
    {rows : List (OutboxRow π)} {row : OutboxRow π} (h : row ∈ selectUnpublishedOutbox rank locked limit rows) :
    row ∈ rows ∧ row.published = false := by
  have hsorted := List.mem_of_mem_take h
  rw [List.mem_insertionSort, List.mem_filter, Bool.and_eq_true, Bool.not_eq_true'] at hsorted
  exact ⟨hsorted.1, hsorted.2.1⟩

theorem selectUnpublishedOutbox_complete {rank : OutboxEventId → ℕ} {limit : ℕ} {rows : List (OutboxRow π)}
    (hlimit : (rows.filter (fun row => !row.published)).length ≤ limit) {row : OutboxRow π} (hrow : row ∈ rows)
    (hp : row.published = false) : row ∈ selectUnpublishedOutbox rank [] limit rows := by
  unfold selectUnpublishedOutbox
  simp only [List.not_mem_nil, not_false_eq_true, decide_true, Bool.and_true]
  rw [List.take_of_length_le (by rwa [List.length_insertionSort]), List.mem_insertionSort, List.mem_filter]
  exact ⟨hrow, by rw [hp]; rfl⟩

theorem entries_markOutboxPublished (id : OutboxEventId) (rows : List (OutboxRow π)) :
    entries (markOutboxPublished id rows) = entries rows := by
  unfold entries markOutboxPublished
  rw [List.map_map]
  apply List.map_congr_left
  intro row _
  simp only [Function.comp_apply]
  split_ifs <;> rfl

theorem mem_markOutboxPublished {id : OutboxEventId} {rows : List (OutboxRow π)} {row : OutboxRow π}
    (h : row ∈ markOutboxPublished id rows) :
    ∃ old ∈ rows, row.toOutboxEntry = old.toOutboxEntry ∧
      (row.published = true → old.published = true ∨ row.id = id) := by
  obtain ⟨old, hold, hrow⟩ := List.mem_map.mp h
  refine ⟨old, hold, ?_⟩
  split_ifs at hrow with hid
  · subst hrow
    exact ⟨rfl, fun _ => .inr hid⟩
  · subst hrow
    exact ⟨rfl, fun hp => .inl hp⟩

end LiquidPetProject.Outbox
