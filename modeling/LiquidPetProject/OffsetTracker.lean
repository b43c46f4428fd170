import LiquidPetProject.ErrorCode
import LiquidPetProject.LowerBound

namespace LiquidPetProject.Messaging

open LowerBound

structure Entry where
  offset : ℤ
  done : Bool
  deriving DecidableEq, Repr

structure OffsetTracker where
  entries : List Entry := []
  prefixDone : ℕ := 0
  inFlight : ℕ := 0
  lastRegistered : Option ℤ := none
  committed : Option ℤ := none
  deriving DecidableEq, Repr

namespace OffsetTracker

def registerRecord (t : OffsetTracker) (offset : ℤ) : Except ErrorCode Unit × OffsetTracker :=
  if t.lastRegistered.any (fun last => offset ≤ last) then
    (.error (.offsetTracker .outOfOrderRegistration), t)
  else
    (.ok (), { t with
      entries := t.entries ++ [⟨offset, false⟩]
      lastRegistered := some offset
      inFlight := t.inFlight + 1 })

def advance : List Entry → ℕ → ℕ
  | [], n => n
  | e :: es, n => if e.done then advance es (n + 1) else n

def advancePrefix (t : OffsetTracker) : OffsetTracker :=
  { t with prefixDone := advance (t.entries.drop t.prefixDone) t.prefixDone }

def complete (t : OffsetTracker) (offset : ℤ) : Except ErrorCode Unit × OffsetTracker :=
  if t.committed.any (fun c => offset < c) then (.ok (), t)
  else
    let it := lowerBound (fun e : Entry => e.offset < offset) t.entries
    match t.entries[it]? with
    | none => (.error (.offsetTracker .unknownOffset), t)
    | some e =>
      if e.offset ≠ offset then (.error (.offsetTracker .unknownOffset), t)
      else if e.done then (.ok (), t)
      else
        (.ok (), advancePrefix { t with
          entries := t.entries.set it { e with done := true }
          inFlight := t.inFlight - 1 })

def commitCandidate (t : OffsetTracker) : Option ℤ :=
  if t.prefixDone = 0 then none
  else t.entries[t.prefixDone - 1]?.map (fun e => e.offset + 1)

def popCovered (position : ℤ) : List Entry → ℕ → List Entry × ℕ
  | [], n => ([], n)
  | e :: es, n => if e.offset < position then popCovered position es (n - 1) else (e :: es, n)

def confirmCommit (t : OffsetTracker) (position : ℤ) : Except ErrorCode Unit × OffsetTracker :=
  if t.committed.any (fun c => position ≤ c) then (.ok (), t)
  else if t.commitCandidate.all (fun watermark => position > watermark) then
    (.error (.offsetTracker .commitBeyondWatermark), t)
  else
    let (entries, prefixDone) := popCovered position t.entries t.prefixDone
    (.ok (), { t with entries := entries, prefixDone := prefixDone, committed := some position })

def uncommittedCount (t : OffsetTracker) : ℕ := t.entries.length

def inFlightCount (t : OffsetTracker) : ℕ := t.inFlight

def reset (_ : OffsetTracker) : OffsetTracker := {}

/-- The state that the methods keep: everything but the entries and the two positions is derived. -/
structure Valid (t : OffsetTracker) : Prop where
  sorted : t.entries.Pairwise (fun a b => a.offset < b.offset)
  prefixDone : t.prefixDone = (t.entries.takeWhile Entry.done).length
  inFlight : t.inFlight = t.entries.countP (fun e => !e.done)
  registered : ∀ e ∈ t.entries, ∃ last, t.lastRegistered = some last ∧ e.offset ≤ last
  uncommitted : ∀ c, t.committed = some c → ∀ e ∈ t.entries, c ≤ e.offset
  committed : ∀ c, t.committed = some c → ∃ last, t.lastRegistered = some last ∧ c ≤ last + 1

theorem Valid.empty : Valid {} := by
  constructor <;> simp

end OffsetTracker

end LiquidPetProject.Messaging
