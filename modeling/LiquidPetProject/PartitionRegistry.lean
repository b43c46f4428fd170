import Std.Data.TreeMap.Lemmas
import LiquidPetProject.OffsetTrackerOperations

namespace LiquidPetProject.Messaging

structure PartitionKey where
  topic : String
  partition : ℤ
  deriving DecidableEq, Repr

def PartitionKey.compare : PartitionKey → PartitionKey → Ordering :=
  compareLex (compareOn PartitionKey.topic) (compareOn PartitionKey.partition)

instance : Std.TransCmp PartitionKey.compare := inferInstanceAs (Std.TransCmp (compareLex _ _))

instance : Std.LawfulEqCmp PartitionKey.compare where
  eq_of_compare {a b} h := by
    obtain ⟨t, p⟩ := a
    obtain ⟨t', p'⟩ := b
    simp only [PartitionKey.compare, compareLex, compareOn, Ordering.then_eq_eq,
      Std.LawfulEqOrd.compare_eq_iff_eq] at h
    simp [h]

structure RecordTicket where
  partition : PartitionKey
  offset : ℤ
  generation : ℕ
  deriving DecidableEq, Repr

structure CommitPosition where
  partition : PartitionKey
  offset : ℤ
  generation : ℕ
  deriving DecidableEq, Repr

inductive CompletionResult
  | applied | stale
  deriving DecidableEq, Repr

structure PartitionState where
  generation : ℕ
  tracker : OffsetTracker
  deriving DecidableEq, Repr

/-- `_lastGeneration` is a 64-bit counter in the source; no run makes `2 ^ 64` assignments. -/
structure PartitionRegistry where
  partitions : Std.TreeMap PartitionKey PartitionState PartitionKey.compare := ∅
  lastGeneration : ℕ := 0

namespace PartitionRegistry

def find (reg : PartitionRegistry) (p : PartitionKey) : Option PartitionState := reg.partitions[p]?

def insertOrAssign (reg : PartitionRegistry) (p : PartitionKey) (st : PartitionState) :
    PartitionRegistry :=
  { reg with partitions := reg.partitions.insert p st }

def erase (reg : PartitionRegistry) (p : PartitionKey) : PartitionRegistry :=
  { reg with partitions := reg.partitions.erase p }

def assignOne (reg : PartitionRegistry) (p : PartitionKey) : PartitionRegistry :=
  { reg.insertOrAssign p ⟨reg.lastGeneration + 1, {}⟩ with lastGeneration := reg.lastGeneration + 1 }

def assign (reg : PartitionRegistry) (partitions : List PartitionKey) : PartitionRegistry :=
  partitions.foldl assignOne reg

def candidate (p : PartitionKey) (st : PartitionState) : Option CommitPosition :=
  st.tracker.commitCandidate.map (fun offset => ⟨p, offset, st.generation⟩)

def revoke (reg : PartitionRegistry) : List PartitionKey → List CommitPosition × PartitionRegistry
  | [] => ([], reg)
  | p :: ps =>
    match reg.find p with
    | none => reg.revoke ps
    | some st =>
      let (positions, reg') := (reg.erase p).revoke ps
      ((candidate p st).toList ++ positions, reg')

def registerRecord (reg : PartitionRegistry) (p : PartitionKey) (offset : ℤ) :
    Except ErrorCode RecordTicket × PartitionRegistry :=
  match reg.find p with
  | none => (.error (.partitionRegistry .partitionNotAssigned), reg)
  | some st =>
    let (r, tracker) := st.tracker.registerRecord offset
    (r.map (fun _ => ⟨p, offset, st.generation⟩), reg.insertOrAssign p { st with tracker := tracker })

def complete (reg : PartitionRegistry) (ticket : RecordTicket) :
    Except ErrorCode CompletionResult × PartitionRegistry :=
  match reg.find ticket.partition with
  | none => (.ok .stale, reg)
  | some st =>
    if st.generation ≠ ticket.generation then (.ok .stale, reg)
    else
      let (r, tracker) := st.tracker.complete ticket.offset
      (r.map (fun _ => .applied), reg.insertOrAssign ticket.partition { st with tracker := tracker })

def commitCandidates (reg : PartitionRegistry) : List CommitPosition :=
  reg.partitions.toList.filterMap (fun (p, st) => candidate p st)

def confirmCommit (reg : PartitionRegistry) (position : CommitPosition) :
    Except ErrorCode Unit × PartitionRegistry :=
  match reg.find position.partition with
  | none => (.ok (), reg)
  | some st =>
    if st.generation ≠ position.generation then (.ok (), reg)
    else
      let (r, tracker) := st.tracker.confirmCommit position.offset
      (r, reg.insertOrAssign position.partition { st with tracker := tracker })

def isCurrent (reg : PartitionRegistry) (ticket : RecordTicket) : Bool :=
  (reg.find ticket.partition).any (fun st => st.generation = ticket.generation)

@[simp] theorem find_empty (p : PartitionKey) : find {} p = none := by
  simp [find]

@[simp] theorem find_insertOrAssign (reg : PartitionRegistry) (p q : PartitionKey)
    (st : PartitionState) :
    (reg.insertOrAssign p st).find q = if p = q then some st else reg.find q := by
  simp [find, insertOrAssign, Std.TreeMap.getElem?_insert]

@[simp] theorem find_erase (reg : PartitionRegistry) (p q : PartitionKey) :
    (reg.erase p).find q = if p = q then none else reg.find q := by
  simp [find, erase, Std.TreeMap.getElem?_erase]

@[simp] theorem find_assignOne (reg : PartitionRegistry) (p q : PartitionKey) :
    (reg.assignOne p).find q = if p = q then some ⟨reg.lastGeneration + 1, {}⟩ else reg.find q :=
  find_insertOrAssign ..

@[simp] theorem assignOne_lastGeneration (reg : PartitionRegistry) (p : PartitionKey) :
    (reg.assignOne p).lastGeneration = reg.lastGeneration + 1 := rfl

@[simp] theorem insertOrAssign_lastGeneration (reg : PartitionRegistry) (p : PartitionKey)
    (st : PartitionState) : (reg.insertOrAssign p st).lastGeneration = reg.lastGeneration := rfl

@[simp] theorem erase_lastGeneration (reg : PartitionRegistry) (p : PartitionKey) :
    (reg.erase p).lastGeneration = reg.lastGeneration := rfl

theorem mem_commitCandidates {reg : PartitionRegistry} {position : CommitPosition} :
    position ∈ reg.commitCandidates ↔
      ∃ st, reg.find position.partition = some st ∧ candidate position.partition st = some position := by
  simp only [commitCandidates, List.mem_filterMap, Prod.exists,
    Std.TreeMap.mem_toList_iff_getElem?_eq_some]
  constructor
  · rintro ⟨p, st, hf, hc⟩
    have hp : position.partition = p := by
      obtain ⟨o, -, rfl⟩ := Option.map_eq_some_iff.mp hc
      rfl
    subst hp
    exact ⟨st, hf, hc⟩
  · rintro ⟨st, hf, hc⟩
    exact ⟨_, st, hf, hc⟩

theorem toList_filter_key (reg : PartitionRegistry) (p : PartitionKey) :
    reg.partitions.toList.filter (fun x => x.1 = p) = ((reg.find p).map (fun st => (p, st))).toList := by
  have hd := reg.partitions.distinct_keys_toList
  have hm : ∀ q st, (q, st) ∈ reg.partitions.toList ↔ reg.find q = some st :=
    fun _ _ => Std.TreeMap.mem_toList_iff_getElem?_eq_some
  generalize reg.partitions.toList = xs at hd hm
  have hone : (xs.filter (fun x => x.1 = p)).length ≤ 1 := by
    by_contra hlt
    have hs : (xs.filter (fun x => x.1 = p)).Pairwise (fun a b => ¬ PartitionKey.compare a.1 b.1 = .eq) :=
      hd.sublist List.filter_sublist
    have hi := List.pairwise_iff_getElem.mp hs 0 1 (by omega) (by omega) (by omega)
    have h0 := List.of_mem_filter (List.getElem_mem (show 0 < (xs.filter (fun x => x.1 = p)).length by omega))
    have h1 := List.of_mem_filter (List.getElem_mem (show 1 < (xs.filter (fun x => x.1 = p)).length by omega))
    simp only [decide_eq_true_eq] at h0 h1
    exact hi (by rw [h0, h1]; exact Std.ReflCmp.compare_self)
  cases hf : reg.find p with
  | none =>
    simp only [Option.map_none, Option.toList_none, List.filter_eq_nil_iff, decide_eq_true_eq]
    rintro ⟨q, st⟩ hx rfl
    rw [hm, hf] at hx
    cases hx
  | some st =>
    have hmem : (p, st) ∈ xs.filter (fun x => x.1 = p) := by simpa [hm] using hf
    obtain ⟨x, hx⟩ := List.length_eq_one_iff.mp (Nat.le_antisymm hone (List.length_pos_of_mem hmem))
    rw [hx] at hmem ⊢
    simp [List.mem_singleton.mp hmem]

theorem commitCandidates_filter (reg : PartitionRegistry) (p : PartitionKey) :
    reg.commitCandidates.filter (fun c => c.partition = p) = ((reg.find p).bind (candidate p)).toList := by
  have hcomm : ∀ xs : List (PartitionKey × PartitionState),
      (xs.filterMap (fun x => candidate x.1 x.2)).filter (fun c => c.partition = p) =
        (xs.filter (fun x => x.1 = p)).filterMap (fun x => candidate x.1 x.2) := by
    intro xs
    induction xs with
    | nil => rfl
    | cons x xs ih =>
      obtain ⟨q, st⟩ := x
      cases hc : candidate q st with
      | none =>
        have hdrop (ys : List (PartitionKey × PartitionState)) :
            ((q, st) :: ys).filterMap (fun x => candidate x.1 x.2) =
              ys.filterMap (fun x => candidate x.1 x.2) := by simp [hc]
        rw [hdrop, ih, List.filter_cons]
        split_ifs
        · rw [hdrop]
        · rfl
      | some c =>
        obtain ⟨o, -, rfl⟩ := Option.map_eq_some_iff.mp hc
        by_cases hq : q = p
        · subst hq
          simp [hc, ih]
        · simp [hc, hq, ih]
  refine (hcomm _).trans ?_
  rw [toList_filter_key]
  cases reg.find p with
  | none => rfl
  | some st =>
    simp only [Option.map_some, Option.toList_some, Option.bind_some]
    cases hc : candidate p st <;> simp [hc]

end PartitionRegistry

end LiquidPetProject.Messaging
