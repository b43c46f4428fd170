import LiquidPetProject.RegistryCalls

namespace LiquidPetProject.Messaging

open Transitions

def RecordTicket.rename (ρ : ℕ → ℕ) (t : RecordTicket) : RecordTicket :=
  { t with generation := ρ t.generation }

def CommitPosition.rename (ρ : ℕ → ℕ) (c : CommitPosition) : CommitPosition :=
  { c with generation := ρ c.generation }

namespace PartitionRegistry

def restrict (p : PartitionKey) (ρ : ℕ → ℕ) (reg : PartitionRegistry) : RegistryCall → Option RegistryCall
  | .assign ps => if p ∈ ps then some (.assign (ps.filter (fun q => q = p))) else none
  | .revoke ps => if p ∈ ps then some (.revoke (ps.filter (fun q => q = p))) else none
  | .registerRecord q o => if q = p then some (.registerRecord q o) else none
  | .complete t => if t.partition = p ∧ reg.isCurrent t then some (.complete (t.rename ρ)) else none
  | .commitCandidates => some .commitCandidates
  | .confirmCommit c =>
    if c.partition = p ∧ reg.isCurrent c.ticket then some (.confirmCommit (c.rename ρ)) else none
  | .isCurrent t => if t.partition = p then some (.isCurrent (t.rename ρ)) else none

def observe (p : PartitionKey) (ρ : ℕ → ℕ) : RegistryResult → RegistryResult
  | .positions cs => .positions ((cs.filter (fun c => c.partition = p)).map (CommitPosition.rename ρ))
  | .ticket r => .ticket (r.map (RecordTicket.rename ρ))
  | .unit => .unit
  | .completion r => .completion r
  | .confirmed r => .confirmed r
  | .current b => .current b

def isolated (p : PartitionKey) (ρ : ℕ → ℕ) :
    PartitionRegistry → List RegistryCall → List RegistryCall × List RegistryResult
  | _, [] => ([], [])
  | reg, c :: cs =>
    let rest := isolated p ρ (reg.call c).2 cs
    match restrict p ρ reg c with
    | none => rest
    | some c' => (c' :: rest.1, observe p ρ (reg.call c).1 :: rest.2)

def assignedGenerations (p : PartitionKey) : ℕ → List PartitionKey → List ℕ
  | _, [] => []
  | n, q :: qs =>
    if q = p then (n + 1) :: assignedGenerations p (n + 1) qs else assignedGenerations p (n + 1) qs

def callGenerations (p : PartitionKey) (n : ℕ) : RegistryCall → List ℕ
  | .assign ps => assignedGenerations p n ps
  | _ => []

def ownerships (p : PartitionKey) : ℕ → List RegistryCall → List ℕ
  | _, [] => []
  | n, c :: cs => callGenerations p n c ++ ownerships p (n + c.assignments) cs

def renumber (gs : List ℕ) (g : ℕ) : ℕ := if g ∈ gs then gs.idxOf g + 1 else 0

theorem renumber_injective {gs : List ℕ} {g h : ℕ} (hg : g ∈ gs) (he : renumber gs g = renumber gs h) :
    g = h := by
  unfold renumber at he
  rw [if_pos hg] at he
  split_ifs at he with hh
  exact (List.idxOf_inj hg).mp (by omega)

/-- The whole registry and the isolated one agree on the partition; `as` are its past generations
and `gs` all of them. -/
structure Isolates (p : PartitionKey) (gs as : List ℕ) (reg iso : PartitionRegistry) : Prop where
  state : iso.find p = (reg.find p).map (fun st => { st with generation := renumber gs st.generation })
  known : ∀ st, reg.find p = some st → st.generation ∈ gs
  others : ∀ q, q ≠ p → iso.find q = none
  past : ∀ g ∈ as, g ≤ reg.lastGeneration
  count : iso.lastGeneration = as.length

theorem Isolates.insert {p : PartitionKey} {gs as : List ℕ} {reg iso : PartitionRegistry}
    (h : Isolates p gs as reg iso) {st : PartitionState} (hf : reg.find p = some st)
    (tracker : OffsetTracker) :
    Isolates p gs as (reg.insertOrAssign p { st with tracker := tracker })
      (iso.insertOrAssign p ⟨renumber gs st.generation, tracker⟩) := by
  refine ⟨by simp, ?_, ?_, h.past, h.count⟩
  · rintro st' hst'
    rw [find_insertOrAssign, if_pos rfl] at hst'
    obtain rfl := Option.some.inj hst'
    exact h.known st hf
  · intro q hq
    rw [find_insertOrAssign, if_neg (Ne.symm hq)]
    exact h.others q hq

theorem Isolates.frame {p : PartitionKey} {gs as : List ℕ} {reg reg' iso : PartitionRegistry}
    (h : Isolates p gs as reg iso) (hf : reg'.find p = reg.find p)
    (hg : reg.lastGeneration ≤ reg'.lastGeneration) : Isolates p gs as reg' iso :=
  ⟨by rw [hf]; exact h.state, by rw [hf]; exact h.known, h.others,
    fun g hga => (h.past g hga).trans hg, h.count⟩

theorem Isolates.current {p : PartitionKey} {gs as : List ℕ} {reg iso : PartitionRegistry}
    (h : Isolates p gs as reg iso) {t : RecordTicket} (ht : t.partition = p) :
    iso.isCurrent (t.rename (renumber gs)) = reg.isCurrent t := by
  simp only [isCurrent, RecordTicket.rename, ht, h.state]
  cases hf : reg.find p with
  | none => rfl
  | some st =>
    simp only [Option.map_some, Option.any_some, decide_eq_decide]
    exact ⟨renumber_injective (h.known st hf), congrArg _⟩

theorem Isolates.candidate {p : PartitionKey} {gs as : List ℕ} {reg iso : PartitionRegistry}
    (h : Isolates p gs as reg iso) :
    ((iso.find p).bind (candidate p)).toList =
      ((reg.find p).bind (candidate p)).toList.map (CommitPosition.rename (renumber gs)) := by
  rw [h.state]
  cases reg.find p with
  | none => rfl
  | some st =>
    simp only [Option.map_some, Option.bind_some, PartitionRegistry.candidate]
    cases st.tracker.commitCandidate <;> rfl

theorem Isolates.own {p : PartitionKey} {gs as : List ℕ} {reg iso : PartitionRegistry}
    (h : Isolates p gs as reg iso) {c : CommitPosition} (hc : c ∈ iso.commitCandidates) :
    c.partition = p := by
  obtain ⟨st, hf, -⟩ := mem_commitCandidates.mp hc
  by_contra hp
  rw [h.others _ hp] at hf
  cases hf

theorem Isolates.assign {p : PartitionKey} {gs as rest : List ℕ} {reg iso : PartitionRegistry}
    {ps : List PartitionKey} (h : Isolates p gs as reg iso)
    (hgs : gs = as ++ (assignedGenerations p reg.lastGeneration ps ++ rest)) :
    Isolates p gs (as ++ assignedGenerations p reg.lastGeneration ps) (reg.assign ps)
      (iso.assign (ps.filter (fun q => q = p))) := by
  induction ps generalizing reg iso as with
  | nil => simpa [PartitionRegistry.assign, assignedGenerations] using h
  | cons q qs ih =>
    by_cases hq : q = p
    · subst hq
      simp only [assignedGenerations, if_true] at hgs ⊢
      have hfresh : reg.lastGeneration + 1 ∉ as := fun hm => by have := h.past _ hm; omega
      have hren : renumber gs (reg.lastGeneration + 1) = as.length + 1 := by
        have hm : reg.lastGeneration + 1 ∈ gs := by simp [hgs]
        unfold renumber
        rw [if_pos hm, hgs, List.idxOf_append_of_notMem hfresh]
        simp
      have hstep : Isolates q gs (as ++ [reg.lastGeneration + 1]) (reg.assignOne q) (iso.assignOne q) := by
        refine ⟨?_, ?_, ?_, ?_, ?_⟩
        · simp [hren, h.count]
        · intro st hst
          rw [find_assignOne, if_pos rfl] at hst
          obtain rfl := Option.some.inj hst
          simp [hgs]
        · intro r hr
          rw [find_assignOne, if_neg (Ne.symm hr)]
          exact h.others r hr
        · intro g hg
          rcases List.mem_append.mp hg with hg | hg
          · have := h.past g hg
            simp only [assignOne_lastGeneration]
            omega
          · simp [List.mem_singleton.mp hg]
        · simp [h.count]
      have hnext := ih hstep (by simpa using hgs)
      simpa [PartitionRegistry.assign] using hnext
    · simp only [assignedGenerations, hq, if_false] at hgs ⊢
      have hstep : Isolates p gs as (reg.assignOne q) iso := h.frame (by simp [hq]) (by simp)
      have hnext := ih hstep hgs
      simpa [PartitionRegistry.assign, hq] using hnext

theorem Isolates.revoke {p : PartitionKey} {gs as : List ℕ} {reg iso : PartitionRegistry}
    {ps : List PartitionKey} (h : Isolates p gs as reg iso) (hp : p ∈ ps) :
    Isolates p gs as (reg.revoke ps).2 (iso.revoke (ps.filter (fun q => q = p))).2 := by
  refine ⟨?_, ?_, ?_, ?_, ?_⟩
  · simp [revoke_find, hp]
  · intro st hst
    simp [revoke_find, hp] at hst
  · intro q hq
    simp [revoke_find, hq, h.others q hq]
  · simpa using h.past
  · simpa using h.count

theorem assignedGenerations_none {p : PartitionKey} {n : ℕ} {ps : List PartitionKey} (h : p ∉ ps) :
    assignedGenerations p n ps = [] := by
  induction ps generalizing n with
  | nil => rfl
  | cons q qs ih =>
    simp only [List.mem_cons, not_or] at h
    simp [assignedGenerations, Ne.symm h.1, ih h.2]

theorem complete_find_other (reg : PartitionRegistry) {t : RecordTicket} {q : PartitionKey}
    (h : t.partition ≠ q) : (reg.complete t).2.find q = reg.find q := by
  cases hc : reg.isCurrent t with
  | false => rw [complete_of_stale hc]
  | true =>
    obtain ⟨st, hf, hg⟩ := isCurrent_iff.mp hc
    simp [complete_of_current hf hg, h]

theorem confirmCommit_find_other (reg : PartitionRegistry) {c : CommitPosition} {q : PartitionKey}
    (h : c.partition ≠ q) : (reg.confirmCommit c).2.find q = reg.find q := by
  cases hc : reg.isCurrent c.ticket with
  | false => rw [confirmCommit_of_stale hc]
  | true =>
    obtain ⟨st, hf, hg⟩ := isCurrent_iff.mp hc
    simp [confirmCommit_of_current hf hg, h]

theorem registerRecord_find_other (reg : PartitionRegistry) {p q : PartitionKey} {o : ℤ}
    (h : p ≠ q) : (reg.registerRecord p o).2.find q = reg.find q := by
  cases hf : reg.find p with
  | none => rw [registerRecord_of_unassigned hf]
  | some st => simp [registerRecord_of_assigned hf, h]

theorem Isolates.deleted {p : PartitionKey} {gs as : List ℕ} {reg iso : PartitionRegistry}
    (h : Isolates p gs as reg iso) {c : RegistryCall} (hc : restrict p (renumber gs) reg c = none) :
    Isolates p gs as (reg.call c).2 iso := by
  apply h.frame _ (call_lastGeneration_le reg c)
  cases c with
  | assign ps =>
    simp only [restrict] at hc
    split_ifs at hc with hp
    exact assign_find_other hp
  | revoke ps =>
    simp only [restrict] at hc
    split_ifs at hc with hp
    simp [call, revoke_find, hp]
  | registerRecord q o =>
    simp only [restrict] at hc
    split_ifs at hc with hp
    exact registerRecord_find_other reg hp
  | complete t =>
    simp only [restrict] at hc
    split_ifs at hc with hp
    by_cases ht : t.partition = p
    · have hs : reg.isCurrent t = false := by simpa [ht] using hp
      simp [call, complete_of_stale hs]
    · exact complete_find_other reg ht
  | confirmCommit c =>
    simp only [restrict] at hc
    split_ifs at hc with hp
    by_cases ht : c.partition = p
    · have hs : reg.isCurrent c.ticket = false := by simpa [ht] using hp
      simp [call, confirmCommit_of_stale hs]
    · exact confirmCommit_find_other reg ht
  | commitCandidates => cases hc
  | isCurrent t => rfl

theorem Isolates.find_iso {p : PartitionKey} {gs as : List ℕ} {reg iso : PartitionRegistry}
    (h : Isolates p gs as reg iso) {st : PartitionState} (hf : reg.find p = some st) :
    iso.find p = some ⟨renumber gs st.generation, st.tracker⟩ := by
  rw [h.state, hf]
  rfl

theorem Isolates.kept {p : PartitionKey} {gs as rest : List ℕ} {reg iso : PartitionRegistry}
    (h : Isolates p gs as reg iso) {c c' : RegistryCall}
    (hc : restrict p (renumber gs) reg c = some c')
    (hgs : gs = as ++ (callGenerations p reg.lastGeneration c ++ rest)) :
    (iso.call c').1 = observe p (renumber gs) (reg.call c).1 ∧
      Isolates p gs (as ++ callGenerations p reg.lastGeneration c) (reg.call c).2 (iso.call c').2 := by
  cases c with
  | assign ps =>
    simp only [restrict] at hc
    split_ifs at hc with hp
    obtain rfl := Option.some.inj hc
    exact ⟨rfl, h.assign hgs⟩
  | revoke ps =>
    simp only [restrict] at hc
    split_ifs at hc with hp
    obtain rfl := Option.some.inj hc
    refine ⟨?_, by simpa [call, callGenerations] using h.revoke hp⟩
    have hown : ∀ c ∈ (iso.revoke (ps.filter (fun q => q = p))).1, c.partition = p := by
      intro c hm
      by_contra hne
      have hfilter := revoke_filter iso (ps.filter (fun q => q = p)) c.partition
      rw [if_neg (by simp [hne])] at hfilter
      exact List.not_mem_nil (hfilter ▸ List.mem_filter.mpr ⟨hm, by simp⟩)
    have hiso := revoke_filter iso (ps.filter (fun q => q = p)) p
    rw [List.filter_eq_self.mpr (fun c hm => by simpa using hown c hm)] at hiso
    simp only [call, observe, RegistryResult.positions.injEq, hiso, revoke_filter, hp, if_true]
    rw [if_pos (by simp [hp])]
    exact h.candidate
  | registerRecord q o =>
    simp only [restrict] at hc
    split_ifs at hc with hp
    obtain rfl := Option.some.inj hc
    subst hp
    cases hf : reg.find q with
    | none =>
      have hi : iso.find q = none := by rw [h.state, hf]; rfl
      simp only [call, registerRecord_of_unassigned hf, registerRecord_of_unassigned hi, observe,
        callGenerations, List.append_nil]
      exact ⟨rfl, h⟩
    | some st =>
      simp only [call, registerRecord_of_assigned hf, registerRecord_of_assigned (h.find_iso hf), observe,
        callGenerations, List.append_nil]
      refine ⟨?_, h.insert hf _⟩
      cases (st.tracker.registerRecord o).1 <;> rfl
  | complete t =>
    simp only [restrict] at hc
    split_ifs at hc with hp
    obtain rfl := Option.some.inj hc
    obtain ⟨rfl, hcur⟩ := hp
    obtain ⟨st, hf, hg⟩ := isCurrent_iff.mp hcur
    have hi := complete_of_current (t := t.rename (renumber gs)) (h.find_iso hf) (congrArg (renumber gs) hg)
    simp only [call, complete_of_current hf hg, hi, observe, callGenerations, List.append_nil]
    exact ⟨rfl, h.insert hf _⟩
  | commitCandidates =>
    obtain rfl := Option.some.inj hc
    refine ⟨?_, by simpa [call, callGenerations] using h⟩
    have hiso := commitCandidates_filter iso p
    rw [List.filter_eq_self.mpr (fun c hm => by simpa using h.own hm)] at hiso
    simp only [call, observe, RegistryResult.positions.injEq, hiso, commitCandidates_filter]
    exact h.candidate
  | confirmCommit c =>
    simp only [restrict] at hc
    split_ifs at hc with hp
    obtain rfl := Option.some.inj hc
    obtain ⟨rfl, hcur⟩ := hp
    obtain ⟨st, hf, hg⟩ := isCurrent_iff.mp hcur
    have hi := confirmCommit_of_current (c := c.rename (renumber gs)) (h.find_iso hf) (congrArg (renumber gs) hg)
    simp only [call, confirmCommit_of_current hf hg, hi, observe, callGenerations, List.append_nil]
    exact ⟨rfl, h.insert hf _⟩
  | isCurrent t =>
    simp only [restrict] at hc
    split_ifs at hc with hp
    obtain rfl := Option.some.inj hc
    exact ⟨congrArg _ (h.current hp), by simpa [call, callGenerations] using h⟩

theorem isolated_trace {p : PartitionKey} {gs as : List ℕ} {reg iso : PartitionRegistry}
    (h : Isolates p gs as reg iso) (calls : List RegistryCall)
    (hgs : gs = as ++ ownerships p reg.lastGeneration calls) :
    (trace call iso (isolated p (renumber gs) reg calls).1).1 =
      (isolated p (renumber gs) reg calls).2 := by
  induction calls generalizing reg iso as with
  | nil => rfl
  | cons c calls ih =>
    rw [ownerships] at hgs
    have hnext : gs = (as ++ callGenerations p reg.lastGeneration c) ++
        ownerships p (reg.call c).2.lastGeneration calls := by
      rw [call_lastGeneration, List.append_assoc]
      exact hgs
    unfold isolated
    cases hc : restrict p (renumber gs) reg c with
    | none =>
      apply ih (h.deleted hc)
      cases c with
      | assign ps =>
        simp only [restrict] at hc
        split_ifs at hc with hp
        simpa [callGenerations, assignedGenerations_none hp] using hnext
      | _ => simpa [callGenerations] using hnext
    | some c' =>
      obtain ⟨hr, hs⟩ := h.kept hc hgs
      simp only [trace_cons, hr, ih hs hnext]

theorem Isolates.empty (p : PartitionKey) (gs : List ℕ) : Isolates p gs [] {} {} := by
  constructor <;> simp

/-- The calls about one partition are answered as if the rest of the run, and every completion or
confirmation of an earlier ownership, had never been there; and whatever is outdated once changes
nothing for ever. -/
theorem registry_isolation (p : PartitionKey) (calls : List RegistryCall) :
    let ρ := renumber (ownerships p 0 calls)
    (∀ g ∈ ownerships p 0 calls, ∀ g', ρ g = ρ g' → g = g') ∧
      (trace call {} (isolated p ρ {} calls).1).1 = (isolated p ρ {} calls).2 ∧
      (∀ t later, (trace call {} calls).2.Outdated t →
        (trace call {} (calls ++ later)).2.complete t = (.ok .stale, (trace call {} (calls ++ later)).2)) ∧
      ∀ c later, (trace call {} calls).2.Outdated c.ticket →
        (trace call {} (calls ++ later)).2.confirmCommit c =
          (.ok (), (trace call {} (calls ++ later)).2) := by
  refine ⟨fun g hg g' he => renumber_injective hg he,
    isolated_trace (Isolates.empty p _) calls rfl, ?_, ?_⟩
  · intro t later h
    rw [trace_append]
    exact complete_of_stale (h.trace later).2
  · intro c later h
    rw [trace_append]
    exact confirmCommit_of_stale (h.trace later).2

end PartitionRegistry

end LiquidPetProject.Messaging
