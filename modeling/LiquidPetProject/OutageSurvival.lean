import LiquidPetProject.RepositoryConnections

namespace LiquidPetProject.Repository

open Transitions

def CallRecord.WhileReachable (r : CallRecord) : Prop :=
  r.madeAt.reachable = true ∧ r.endedAt.outages = r.madeAt.outages

/-- An outage has come since the connection of the call was opened: when its repository was constructed, or else
in an earlier call of the thread, which put it into the map. -/
def Struck (repositories : List RepositoryObject) (before : List CallRecord) (r : CallRecord) : Prop :=
  match repositories[r.repository]?.bind RepositoryObject.held with
  | some c => r.madeAt.hasBroken c
  | none => ∃ a ∈ before, a.thread = r.thread ∧ a.repository = r.repository ∧
      ∃ c, a.cached = some c ∧ r.madeAt.hasBroken c

structure Lawful (repositories : List RepositoryObject) (before : List CallRecord) (r : CallRecord) : Prop where
  constructed : r.repository < repositories.length
  later : ∀ a ∈ before, a.thread = r.thread → a.madeAt.outages ≤ r.madeAt.outages
  fresh : ∀ c, r.cached = some c → r.madeAt.outages ≤ c.openedAfter
  failure : r.WhileReachable → (r.error = some connectionFailure ↔ Struck repositories before r)

theorem getElem?_constructed {repositories : List RepositoryObject} {i : ℕ} (h : i < repositories.length)
    (object : RepositoryObject) : (repositories ++ [object])[i]? = repositories[i]? :=
  List.getElem?_append_left h

theorem struck_construct {repositories : List RepositoryObject} {before : List CallRecord} {r : CallRecord}
    (h : r.repository < repositories.length) (object : RepositoryObject) :
    Struck (repositories ++ [object]) before r ↔ Struck repositories before r := by
  unfold Struck
  rw [getElem?_constructed h]

theorem Lawful.construct {repositories : List RepositoryObject} {before : List CallRecord} {r : CallRecord}
    (h : Lawful repositories before r) (object : RepositoryObject) : Lawful (repositories ++ [object]) before r where
  constructed := by
    have := h.constructed
    rw [List.length_append]
    omega
  later := h.later
  fresh := h.fresh
  failure hr := (h.failure hr).trans (struck_construct h.constructed object).symm

namespace DatabaseClients

def heldBy (s : DatabaseClients) (repository : ℕ) : Option Connection :=
  s.repositories[repository]?.bind RepositoryObject.held

/-- A call in progress uses the connection of its repository, or else the one its thread keeps for it; before that
its thread keeps none. -/
structure InProgress (s : DatabaseClients) (thread : ℕ) (call : Call) : Prop where
  constructed : call.repository < s.repositories.length
  past : call.madeAt.outages ≤ s.database.outages
  steady : call.madeAt.reachable = true → s.database.outages = call.madeAt.outages → s.database.reachable = true
  later : ∀ a ∈ s.history, a.thread = thread → a.madeAt.outages ≤ call.madeAt.outages
  executing : ∀ c, call.pc = .executing c → s.heldBy call.repository = some c ∨
    s.heldBy call.repository = none ∧ s.connections thread call.repository = some c
  waiting : (∀ c, call.pc ≠ .executing c) → s.heldBy call.repository = none ∧
    s.connections thread call.repository = none
  opening : ∀ c, call.pc = .opening c → call.madeAt.outages ≤ c.openedAfter
  cached : ∀ c, call.cached = some c → s.heldBy call.repository = none ∧
    s.connections thread call.repository = some c ∧ call.madeAt.outages ≤ c.openedAfter

def CachedBy (s : DatabaseClients) (thread repository : ℕ) (c : Connection) : Prop :=
  (∃ a ∈ s.history, a.thread = thread ∧ a.repository = repository ∧ a.cached = some c) ∨
    ∃ call, s.calls thread = some call ∧ call.repository = repository ∧ call.cached = some c

structure Consistent (s : DatabaseClients) : Prop where
  lawful : Throughout (Lawful s.repositories) s.history
  past : ∀ a ∈ s.history, a.madeAt.outages ≤ s.database.outages
  calls : ∀ thread call, s.calls thread = some call → s.InProgress thread call
  opened : ∀ thread repository c, s.connections thread repository = some c → s.CachedBy thread repository c
  kept : ∀ a ∈ s.history, ∀ c, a.cached = some c → s.connections a.thread a.repository = some c

variable {s s' : DatabaseClients}

theorem forall_mem_addRecord {P : CallRecord → Prop} {record : CallRecord} :
    (∀ a ∈ (s.addRecord record).history, P a) ↔ (∀ a ∈ s.history, P a) ∧ P record := by
  simp only [addRecord, List.forall_mem_append, List.forall_mem_singleton]

theorem consistent_start : start.Consistent where
  lawful := Throughout.nil _
  past a ha := absurd ha List.not_mem_nil
  calls thread call h := by cases h
  opened thread repository c h := by cases h
  kept a ha := absurd ha List.not_mem_nil

theorem heldBy_addRepository {repository : ℕ} (h : repository < s.repositories.length) (object : RepositoryObject) :
    (s.addRepository object).heldBy repository = s.heldBy repository := by
  unfold heldBy addRepository
  rw [getElem?_constructed h]

theorem consistent_addRepository (h : s.Consistent) (object : RepositoryObject) :
    (s.addRepository object).Consistent where
  lawful before a after hsplit := (h.lawful before a after hsplit).construct object
  past := h.past
  calls thread call hcall := by
    have hc := h.calls thread call hcall
    refine ⟨?_, hc.past, hc.steady, hc.later, ?_, ?_, hc.opening, ?_⟩
    · have := hc.constructed
      simp only [addRepository, List.length_append]
      omega
    all_goals rw [heldBy_addRepository hc.constructed]
    · exact hc.executing
    · exact hc.waiting
    · exact hc.cached
  opened := h.opened
  kept := h.kept

theorem consistent_setDatabase (h : s.Consistent) {db : Database} (hdb : s.database.Follows db) :
    (s.setDatabase db).Consistent := by
  have hle : s.database.outages ≤ db.outages := by
    rcases hdb with hlt | ⟨heq, -⟩ <;> omega
  refine ⟨h.lawful, fun a ha => (h.past a ha).trans hle, ?_, h.opened, h.kept⟩
  intro thread call hcall
  have hc := h.calls thread call hcall
  refine ⟨hc.constructed, hc.past.trans hle, ?_, hc.later, hc.executing, hc.waiting, hc.opening, hc.cached⟩
  intro _ hsame
  rcases hdb with hlt | ⟨-, hr⟩
  · have hpast := hc.past
    exact absurd (show db.outages = call.madeAt.outages from hsame) (by omega)
  · exact hr

theorem consistent_setCall (h : s.Consistent) {thread : ℕ} {call : Call}
    (hcached : ∀ old, s.calls thread = some old → call.repository = old.repository ∧ call.cached = old.cached)
    (hcall : s.InProgress thread call) : (s.setCall thread (some call)).Consistent where
  lawful := h.lawful
  past := h.past
  calls t other hother := by
    simp only [setCall, Function.update_apply] at hother
    split_ifs at hother with hthread
    · obtain rfl := Option.some.inj hother
      rw [hthread]
      exact ⟨hcall.constructed, hcall.past, hcall.steady, hcall.later, hcall.executing, hcall.waiting, hcall.opening,
        hcall.cached⟩
    · have hc := h.calls t other hother
      exact ⟨hc.constructed, hc.past, hc.steady, hc.later, hc.executing, hc.waiting, hc.opening, hc.cached⟩
  opened t r c hc := by
    rcases h.opened t r c hc with hrecord | ⟨other, hother, hrepository, hput⟩
    · exact Or.inl hrecord
    · by_cases hthread : t = thread
      · subst hthread
        obtain ⟨hsame, hkeeps⟩ := hcached other hother
        refine Or.inr ⟨call, ?_, hsame.trans hrepository, hkeeps.trans hput⟩
        simp only [setCall, Function.update_self]
      · refine Or.inr ⟨other, ?_, hrepository, hput⟩
        simp only [setCall, Function.update_of_ne hthread, hother]
  kept := h.kept

theorem connections_emplace (s : DatabaseClients) (thread repository t r : ℕ) (c : Connection) :
    (s.emplace thread repository c).connections t r =
      if t = thread ∧ r = repository then some c else s.connections t r := by
  simp only [emplace, Function.update_apply]
  by_cases ht : t = thread
  · subst ht
    by_cases hr : r = repository <;> simp [hr]
  · simp [ht]

theorem consistent_beginCall (h : s.Consistent) {thread repository : ℕ} {object : RepositoryObject}
    (operation : Operation) (hidle : s.calls thread = none) (hobject : s.repositories[repository]? = some object) :
    (s.beginCall thread repository operation object).Consistent := by
  obtain ⟨hconstructed, -⟩ := List.getElem?_eq_some_iff.mp hobject
  have hheld : s.heldBy repository = object.held := by
    unfold heldBy
    rw [hobject, Option.bind_some]
  apply consistent_setCall h (fun old hold => absurd (hidle.symm.trans hold) (by simp))
  refine ⟨hconstructed, Nat.le_refl _, fun hr _ => hr, fun a ha _ => h.past a ha, ?_, ?_, ?_, fun c hc => by cases hc⟩
  all_goals
    rcases acquire_cases s thread repository object with ⟨found, hpc, hfound⟩ | ⟨hpc, hnone, hconnection⟩
  · intro c hc
    obtain rfl := CallPc.executing.inj (hpc.symm.trans hc)
    rw [hheld]
    exact hfound
  · exact fun c hc => nomatch hpc.symm.trans hc
  · exact fun hnever => absurd hpc (hnever found)
  · exact fun _ => ⟨hheld.trans hnone, hconnection⟩
  · exact fun c hc => nomatch hpc.symm.trans hc
  · exact fun c hc => nomatch hpc.symm.trans hc

theorem consistent_opened (h : s.Consistent) {thread : ℕ} {call : Call} (hcall : s.calls thread = some call)
    (hpc : call.pc = .connecting) :
    (s.setCall thread (some { call with pc := .opening ⟨s.database.outages⟩ })).Consistent := by
  have hc := h.calls thread call hcall
  apply consistent_setCall h
  · intro old hold
    obtain rfl := Option.some.inj (hcall.symm.trans hold)
    exact ⟨rfl, rfl⟩
  · refine ⟨hc.constructed, hc.past, hc.steady, hc.later, fun c hexecuting => (nomatch hexecuting), ?_, ?_, hc.cached⟩
    · intro _
      apply hc.waiting
      rw [hpc]
      exact fun c hexecuting => (nomatch hexecuting)
    · intro c hopening
      rw [← CallPc.opening.inj hopening]
      exact hc.past

theorem consistent_emplaced (h : s.Consistent) {thread : ℕ} {call : Call} {c : Connection}
    (hcall : s.calls thread = some call) (hpc : call.pc = .opening c) :
    (s.emplaceConnection thread call c).Consistent := by
  have hc := h.calls thread call hcall
  obtain ⟨hheld, hnone⟩ := hc.waiting (by rw [hpc]; exact fun d hexecuting => (nomatch hexecuting))
  have hself : (s.emplaceConnection thread call c).connections thread call.repository = some c := by
    rw [emplaceConnection, setCall, connections_emplace, if_pos ⟨rfl, rfl⟩]
  have hother (t r : ℕ) (d : Connection) (hd : s.connections t r = some d) :
      (s.emplaceConnection thread call c).connections t r = some d := by
    rw [emplaceConnection, setCall, connections_emplace, if_neg, hd]
    rintro ⟨rfl, rfl⟩
    cases hnone.symm.trans hd
  refine ⟨h.lawful, h.past, ?_, ?_, fun a ha d hd => hother _ _ d (h.kept a ha d hd)⟩
  · intro t other hfound
    simp only [emplaceConnection, setCall, Function.update_apply] at hfound
    split_ifs at hfound with hthread
    · subst hthread
      obtain rfl := Option.some.inj hfound
      refine ⟨hc.constructed, hc.past, hc.steady, hc.later, ?_, fun hnever => absurd rfl (hnever c),
        fun d hopening => (nomatch hopening), ?_⟩
      · intro d hexecuting
        obtain rfl := CallPc.executing.inj hexecuting
        exact Or.inr ⟨hheld, hself⟩
      · intro d hd
        obtain rfl := Option.some.inj hd
        exact ⟨hheld, hself, hc.opening c hpc⟩
    · have ho := h.calls t other hfound
      refine ⟨ho.constructed, ho.past, ho.steady, ho.later, ?_, ?_, ho.opening, ?_⟩
      · intro d hexecuting
        rcases ho.executing d hexecuting with hobject | ⟨hown, hconnection⟩
        · exact Or.inl hobject
        · exact Or.inr ⟨hown, hother t _ d hconnection⟩
      · intro hnever
        obtain ⟨hown, hempty⟩ := ho.waiting hnever
        refine ⟨hown, ?_⟩
        rw [emplaceConnection, setCall, connections_emplace, if_neg (fun hboth => hthread hboth.1)]
        exact hempty
      · intro d hd
        obtain ⟨hown, hconnection, hopened⟩ := ho.cached d hd
        exact ⟨hown, hother t _ d hconnection, hopened⟩
  · intro t r d hd
    rw [emplaceConnection, setCall, connections_emplace] at hd
    split_ifs at hd with hsame
    · obtain rfl := Option.some.inj hd
      refine Or.inr ⟨{ call with pc := .executing c, cached := some c }, ?_, hsame.2.symm, rfl⟩
      simp only [emplaceConnection, setCall, hsame.1, Function.update_self]
    · rcases h.opened t r d hd with hrecord | ⟨other, hfound, hrepository, hput⟩
      · exact Or.inl hrecord
      · by_cases hthread : t = thread
        · subst hthread
          obtain rfl := Option.some.inj (hcall.symm.trans hfound)
          exact absurd ⟨rfl, hrepository.symm⟩ hsame
        · refine Or.inr ⟨other, ?_, hrepository, hput⟩
          simp only [emplaceConnection, setCall, Function.update_of_ne hthread, emplace, hfound]

theorem hasBroken_iff_struck (h : s.Consistent) {thread : ℕ} {call : Call} (hcall : s.calls thread = some call)
    {c : Connection} (hpc : call.pc = .executing c) (error : Option ErrorCode) :
    call.madeAt.hasBroken c ↔ Struck s.repositories s.history
      ⟨thread, call.repository, call.operation, call.madeAt, s.database, call.cached, error⟩ := by
  have hc := h.calls thread call hcall
  unfold Struck
  rcases hc.executing c hpc with hheld | ⟨hheld, hconnection⟩
  · unfold heldBy at hheld
    simp only [hheld]
  · unfold heldBy at hheld
    simp only [hheld]
    constructor
    · intro hbroken
      rcases h.opened thread call.repository c hconnection with
        ⟨a, ha, hthread, hrepository, hput⟩ | ⟨other, hother, -, hput⟩
      · exact ⟨a, ha, hthread, hrepository, c, hput, hbroken⟩
      · obtain rfl := Option.some.inj (hcall.symm.trans hother)
        exact absurd hbroken (Nat.not_lt.mpr (hc.cached c hput).2.2)
    · rintro ⟨a, ha, hthread, hrepository, d, hput, hbroken⟩
      have hkept := h.kept a ha d hput
      rw [hthread, hrepository, hconnection] at hkept
      exact Option.some.inj hkept ▸ hbroken

theorem not_struck_waiting (h : s.Consistent) {thread : ℕ} {call : Call} (hcall : s.calls thread = some call)
    (hpc : ∀ c, call.pc ≠ .executing c) (error : Option ErrorCode) :
    ¬ Struck s.repositories s.history
      ⟨thread, call.repository, call.operation, call.madeAt, s.database, call.cached, error⟩ := by
  obtain ⟨hheld, hnone⟩ := (h.calls thread call hcall).waiting hpc
  unfold heldBy at hheld
  unfold Struck
  simp only [hheld]
  rintro ⟨a, ha, hthread, hrepository, c, hput, -⟩
  have hkept := h.kept a ha c hput
  rw [hthread, hrepository, hnone] at hkept
  cases hkept

theorem failure_of_canEnd (h : s.Consistent) {thread : ℕ} {call : Call} {error : Option ErrorCode}
    (hcall : s.calls thread = some call) (hend : s.canEnd call error = true)
    (hsame : s.database.outages = call.madeAt.outages) :
    error = some connectionFailure ↔ Struck s.repositories s.history
      ⟨thread, call.repository, call.operation, call.madeAt, s.database, call.cached, error⟩ := by
  have hc := h.calls thread call hcall
  unfold canEnd at hend
  cases hpc : call.pc with
  | connecting =>
    rw [hpc] at hend
    cases hend
  | opening c =>
    rw [hpc] at hend
    have hopened := hc.opening c hpc
    have hsound : ¬ s.database.hasBroken c := by
      unfold Database.hasBroken
      omega
    exact iff_of_false ((of_decide_eq_true hend).2.resolve_left hsound)
      (not_struck_waiting h hcall (by rw [hpc]; exact fun d hexecuting => (nomatch hexecuting)) error)
  | executing c =>
    rw [hpc] at hend
    rw [← hasBroken_iff_struck h hcall hpc]
    dsimp only at hend
    split_ifs at hend with hbroken
    · exact iff_of_true (of_decide_eq_true hend) hbroken
    · have hsound : ¬ s.database.hasBroken c := by
        unfold Database.hasBroken at hbroken ⊢
        omega
      exact iff_of_false ((of_decide_eq_true hend).resolve_left hsound) hbroken

theorem consistent_endCall (h : s.Consistent) {thread : ℕ} {call : Call} {error : Option ErrorCode}
    (hcall : s.calls thread = some call)
    (hfailure : call.madeAt.reachable = true → s.database.outages = call.madeAt.outages →
      (error = some connectionFailure ↔ Struck s.repositories s.history
        ⟨thread, call.repository, call.operation, call.madeAt, s.database, call.cached, error⟩)) :
    (s.endCall thread call error).Consistent := by
  have hc := h.calls thread call hcall
  refine ⟨?_, forall_mem_addRecord.mpr ⟨h.past, hc.past⟩, ?_, ?_, forall_mem_addRecord.mpr ⟨h.kept, ?_⟩⟩
  · refine h.lawful.concat ⟨hc.constructed, hc.later, fun c hput => (hc.cached c hput).2.2, ?_⟩
    exact fun hreachable => hfailure hreachable.1 hreachable.2
  · intro t other hother
    simp only [endCall, addRecord, setCall, Function.update_apply] at hother
    split_ifs at hother with hthread
    have ho := h.calls t other hother
    refine ⟨ho.constructed, ho.past, ho.steady, forall_mem_addRecord.mpr ⟨ho.later, ?_⟩, ho.executing, ho.waiting,
      ho.opening, ho.cached⟩
    intro hsame
    exact absurd hsame.symm hthread
  · intro t r c hconnection
    rcases h.opened t r c hconnection with ⟨a, ha, hput⟩ | ⟨other, hother, hrepository, hput⟩
    · exact Or.inl ⟨a, List.mem_append_left _ ha, hput⟩
    · by_cases hthread : t = thread
      · subst hthread
        obtain rfl := Option.some.inj (hcall.symm.trans hother)
        exact Or.inl ⟨_, List.mem_append_right _ (List.mem_singleton_self _), rfl, hrepository, hput⟩
      · refine Or.inr ⟨other, ?_, hrepository, hput⟩
        simp only [endCall, addRecord, setCall, Function.update_of_ne hthread, hother]
  · exact fun c hput => (hc.cached c hput).2.1

theorem consistent_call (h : s.Consistent) {thread : ℕ} {call : Call} (hcall : s.calls thread = some call)
    (hmove : CallMoves s thread call s') : s'.Consistent := by
  cases hmove with
  | refused hpc hr =>
    apply consistent_endCall h hcall
    intro hmade hsame
    -- an outage has come since the call was made, or the database would be reachable
    exact absurd (hr.symm.trans ((h.calls thread call hcall).steady hmade hsame)) Bool.false_ne_true
  | opened hpc hr => exact consistent_opened h hcall hpc
  | emplaced hpc => exact consistent_emplaced h hcall hpc
  | ended hend => exact consistent_endCall h hcall (fun _ hsame => failure_of_canEnd h hcall hend hsame)

theorem consistent_step {a : ClientAction} (h : s.Consistent) (hstep : s.step a = some s') : s'.Consistent := by
  rcases step_cases hstep with rfl | ⟨object, rfl⟩ | ⟨db, hdb, rfl⟩ |
    ⟨thread, repository, operation, object, hidle, hobject, rfl⟩ | ⟨thread, call, hcall, hmove⟩
  · exact h
  · exact consistent_addRepository h object
  · exact consistent_setDatabase h hdb
  · exact consistent_beginCall h operation hidle hobject
  · exact consistent_call h hcall hmove

theorem consistent_run {actions : List ClientAction} (h : run step start actions = some s) : s.Consistent :=
  run_invariant (fun _ _ _ => consistent_step) consistent_start h

end DatabaseClients

def previousCall (before : List CallRecord) (r : CallRecord) : Option CallRecord :=
  (before.filter (fun a => a.thread = r.thread ∧ a.repository = r.repository)).getLast?

def CallRecord.FailedWhileReachable (r : CallRecord) : Prop := r.WhileReachable ∧ r.error = some connectionFailure

def Survivable (history : List CallRecord) : Prop :=
  Throughout (fun before r => ∀ a, previousCall before r = some a →
    ¬ (a.FailedWhileReachable ∧ r.FailedWhileReachable)) history

/-- After a call over a connection that was opened before an outage, no other follows while the database can be
reached. -/
def NotRetried (repositories : List RepositoryObject) (history : List CallRecord) : Prop :=
  Throughout (fun before r => ∀ a, previousCall before r = some a → a.WhileReachable →
    Struck repositories before a → ¬ r.WhileReachable) history

theorem previousCall_some {before : List CallRecord} {a r : CallRecord} (h : previousCall before r = some a) :
    ∃ earlier between, before = earlier ++ a :: between ∧ a.thread = r.thread ∧ a.repository = r.repository ∧
      ∀ b ∈ between, ¬ (b.thread = a.thread ∧ b.repository = a.repository) := by
  obtain ⟨rest, hrest⟩ := List.getLast?_eq_some_iff.mp h
  obtain ⟨earlier, others, rfl, -, hothers⟩ := List.filter_eq_append_iff.mp hrest
  obtain ⟨skipped, between, rfl, -, hsame, hbetween⟩ := List.filter_eq_cons_iff.mp hothers
  obtain ⟨hthread, hrepository⟩ := of_decide_eq_true hsame
  refine ⟨earlier ++ skipped, between, by rw [List.append_assoc], hthread, hrepository, ?_⟩
  intro b hb
  have hnone := List.filter_eq_nil_iff.mp hbetween b hb
  rw [hthread, hrepository]
  simpa using hnone

variable {repositories : List RepositoryObject} {before : List CallRecord} {a r : CallRecord}

theorem Struck.later (h : Struck repositories before a) (hthread : a.thread = r.thread)
    (hrepository : a.repository = r.repository) (hle : a.madeAt.outages ≤ r.madeAt.outages) :
    Struck repositories before r := by
  unfold Struck at h ⊢
  rw [← hrepository]
  cases hheld : repositories[a.repository]?.bind RepositoryObject.held with
  | some c =>
    rw [hheld] at h
    exact Nat.lt_of_lt_of_le h hle
  | none =>
    rw [hheld] at h
    obtain ⟨b, hb, hsame, hcalled, c, hput, hbroken⟩ := h
    exact ⟨b, hb, hsame.trans hthread, hcalled, c, hput, Nat.lt_of_lt_of_le hbroken hle⟩

theorem struck_append {between : List CallRecord} (hfresh : ∀ c, a.cached = some c → a.madeAt.outages ≤ c.openedAfter)
    (h : ∀ b ∈ between, ¬ (b.thread = a.thread ∧ b.repository = a.repository)) :
    Struck repositories (before ++ a :: between) a ↔ Struck repositories before a := by
  unfold Struck
  cases repositories[a.repository]?.bind RepositoryObject.held with
  | some c => exact Iff.rfl
  | none =>
    constructor
    · rintro ⟨b, hb, hthread, hrepository, c, hput, hbroken⟩
      rcases List.mem_append.mp hb with hold | hnew
      · exact ⟨b, hold, hthread, hrepository, c, hput, hbroken⟩
      · rcases List.mem_cons.mp hnew with rfl | hbetween
        · exact absurd hbroken (Nat.not_lt.mpr (hfresh c hput))
        · exact absurd ⟨hthread, hrepository⟩ (h b hbetween)
    · rintro ⟨b, hb, hsame⟩
      exact ⟨b, List.mem_append_left _ hb, hsame⟩

theorem survivable_iff {history : List CallRecord} (h : Throughout (Lawful repositories) history) :
    Survivable history ↔ NotRetried repositories history := by
  unfold Survivable NotRetried Throughout
  refine forall_congr' fun before => forall_congr' fun r => forall_congr' fun after => forall_congr' fun hsplit =>
    forall_congr' fun a => forall_congr' fun hprevious => ?_
  obtain ⟨earlier, between, rfl, hthread, hrepository, hbetween⟩ := previousCall_some hprevious
  have ha := h earlier a (between ++ r :: after) (by rw [hsplit, List.append_assoc, List.cons_append])
  have hr := h _ r after hsplit
  have hle := hr.later a (List.mem_append_right _ List.mem_cons_self) hthread
  rw [struck_append ha.fresh hbetween]
  constructor
  · intro hnever hareachable hstruck hrreachable
    have hlater := (((struck_append ha.fresh hbetween).mpr hstruck).later hthread hrepository hle)
    exact hnever ⟨⟨hareachable, (ha.failure hareachable).mpr hstruck⟩,
      ⟨hrreachable, (hr.failure hrreachable).mpr hlater⟩⟩
  · rintro hspared ⟨⟨hareachable, hafailed⟩, ⟨hrreachable, -⟩⟩
    exact hspared hareachable ((ha.failure hareachable).mp hafailed) hrreachable

/-- An outage is survived exactly if no thread goes on using a repository over a connection from before it. -/
theorem outage_survivable_iff (actions : List ClientAction) (s : DatabaseClients)
    (h : run DatabaseClients.step DatabaseClients.start actions = some s) :
    Survivable s.history ↔ NotRetried s.repositories s.history :=
  survivable_iff (DatabaseClients.consistent_run h).lawful

/-- An outage while a connection is opened is survived: it is not kept, and the next call opens another. -/
example : (run DatabaseClients.step DatabaseClients.start [.construct .order, .call 0 0 .findById, .connect 0, .outage,
    .answer 0 (some connectionFailure), .recovery, .call 0 0 .findById, .connect 0, .prepared 0, .answer 0 none]).map
    (fun s => s.history.map CallRecord.error) = some [some connectionFailure, none] := by decide +kernel

def calledOnceAfterOutage : List ClientAction :=
  [.construct .worker, .call 0 0 .recordReservationIfNew, .connect 0, .prepared 0, .answer 0 none, .outage, .recovery,
    .call 0 0 .recordReservationIfNew, .answer 0 (some connectionFailure)]

theorem outage_survived_once :
    ∃ s, run DatabaseClients.step DatabaseClients.start calledOnceAfterOutage = some s ∧
      s.history.length = 2 ∧ Survivable s.history := by
  have hfacts : (run DatabaseClients.step DatabaseClients.start calledOnceAfterOutage).map
      (fun s => (s.repositories, s.history.length)) = some ([.worker], 2) := by decide +kernel
  obtain ⟨s, hs, hs'⟩ := Option.map_eq_some_iff.mp hfacts
  obtain ⟨hrepositories, hlength⟩ := Prod.mk.inj hs'
  refine ⟨s, hs, hlength, (outage_survivable_iff calledOnceAfterOutage s hs).mpr ?_⟩
  intro before r after hsplit a hprevious _ hstruck
  obtain ⟨earlier, between, rfl, -⟩ := previousCall_some hprevious
  -- the call before the last of two calls is the first, and none came before it
  rw [hsplit] at hlength
  simp only [List.length_append, List.length_cons] at hlength
  obtain rfl := List.eq_nil_of_length_eq_zero (show earlier.length = 0 by omega)
  obtain rfl := List.eq_nil_of_length_eq_zero (show between.length = 0 by omega)
  have hown : [RepositoryObject.worker][a.repository]?.bind RepositoryObject.held = none := by
    cases a.repository <;> rfl
  rw [hrepositories] at hstruck
  unfold Struck at hstruck
  rw [hown] at hstruck
  obtain ⟨b, hb, -, -, c, hput, hbroken⟩ := hstruck
  obtain rfl := List.mem_singleton.mp hb
  have hlawful := (DatabaseClients.consistent_run hs).lawful [] b (r :: after) hsplit
  exact absurd hbroken (Nat.not_lt.mpr (hlawful.fresh c hput))

def retriedAfterOutage : List ClientAction :=
  [.construct .order, .call 0 0 .findById, .connect 0, .prepared 0, .answer 0 none, .outage, .recovery, .call 0 0 .findById,
    .answer 0 (some connectionFailure), .call 0 0 .findById, .answer 0 (some connectionFailure)]

theorem outage_not_survived :
    ∃ s, run DatabaseClients.step DatabaseClients.start retriedAfterOutage = some s ∧ ¬ Survivable s.history := by
  refine ⟨_, rfl, ?_⟩
  intro h
  refine h [_, _] _ [] rfl _ rfl ?_
  exact ⟨⟨⟨rfl, rfl⟩, rfl⟩, ⟨rfl, rfl⟩, rfl⟩

end LiquidPetProject.Repository
