import LiquidPetProject.RepositoryOutcome
import LiquidPetProject.Transitions
import Mathlib.Logic.Function.Basic

namespace LiquidPetProject.Repository

open Transitions

structure Database where
  reachable : Bool
  outages : ℕ
  deriving DecidableEq

/-- An object of the driver, with the number of outages there had been when it was opened. -/
structure Connection where
  openedAfter : ℕ
  deriving DecidableEq

namespace Database

def connect (db : Database) : Option Connection := if db.reachable = true then some ⟨db.outages⟩ else none

/-- An outage breaks the connections that are open, and none of them comes back by itself. -/
def hasBroken (db : Database) (c : Connection) : Prop := c.openedAfter < db.outages

instance (db : Database) (c : Connection) : Decidable (db.hasBroken c) := Nat.decLt _ _

def Follows (before after : Database) : Prop :=
  before.outages < after.outages ∨ before.outages = after.outages ∧ after.reachable = true

end Database

inductive RepositoryKind
  | order | worker | outbox
  deriving DecidableEq

inductive Operation
  | save | findById | changeStatus | recordReservationIfNew | fetchUnpublished | markAsPublished
  deriving DecidableEq

def Operation.kind : Operation → RepositoryKind
  | .save => .order
  | .findById => .order
  | .changeStatus => .order
  | .recordReservationIfNew => .worker
  | .fetchUnpublished => .outbox
  | .markAsPublished => .outbox

/-- A repository object. The outbox repository has a connection as a member, the others have one per thread. -/
inductive RepositoryObject
  | order
  | worker
  | outbox (connection : Connection)
  deriving DecidableEq

namespace RepositoryObject

def kind : RepositoryObject → RepositoryKind
  | .order => .order
  | .worker => .worker
  | .outbox _ => .outbox

def held : RepositoryObject → Option Connection
  | .order => none
  | .worker => none
  | .outbox c => some c

/-- The constructors open a connection: the first two as a probe only. -/
def construct (db : Database) : RepositoryKind → Option RepositoryObject
  | .order => db.connect.map (fun _ => .order)
  | .worker => db.connect.map (fun _ => .worker)
  | .outbox => db.connect.map .outbox

end RepositoryObject

inductive CallPc
  | connecting
  | opening (connection : Connection)
  | executing (connection : Connection)
  deriving DecidableEq

/-- A call that has not returned, with the connection that it put into the map of its thread. -/
structure Call where
  repository : ℕ
  operation : Operation
  pc : CallPc
  cached : Option Connection
  madeAt : Database

structure CallRecord where
  thread : ℕ
  repository : ℕ
  operation : Operation
  madeAt : Database
  endedAt : Database
  cached : Option Connection
  error : Option ErrorCode
  deriving DecidableEq

def connectionFailure : ErrorCode := mapPqxxException .brokenConnection

structure DatabaseClients where
  database : Database
  repositories : List RepositoryObject
  connections : ℕ → ℕ → Option Connection
  calls : ℕ → Option Call
  history : List CallRecord

inductive ClientAction
  | construct (kind : RepositoryKind)
  | outage
  | recovery
  | call (thread repository : ℕ) (operation : Operation)
  | connect (thread : ℕ)
  | prepared (thread : ℕ)
  | answer (thread : ℕ) (error : Option ErrorCode)

namespace DatabaseClients

def start : DatabaseClients := ⟨⟨true, 0⟩, [], fun _ _ => none, fun _ => none, []⟩

def setDatabase (s : DatabaseClients) (database : Database) : DatabaseClients := { s with database := database }

def addRepository (s : DatabaseClients) (object : RepositoryObject) : DatabaseClients :=
  { s with repositories := s.repositories ++ [object] }

def setCall (s : DatabaseClients) (thread : ℕ) (call : Option Call) : DatabaseClients :=
  { s with calls := Function.update s.calls thread call }

def addRecord (s : DatabaseClients) (record : CallRecord) : DatabaseClients :=
  { s with history := s.history ++ [record] }

def emplace (s : DatabaseClients) (thread repository : ℕ) (c : Connection) : DatabaseClients :=
  { s with connections :=
    Function.update s.connections thread (Function.update (s.connections thread) repository (some c)) }

/-- The map is local to the thread, and nothing takes a connection out of it. -/
def connectionForCurrentThread (s : DatabaseClients) (thread repository : ℕ) : CallPc :=
  match s.connections thread repository with
  | some c => .executing c
  | none => .connecting

def acquire (s : DatabaseClients) (thread repository : ℕ) : RepositoryObject → CallPc
  | .order => s.connectionForCurrentThread thread repository
  | .worker => s.connectionForCurrentThread thread repository
  | .outbox c => .executing c

def beginCall (s : DatabaseClients) (thread repository : ℕ) (operation : Operation) (object : RepositoryObject) :
    DatabaseClients :=
  s.setCall thread (some ⟨repository, operation, s.acquire thread repository object, none, s.database⟩)

/-- A connection that was broken before the call throws `broken_connection`, a connection that is not broken never
does; when an outage falls into the call, it can end in any way. `prepareStatements` only ends a call by throwing. -/
def canEnd (s : DatabaseClients) (call : Call) (error : Option ErrorCode) : Bool :=
  match call.pc with
  | .connecting => false
  | .opening c => error ≠ none ∧ (s.database.hasBroken c ∨ error ≠ some connectionFailure)
  | .executing c =>
    if call.madeAt.hasBroken c then error = some connectionFailure
    else s.database.hasBroken c ∨ error ≠ some connectionFailure

def endCall (s : DatabaseClients) (thread : ℕ) (call : Call) (error : Option ErrorCode) : DatabaseClients :=
  (s.setCall thread none).addRecord
    ⟨thread, call.repository, call.operation, call.madeAt, s.database, call.cached, error⟩

/-- `std::make_unique<pqxx::connection>`. -/
def openConnection (s : DatabaseClients) (thread : ℕ) (call : Call) : DatabaseClients :=
  match s.database.connect with
  | none => s.endCall thread call (some connectionFailure)
  | some c => s.setCall thread (some { call with pc := .opening c })

/-- The statements are prepared, and only now the connection goes into the map. -/
def emplaceConnection (s : DatabaseClients) (thread : ℕ) (call : Call) (c : Connection) : DatabaseClients :=
  (s.emplace thread call.repository c).setCall thread (some { call with pc := .executing c, cached := some c })

def callStep (s : DatabaseClients) (thread : ℕ) (call : Call) : ClientAction → Option DatabaseClients
  | .connect _ => if call.pc = .connecting then some (s.openConnection thread call) else none
  | .prepared _ =>
    match call.pc with
    | .opening c => if s.database.hasBroken c then none else some (s.emplaceConnection thread call c)
    | _ => none
  | .answer _ error => if s.canEnd call error then some (s.endCall thread call error) else none
  | _ => none

def step (s : DatabaseClients) (a : ClientAction) : Option DatabaseClients :=
  match a with
  | .construct kind =>
    match RepositoryObject.construct s.database kind with
    | none => some s
    | some object => some (s.addRepository object)
  | .outage => some (s.setDatabase ⟨false, s.database.outages + 1⟩)
  | .recovery => some (s.setDatabase ⟨true, s.database.outages⟩)
  | .call thread repository operation =>
    match s.calls thread, s.repositories[repository]? with
    | none, some object =>
      if object.kind = operation.kind then some (s.beginCall thread repository operation object) else none
    | _, _ => none
  | .connect thread | .prepared thread | .answer thread _ =>
    match s.calls thread with
    | none => none
    | some call => s.callStep thread call a

variable {s s' : DatabaseClients}

theorem connect_none {db : Database} (h : db.connect = none) : db.reachable = false := by
  unfold Database.connect at h
  split_ifs at h with hr
  exact Bool.eq_false_of_not_eq_true hr

theorem connect_some {db : Database} {c : Connection} (h : db.connect = some c) :
    db.reachable = true ∧ c = ⟨db.outages⟩ := by
  unfold Database.connect at h
  split_ifs at h with hr
  exact ⟨hr, (Option.some.inj h).symm⟩

inductive CallMoves (s : DatabaseClients) (thread : ℕ) (call : Call) : DatabaseClients → Prop
  | refused (hpc : call.pc = .connecting) (hr : s.database.reachable = false) :
      CallMoves s thread call (s.endCall thread call (some connectionFailure))
  | opened (hpc : call.pc = .connecting) (hr : s.database.reachable = true) :
      CallMoves s thread call (s.setCall thread (some { call with pc := .opening ⟨s.database.outages⟩ }))
  | emplaced {c} (hpc : call.pc = .opening c) : CallMoves s thread call (s.emplaceConnection thread call c)
  | ended {error} (hend : s.canEnd call error = true) : CallMoves s thread call (s.endCall thread call error)

theorem callStep_moves {thread : ℕ} {call : Call} {a : ClientAction} (h : s.callStep thread call a = some s') :
    CallMoves s thread call s' := by
  cases a with
  | connect t =>
    simp only [callStep] at h
    split_ifs at h with hpc
    obtain rfl := Option.some.inj h
    unfold openConnection
    cases hc : s.database.connect with
    | none => exact .refused hpc (connect_none hc)
    | some c =>
      obtain ⟨hr, rfl⟩ := connect_some hc
      exact .opened hpc hr
  | prepared t =>
    cases hpc : call.pc with
    | opening c =>
      simp only [callStep, hpc] at h
      split_ifs at h
      obtain rfl := Option.some.inj h
      exact .emplaced hpc
    | _ => simp [callStep, hpc] at h
  | answer t error =>
    simp only [callStep] at h
    split_ifs at h with hend
    obtain rfl := Option.some.inj h
    exact .ended hend
  | _ => cases h

theorem step_cases {a : ClientAction} (h : s.step a = some s') :
    s' = s ∨ (∃ object, s' = s.addRepository object) ∨
      (∃ db, s.database.Follows db ∧ s' = s.setDatabase db) ∨
      (∃ thread repository operation object, s.calls thread = none ∧
        s.repositories[repository]? = some object ∧ s' = s.beginCall thread repository operation object) ∨
      ∃ thread call, s.calls thread = some call ∧ CallMoves s thread call s' := by
  have inCall (thread : ℕ) (hstep : s.step a = (s.calls thread).bind (fun call => s.callStep thread call a)) :
      ∃ thread call, s.calls thread = some call ∧ CallMoves s thread call s' := by
    rw [hstep] at h
    obtain ⟨call, hcall, hmove⟩ := Option.bind_eq_some_iff.mp h
    exact ⟨thread, call, hcall, callStep_moves hmove⟩
  cases a with
  | construct kind =>
    simp only [step] at h
    cases ho : RepositoryObject.construct s.database kind with
    | none =>
      rw [ho] at h
      exact Or.inl (Option.some.inj h).symm
    | some object =>
      rw [ho] at h
      exact Or.inr (Or.inl ⟨object, (Option.some.inj h).symm⟩)
  | outage => exact Or.inr (Or.inr (Or.inl ⟨_, Or.inl (Nat.lt_succ_self _), (Option.some.inj h).symm⟩))
  | recovery => exact Or.inr (Or.inr (Or.inl ⟨⟨true, s.database.outages⟩, Or.inr ⟨rfl, rfl⟩, (Option.some.inj h).symm⟩))
  | call thread repository operation =>
    simp only [step] at h
    split at h
    · rename_i object hcall hobject
      split_ifs at h
      exact Or.inr (Or.inr (Or.inr (Or.inl
        ⟨thread, repository, operation, object, hcall, hobject, (Option.some.inj h).symm⟩)))
    · cases h
  | connect thread | prepared thread | answer thread error =>
    refine Or.inr (Or.inr (Or.inr (Or.inr (inCall thread ?_))))
    simp only [step]
    cases s.calls thread <;> rfl

theorem acquire_cases (s : DatabaseClients) (thread repository : ℕ) (object : RepositoryObject) :
    (∃ c, s.acquire thread repository object = .executing c ∧
        (object.held = some c ∨ object.held = none ∧ s.connections thread repository = some c)) ∨
      s.acquire thread repository object = .connecting ∧ object.held = none ∧ s.connections thread repository = none := by
  cases object with
  | outbox c => exact Or.inl ⟨c, rfl, Or.inl rfl⟩
  | order | worker =>
    simp only [acquire, connectionForCurrentThread]
    cases hc : s.connections thread repository with
    | some c => exact Or.inl ⟨c, rfl, Or.inr ⟨rfl, rfl⟩⟩
    | none => exact Or.inr ⟨rfl, rfl, rfl⟩

end DatabaseClients

end LiquidPetProject.Repository
