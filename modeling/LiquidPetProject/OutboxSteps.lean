import LiquidPetProject.OutboxPublisher

namespace LiquidPetProject.Outbox

open Models Messaging Repository Transitions

variable {π : Type}

def entryOf (m : PublishRequest π) : OutboxEntry π := ⟨m.metadata.eventId, m.key, m.metadata.eventType, m.payload⟩

theorem entryOf_publishRequest (p : OutboxPublisher π) (entry : OutboxEntry π) :
    entryOf (p.publishRequest entry) = entry := rfl

namespace OutboxState

def known (s : OutboxState π) : List (OutboxEntry π) := entries s.rows

def requested (s : OutboxState π) : List (OutboxEntry π) := s.futures.map (fun f => entryOf f.request)

def held (s : OutboxState π) : List (OutboxEntry π) := s.messages.map entryOf

inductive Moves (s : OutboxState π) (p : OutboxPublisher π) : OutboxState π → PublisherPc π → Prop
  | stop (last) : Moves s p s (.idle last)
  | select (rank limit) :
      Moves s p s (.fetching (entries (selectUnpublishedOutbox rank s.locked limit s.rows)))
  | fetched {rows} (h : p.pc = .fetching rows) : Moves s p s (.publishing rows [])
  | publish {entry todo pending} (h : p.pc = .publishing (entry :: todo) pending) :
      Moves s p (s.addFuture (p.publishRequest entry)) (.publishing todo (pending ++ [(entry, s.futures.length)]))
  | published {pending} (result) (h : p.pc = .publishing [] pending) : Moves s p s (.next pending result)
  | skip {head pending result} (h : p.pc = .awaiting (head :: pending) result) : Moves s p s (.next pending result)
  | succeed {entry f pending result future} (h : p.pc = .awaiting ((entry, f) :: pending) result)
      (hf : s.futures[f]? = some future) (hok : future.result = some (.ok ())) :
      Moves s p s (.marking entry pending result)
  | unmarked {entry pending result} (h : p.pc = .marking entry pending result) : Moves s p s (.next pending result)
  | update {entry pending result} (h : p.pc = .marking entry pending result) :
      Moves s p s (.updating entry pending result)
  | unapplied {entry pending result} (h : p.pc = .updating entry pending result) :
      Moves s p s (.next pending result)
  | applied {entry pending result} (last) (h : p.pc = .updating entry pending result) :
      Moves s p (s.markAsPublished entry.id) (.next pending last)
  | abandoned {entry pending result} (h : p.pc = .updating entry pending result) :
      Moves s p (s.markAsPublished entry.id) (.idle {})

section Steps

variable {s t : OutboxState π} {i : ℕ} {p : OutboxPublisher π}

theorem selectUnpublished_moves (rank : OutboxEventId → ℕ) :
    ∃ u pc, s.selectUnpublished i p rank = u.setPc i pc ∧ Moves s p u pc := by
  unfold selectUnpublished
  split_ifs
  · exact ⟨s, _, rfl, .stop _⟩
  · exact ⟨s, _, rfl, .select _ _⟩

theorem publishNext_moves {todo : List (OutboxEntry π)} {pending : List (OutboxEntry π × ℕ)}
    (hpc : p.pc = .publishing todo pending) (h : s.publishNext i p todo pending = some t) :
    ∃ u pc, t = u.setPc i pc ∧ Moves s p u pc := by
  cases todo with
  | nil => cases h
  | cons entry todo => exact ⟨_, _, (Option.some.inj h).symm, .publish hpc⟩

theorem publishFinished_moves {todo : List (OutboxEntry π)} {pending : List (OutboxEntry π × ℕ)}
    (hpc : p.pc = .publishing todo pending) (h : s.publishFinished i todo pending = some t) :
    ∃ u pc, t = u.setPc i pc ∧ Moves s p u pc := by
  cases todo with
  | nil => exact ⟨_, _, (Option.some.inj h).symm, .published _ hpc⟩
  | cons entry todo => cases h

theorem waitTimedOut_moves {pending : List (OutboxEntry π × ℕ)} {result : BatchResult}
    (hpc : p.pc = .awaiting pending result) (h : s.waitTimedOut i pending result = some t) :
    ∃ u pc, t = u.setPc i pc ∧ Moves s p u pc := by
  cases pending with
  | nil => cases h
  | cons head pending =>
    simp only [waitTimedOut] at h
    split_ifs at h
    exact ⟨_, _, (Option.some.inj h).symm, .skip hpc⟩

theorem waitReady_moves {pending : List (OutboxEntry π × ℕ)} {result : BatchResult}
    (hpc : p.pc = .awaiting pending result) (h : s.waitReady i pending result = some t) :
    ∃ u pc, t = u.setPc i pc ∧ Moves s p u pc := by
  cases pending with
  | nil => cases h
  | cons head pending =>
    obtain ⟨entry, f⟩ := head
    simp only [waitReady] at h
    cases hf : s.futureResult f with
    | none =>
      rw [hf] at h
      cases h
    | some outcome =>
      rw [hf] at h
      cases outcome with
      | error e => exact ⟨_, _, (Option.some.inj h).symm, .skip hpc⟩
      | ok sent =>
        obtain ⟨future, hfuture, hok⟩ := Option.bind_eq_some_iff.mp hf
        exact ⟨_, _, (Option.some.inj h).symm, .succeed hpc hfuture hok⟩

theorem updatePublished_moves {entry : OutboxEntry π} {pending : List (OutboxEntry π × ℕ)} {result : BatchResult}
    (hpc : p.pc = .marking entry pending result) (h : s.updatePublished i entry pending result = some t) :
    ∃ u pc, t = u.setPc i pc ∧ Moves s p u pc := by
  unfold updatePublished at h
  split_ifs at h
  · exact ⟨_, _, (Option.some.inj h).symm, .update hpc⟩
  · exact ⟨_, _, (Option.some.inj h).symm, .unmarked hpc⟩

theorem markFinished_moves {entry : OutboxEntry π} {pending : List (OutboxEntry π × ℕ)} {result : BatchResult}
    (hpc : p.pc = .updating entry pending result) (outcome : CommitOutcome) :
    ∃ u pc, s.markFinished i entry pending result outcome = u.setPc i pc ∧ Moves s p u pc := by
  cases outcome with
  | committed => exact ⟨_, _, rfl, .applied _ hpc⟩
  | failed e => exact ⟨_, _, rfl, .unapplied hpc⟩
  | inDoubt e => exact ⟨_, _, rfl, .applied _ hpc⟩

theorem restart_moves (applied : Bool) : ∃ u pc, s.restart i p.pc applied = u.setPc i pc ∧ Moves s p u pc := by
  cases hpc : p.pc with
  | updating entry pending result =>
    cases applied with
    | false => exact ⟨s, _, rfl, .stop _⟩
    | true => exact ⟨_, _, rfl, .abandoned hpc⟩
  | _ => exact ⟨s, _, rfl, .stop _⟩

theorem publisherStep_moves {event : PublisherEvent} (h : s.publisherStep i p event = some t) :
    ∃ u pc, t = u.setPc i pc ∧ Moves s p u pc := by
  unfold publisherStep at h
  split at h
  · obtain rfl := Option.some.inj h
    exact selectUnpublished_moves _
  · exact ⟨s, _, (Option.some.inj h).symm, .stop _⟩
  · exact ⟨s, _, (Option.some.inj h).symm, .stop _⟩
  · next hpc => exact ⟨s, _, (Option.some.inj h).symm, .fetched hpc⟩
  · next hpc => exact publishNext_moves hpc h
  · next hpc => exact publishFinished_moves hpc h
  · next hpc => exact waitTimedOut_moves hpc h
  · next hpc => exact waitReady_moves hpc h
  · next hpc => exact ⟨s, _, (Option.some.inj h).symm, .unmarked hpc⟩
  · next hpc => exact updatePublished_moves hpc h
  · next hpc =>
    obtain rfl := Option.some.inj h
    exact markFinished_moves hpc _
  · obtain rfl := Option.some.inj h
    exact restart_moves _
  · cases h

theorem step_insertCommitted {k : ℕ} (h : s.step (.insertCommitted k) = some t) :
    ∃ row, s.inserts[k]? = some row ∧ row.id ∉ s.rows.map (fun r => r.id) ∧
      t = { s with inserts := s.inserts.eraseIdx k }.addRow row := by
  simp only [step] at h
  cases hk : s.inserts[k]? with
  | none =>
    rw [hk] at h
    cases h
  | some row =>
    simp only [hk] at h
    split_ifs at h with hid
    exact ⟨row, rfl, hid, (Option.some.inj h).symm⟩

theorem step_publisher {event : PublisherEvent} (h : s.step (.publisher i event) = some t) :
    ∃ p, s.publishers[i]? = some p ∧ s.publisherStep i p event = some t := by
  simp only [step] at h
  cases hp : s.publishers[i]? with
  | none =>
    rw [hp] at h
    cases h
  | some p =>
    rw [hp] at h
    exact ⟨p, rfl, h⟩

theorem step_broker {f : ℕ} {event : BrokerEvent} (h : s.step (.broker f event) = some t) :
    ∃ future, s.futures[f]? = some future ∧ s.brokerStep f future event = some t := by
  simp only [step] at h
  cases hf : s.futures[f]? with
  | none =>
    rw [hf] at h
    cases h
  | some future =>
    rw [hf] at h
    exact ⟨future, rfl, h⟩

theorem brokerStep_frame {f : ℕ} {future : PublishFuture π} {event : BrokerEvent}
    (h : s.brokerStep f future event = some t) : t.rows = s.rows ∧ t.publishers = s.publishers := by
  cases event with
  | stored =>
    obtain rfl := Option.some.inj h
    exact ⟨rfl, rfl⟩
  | acknowledged | rejected e =>
    simp only [brokerStep] at h
    split_ifs at h
    obtain rfl := Option.some.inj h
    exact ⟨rfl, rfl⟩

end Steps

end OutboxState

end LiquidPetProject.Outbox
