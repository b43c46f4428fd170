import LiquidPetProject.OutboxProgress

namespace LiquidPetProject.Outbox

open Models Messaging Repository Transitions

variable {π : Type}

section Rows

def markRows (ids : List OutboxEventId) (rows : List (OutboxRow π)) : List (OutboxRow π) :=
  rows.map (fun row => if row.id ∈ ids then { row with published := true } else row)

theorem markRows_nil (rows : List (OutboxRow π)) : markRows [] rows = rows := by
  unfold markRows
  simp

theorem markRows_cons (id : OutboxEventId) (ids : List OutboxEventId) (rows : List (OutboxRow π)) :
    markRows (id :: ids) rows = markRows ids (markOutboxPublished id rows) := by
  unfold markRows markOutboxPublished
  rw [List.map_map]
  apply List.map_congr_left
  intro row _
  simp only [Function.comp_apply, List.mem_cons]
  by_cases hid : row.id = id
  · simp [hid]
  · simp [hid]

theorem markRows_congr {ids ids' : List OutboxEventId} (h : ∀ id, id ∈ ids ↔ id ∈ ids') (rows : List (OutboxRow π)) :
    markRows ids rows = markRows ids' rows := by
  unfold markRows
  simp only [h]

theorem unpublished_markRows (ids : List OutboxEventId) (rows : List (OutboxRow π)) :
    unpublished (markRows ids rows) = (unpublished rows).filter (fun row => row.id ∉ ids) := by
  unfold unpublished markRows
  rw [List.filter_map, List.filter_filter]
  have hkept (row : OutboxRow π) : (!(if row.id ∈ ids then { row with published := true } else row).published) =
      (decide (row.id ∉ ids) && !row.published) := by
    by_cases hid : row.id ∈ ids
    · simp [hid]
    · simp [hid]
  simp only [Function.comp_def, hkept]
  refine (List.map_congr_left ?_).trans (List.map_id _)
  intro row hrow
  have hid := (List.mem_filter.mp hrow).2
  rw [Bool.and_eq_true, decide_eq_true_eq] at hid
  rw [if_neg hid.1]
  rfl

def batch (B : OutboxEventId → Bool) (limit : ℕ) (rank : OutboxEventId → ℕ) (rows : List (OutboxRow π)) :
    List (OutboxRow π) :=
  markRows (((selectUnpublishedOutbox rank [] limit rows).map (fun row => row.id)).filter (fun id => !B id)) rows

def finish (B : OutboxEventId → Bool) (pc : PublisherPc π) (rows : List (OutboxRow π)) : List (OutboxRow π) :=
  markRows (pc.inHand.filter (fun id => !B id)) rows

theorem finish_drop {B : OutboxEventId → Bool} {pc pc' : PublisherPc π} {rows : List (OutboxRow π)}
    {id : OutboxEventId} (hin : pc.inHand = id :: pc'.inHand) (h : B id = true ∨ Marked rows id) :
    finish B pc' rows = finish B pc rows := by
  unfold finish
  rw [hin]
  cases hB : B id with
  | true => rw [List.filter_cons_of_neg (by simp [hB])]
  | false =>
    have hmarked : Marked rows id := h.resolve_left (by simp [hB])
    rw [List.filter_cons_of_pos (by simp [hB]), markRows_cons, markOutboxPublished_of_marked hmarked]

theorem finish_mark {B : OutboxEventId → Bool} {pc pc' : PublisherPc π} {rows : List (OutboxRow π)}
    {id : OutboxEventId} (hin : pc.inHand = id :: pc'.inHand) (hB : B id = false) :
    finish B pc' (markOutboxPublished id rows) = finish B pc rows := by
  unfold finish
  rw [hin, List.filter_cons_of_pos (by simp [hB]), markRows_cons]

theorem finish_congr {B : OutboxEventId → Bool} {pc pc' : PublisherPc π} (rows : List (OutboxRow π))
    (h : ∀ id, id ∈ pc'.inHand ↔ id ∈ pc.inHand) : finish B pc' rows = finish B pc rows := by
  apply markRows_congr
  intro id
  rw [List.mem_filter, List.mem_filter, h]

theorem finish_idle {B : OutboxEventId → Bool} {pc : PublisherPc π} (rows : List (OutboxRow π))
    (h : pc.isIdle = true) : finish B pc rows = rows := by
  cases pc with
  | idle result => exact markRows_nil rows
  | _ => cases h

end Rows

namespace OutboxState

section Serving

variable (B : OutboxEventId → Bool)

/-- The broker rejects the rows `B` and no others, and nothing else goes wrong. -/
def undisturbed (s : OutboxState π) : OutboxAction π → Bool
  | .publisher _ (.select _) => true
  | .publisher _ .fetchCommitted => true
  | .publisher _ .publish => true
  | .publisher _ .publishFinished => true
  | .publisher _ .ready => true
  | .publisher _ .update => true
  | .publisher _ (.markFinished .committed) => true
  | .broker f (.rejected _) => s.futures[f]?.all (fun future => B future.request.metadata.eventId)
  | .broker f _ => s.futures[f]?.all (fun future => !B future.request.metadata.eventId)
  | _ => false

def Sent (s : OutboxState π) (x : OutboxEntry π × ℕ) : Prop :=
  ∃ future, s.futures[x.2]? = some future ∧ future.request.metadata.eventId = x.1.id ∧
    (∀ e, future.result = some (.error e) → B x.1.id = true) ∧ (future.result = some (.ok ()) → B x.1.id = false)

end Serving

end OutboxState

namespace PublisherPc

def pending : PublisherPc π → List (OutboxEntry π × ℕ)
  | publishing _ pending => pending
  | awaiting pending _ => pending
  | marking _ pending _ => pending
  | updating _ pending _ => pending
  | _ => []

def confirmed : PublisherPc π → Option OutboxEventId
  | marking entry _ _ => some entry.id
  | updating entry _ _ => some entry.id
  | _ => none

theorem next_pending (pending : List (OutboxEntry π × ℕ)) (result : BatchResult) :
    (next pending result).pending = pending := by
  cases pending <;> rfl

theorem next_confirmed (pending : List (OutboxEntry π × ℕ)) (result : BatchResult) :
    (next pending result).confirmed = none := by
  cases pending <;> rfl

end PublisherPc

namespace OutboxState

variable {B : OutboxEventId → Bool} {s t : OutboxState π} {p : OutboxPublisher π}

structure Serving (B : OutboxEventId → Bool) (s : OutboxState π) (p : OutboxPublisher π) : Prop where
  alone : s.publishers = [p]
  sent : ∀ x ∈ p.pc.pending, Sent B s x
  confirmed : ∀ id, p.pc.confirmed = some id → B id = false

theorem Serving.index {i : ℕ} {q : OutboxPublisher π} (h : Serving B s p) (hi : s.publishers[i]? = some q) :
    i = 0 ∧ q = p := by
  rw [h.alone] at hi
  cases i with
  | zero => exact ⟨rfl, (Option.some.inj hi).symm⟩
  | succ i => cases hi

theorem setPc_alone {pc : PublisherPc π} (h : s.publishers = [p]) : (s.setPc 0 pc).publishers = [{ p with pc := pc }] := by
  unfold setPc
  rw [h]
  rfl

def Serves (B : OutboxEventId → Bool) (s t : OutboxState π) (p : OutboxPublisher π) (pc : PublisherPc π) : Prop :=
  (p.pc.isIdle = true ∧ t.rows = s.rows ∧ ∃ rank,
      pc = .fetching (entries (selectUnpublishedOutbox rank [] p.batchSize.toInt.toNat s.rows))) ∨
    p.pc.isIdle = false ∧ finish B pc t.rows = finish B p.pc s.rows ∧ Later s.rows t.rows

theorem unlocked_alone (halone : s.publishers = [p]) (hpc : p.pc.inTransaction = false) : s.locked = [] := by
  unfold locked
  rw [halone, List.flatMap_singleton, locks_eq_nil hpc]

theorem Serving.setPc {u : OutboxState π} {pc : PublisherPc π} (h : Serving B s p) (hu : u.publishers = s.publishers)
    (hsent : ∀ x ∈ pc.pending, Sent B u x) (hconfirmed : ∀ id, pc.confirmed = some id → B id = false) :
    Serving B (u.setPc 0 pc) { p with pc := pc } :=
  ⟨setPc_alone (hu.trans h.alone), hsent, hconfirmed⟩

theorem Serving.bare {u : OutboxState π} {pc : PublisherPc π} (h : Serving B s p) (hu : u.publishers = s.publishers)
    (hpending : pc.pending = []) (hconfirmed : pc.confirmed = none) : Serving B (u.setPc 0 pc) { p with pc := pc } := by
  apply h.setPc hu
  · intro x hx
    rw [hpending] at hx
    cases hx
  · intro id hid
    rw [hconfirmed] at hid
    cases hid

theorem Serving.next {u : OutboxState π} {pending : List (OutboxEntry π × ℕ)} {result : BatchResult}
    (h : Serving B s p) (hu : u.publishers = s.publishers) (hfutures : u.futures = s.futures)
    (hpending : pending ⊆ p.pc.pending) :
    Serving B (u.setPc 0 (.next pending result)) { p with pc := .next pending result } := by
  apply h.setPc hu
  · intro x hx
    rw [PublisherPc.next_pending] at hx
    unfold Sent
    rw [hfutures]
    exact h.sent x (hpending hx)
  · intro id hid
    rw [PublisherPc.next_confirmed] at hid
    cases hid

theorem Sent.addFuture {x : OutboxEntry π × ℕ} (h : Sent B s x) (request : PublishRequest π) :
    Sent B (s.addFuture request) x := by
  obtain ⟨future, hf, hrest⟩ := h
  refine ⟨future, ?_, hrest⟩
  change (s.futures ++ [_])[x.2]? = some future
  rw [List.getElem?_append_left (List.getElem?_eq_some_iff.mp hf).1, hf]

theorem sent_addFuture (entry : OutboxEntry π) : Sent B (s.addFuture (p.publishRequest entry)) (entry, s.futures.length) := by
  refine ⟨_, List.getElem?_concat_length, rfl, nofun, nofun⟩

theorem serves {i : ℕ} {event : PublisherEvent} (h : Serving B s p) (hsize : 0 ≤ p.batchSize.toInt)
    (hu : undisturbed B s (.publisher i event) = true) (hstep : s.step (.publisher i event) = some t) :
    i = 0 ∧ ∃ pc, Serving B t { p with pc := pc } ∧ Serves B s t p pc := by
  obtain ⟨q, hq, hown⟩ := step_publisher hstep
  clear hstep
  obtain ⟨rfl, rfl⟩ := h.index hq
  refine ⟨rfl, ?_⟩
  unfold publisherStep at hown
  split at hown
  · next rank hpc =>
    unfold selectUnpublished at hown
    rw [if_neg (not_lt.mpr hsize), unlocked_alone h.alone (by rw [hpc]; rfl)] at hown
    obtain rfl := Option.some.inj hown
    refine ⟨_, h.bare rfl rfl rfl, .inl ⟨by rw [hpc]; rfl, rfl, rank, rfl⟩⟩
  · cases hu
  · cases hu
  · next rows hpc =>
    obtain rfl := Option.some.inj hown
    refine ⟨_, h.bare rfl rfl rfl, .inr ⟨by rw [hpc]; rfl, finish_congr _ ?_, Later.refl _⟩⟩
    intro id
    rw [hpc]
    simp [PublisherPc.inHand]
  · next todo pending hpc =>
    cases todo with
    | nil => cases hown
    | cons entry todo =>
      obtain rfl := Option.some.inj hown
      refine ⟨_, h.setPc rfl ?_ ?_, .inr ⟨by rw [hpc]; rfl, finish_congr _ ?_, Later.refl _⟩⟩
      · intro x hx
        rcases List.mem_append.mp hx with hx | hx
        · exact (h.sent x (by rw [hpc]; exact hx)).addFuture _
        · obtain rfl := List.mem_singleton.mp hx
          exact sent_addFuture entry
      · intro id hid
        cases hid
      · intro id
        rw [hpc]
        simp only [PublisherPc.inHand, List.map_append, List.map_cons, List.map_nil, List.mem_append,
          List.mem_cons, List.not_mem_nil, or_false]
        tauto
  · next todo pending hpc =>
    cases todo with
    | nil =>
      obtain rfl := Option.some.inj hown
      refine ⟨_, h.next rfl rfl (by rw [hpc]; exact List.Subset.refl _), .inr ⟨by rw [hpc]; rfl, finish_congr _ ?_,
        Later.refl _⟩⟩
      intro id
      rw [PublisherPc.next_inHand, hpc]
      rfl
    | cons entry todo => cases hown
  · cases hu
  · next pending result hpc =>
    cases pending with
    | nil => cases hown
    | cons head pending =>
      obtain ⟨entry, f⟩ := head
      have hrest : pending ⊆ q.pc.pending := by
        rw [hpc]
        exact List.subset_cons_self _ _
      obtain ⟨future, hf, -, hrejected, haccepted⟩ := h.sent (entry, f) (by rw [hpc]; exact List.mem_cons_self)
      simp only [waitReady, futureResult, hf, Option.bind_some] at hown
      split at hown
      · cases hown
      · next e he =>
        obtain rfl := Option.some.inj hown
        refine ⟨_, h.next rfl rfl hrest, .inr ⟨by rw [hpc]; rfl, ?_, Later.refl _⟩⟩
        refine finish_drop ?_ (.inl (hrejected e he))
        rw [PublisherPc.next_inHand, hpc]
        rfl
      · next he =>
        obtain rfl := Option.some.inj hown
        refine ⟨_, h.setPc rfl (fun x hx => h.sent x (hrest hx)) ?_, .inr ⟨by rw [hpc]; rfl, finish_congr _ ?_,
          Later.refl _⟩⟩
        · intro id hid
          obtain rfl := Option.some.inj hid
          exact haccepted he
        · intro id
          rw [hpc]
          rfl
  · cases hu
  · next entry pending result hpc =>
    have hrest : pending ⊆ q.pc.pending := by
      rw [hpc]
      exact List.Subset.refl _
    unfold updatePublished at hown
    rw [if_neg (by rw [unlocked_alone h.alone (by rw [hpc]; rfl)]; exact List.not_mem_nil)] at hown
    split_ifs at hown with hexists
    · obtain rfl := Option.some.inj hown
      refine ⟨_, h.setPc rfl (fun x hx => h.sent x (hrest hx)) ?_, .inr ⟨by rw [hpc]; rfl, finish_congr _ ?_,
        Later.refl _⟩⟩
      · intro id hid
        exact h.confirmed id (by rw [hpc]; exact hid)
      · intro id
        rw [hpc]
        rfl
    · obtain rfl := Option.some.inj hown
      refine ⟨_, h.next rfl rfl hrest, .inr ⟨by rw [hpc]; rfl, ?_, Later.refl _⟩⟩
      have hmarked : Marked s.rows entry.id := by
        intro row hrow hid
        exact absurd (List.any_eq_true.mpr ⟨row, hrow, decide_eq_true hid⟩) hexists
      refine finish_drop ?_ (.inr hmarked)
      rw [PublisherPc.next_inHand, hpc]
      rfl
  · next entry pending result outcome hpc =>
    cases outcome with
    | committed =>
      have hrest : pending ⊆ q.pc.pending := by
        rw [hpc]
        exact List.Subset.refl _
      obtain rfl := Option.some.inj hown
      refine ⟨_, h.next rfl rfl hrest, .inr ⟨by rw [hpc]; rfl, ?_, later_mark _ _⟩⟩
      refine finish_mark ?_ (h.confirmed entry.id (by rw [hpc]; rfl))
      rw [PublisherPc.next_inHand, hpc]
      rfl
    | failed e => cases hu
    | inDoubt e => cases hu
  · cases hu
  · cases hown

theorem Sent.setFuture {x : OutboxEntry π × ℕ} {f : ℕ} {future future' : PublishFuture π}
    {messages : List (PublishRequest π)} (h : Sent B s x) (hf : s.futures[f]? = some future)
    (hrequest : future'.request = future.request)
    (hrejected : ∀ e, future'.result = some (.error e) →
      future.result = some (.error e) ∨ B future.request.metadata.eventId = true)
    (haccepted : future'.result = some (.ok ()) →
      future.result = some (.ok ()) ∨ B future.request.metadata.eventId = false) :
    Sent B { s with futures := s.futures.set f future', messages := messages } x := by
  obtain ⟨old, hold, hid, hr, ha⟩ := h
  by_cases hx : f = x.2
  · subst hx
    obtain rfl := Option.some.inj (hf.symm.trans hold)
    refine ⟨future', List.getElem?_set_self (List.getElem?_eq_some_iff.mp hf).1, by rw [hrequest, hid], ?_, ?_⟩
    · intro e he
      rw [hid] at hrejected
      exact (hrejected e he).elim (hr e) id
    · intro he
      rw [hid] at haccepted
      exact (haccepted he).elim ha id
  · exact ⟨old, (List.getElem?_set_ne hx).trans hold, hid, hr, ha⟩

theorem serving_broker {f : ℕ} {event : BrokerEvent} (h : Serving B s p)
    (hu : undisturbed B s (.broker f event) = true) (hstep : s.step (.broker f event) = some t) :
    Serving B t p ∧ t.rows = s.rows := by
  obtain ⟨future, hf, hown⟩ := step_broker hstep
  obtain ⟨hrows, hpublishers⟩ := brokerStep_frame hown
  refine ⟨⟨hpublishers.trans h.alone, ?_, h.confirmed⟩, hrows⟩
  intro x hx
  have hsent := h.sent x hx
  cases event with
  | stored =>
    obtain rfl := Option.some.inj hown
    exact hsent.setFuture hf rfl (fun _ he => .inl he) .inl
  | acknowledged =>
    simp only [undisturbed, hf, Option.all_some, Bool.not_eq_true'] at hu
    simp only [brokerStep] at hown
    split_ifs at hown
    obtain rfl := Option.some.inj hown
    refine hsent.setFuture hf rfl ?_ (fun _ => .inr hu)
    intro e he
    cases he
  | rejected e =>
    simp only [undisturbed, hf, Option.all_some] at hu
    simp only [brokerStep] at hown
    split_ifs at hown
    obtain rfl := Option.some.inj hown
    refine hsent.setFuture hf rfl (fun _ _ => .inr hu) ?_
    intro he
    cases he

def AtBatch (B : OutboxEventId → Bool) (limit : ℕ) (base rows : List (OutboxRow π)) (pc : PublisherPc π) : Prop :=
  pc.isIdle = true ∧ rows = base ∨
    pc.isIdle = false ∧ Later base rows ∧ ∃ rank, finish B pc rows = batch B limit rank base

theorem returned_self {i : ℕ} {event : PublisherEvent} {q : OutboxPublisher π} (hevent : ∀ b, event ≠ .restarted b)
    (hq : t.publishers[i]? = some q) : (returned i (.publisher i event) t).isSome = q.pc.isIdle := by
  unfold returned
  split
  · next heq =>
    cases heq
    exact absurd rfl (hevent _)
  · next j other hne heq =>
    cases heq
    rw [if_pos rfl, hq]
    cases hpc : q.pc with
    | _ => simp [hpc, PublisherPc.isIdle]
  · next hne =>
    exact absurd rfl (hne i event)

theorem run_batches {actions : List (OutboxAction π)} {base : List (OutboxRow π)} {limit : ℕ} (h : Serving B s p)
    (hlimit : p.batchSize.toInt = limit) (hat : AtBatch B limit base s.rows p.pc)
    (hu : meets step (undisturbed B) s actions = true) (hrun : run step s actions = some t) :
    ∃ (ranks : List (OutboxEventId → ℕ)) (pc : PublisherPc π), ranks.length = (batchResults 0 s actions).length ∧
      AtBatch B limit (ranks.foldl (fun rows rank => batch B limit rank rows) base) t.rows pc := by
  induction actions generalizing s p base with
  | nil =>
    obtain rfl := Option.some.inj hrun
    exact ⟨[], p.pc, rfl, hat⟩
  | cons a actions ih =>
    obtain ⟨u, hstep, hrest⟩ := Option.bind_eq_some_iff.mp hrun
    obtain ⟨ha, hafter⟩ := meets_cons hu
    have hmeets := hafter u hstep
    simp only [batchResults, hstep]
    cases a with
    | insert entry createdAt => cases ha
    | insertCommitted k => cases ha
    | insertRolledBack k => cases ha
    | broker f event =>
      obtain ⟨hserving, hrows⟩ := serving_broker h ha hstep
      rw [← hrows] at hat
      exact ih hserving hlimit hat hmeets hrest
    | publisher i event =>
      obtain ⟨rfl, pc, hserving, hserves⟩ := serves h (by omega) ha hstep
      have hevent : ∀ b, event ≠ .restarted b := by
        rintro b rfl
        cases ha
      have hq : u.publishers[0]? = some { p with pc := pc } := by
        rw [hserving.alone]
        rfl
      have hreturned : (returned 0 (.publisher 0 event) u).isSome = pc.isIdle := returned_self hevent hq
      rcases hserves with ⟨hidle, hrows, rank, rfl⟩ | ⟨hbusy, hfinish, hlater⟩
      · have hbase : s.rows = base := by
          rcases hat with ⟨-, hbase⟩ | ⟨hbusy, -⟩
          · exact hbase
          · rw [hidle] at hbusy
            cases hbusy
        have hnone : returned 0 (.publisher 0 event) u = none := by
          rw [← Option.not_isSome_iff_eq_none, hreturned]
          exact Bool.false_ne_true
        rw [hnone]
        apply ih hserving hlimit (.inr ⟨rfl, ?_, rank, ?_⟩) hmeets hrest
        · rw [hrows, hbase]
          exact Later.refl base
        · rw [hrows, hbase, hlimit]
          unfold finish batch
          simp only [PublisherPc.inHand, entries, List.map_map]
          rfl
      · obtain ⟨hfrom, rank, hrank⟩ : Later base s.rows ∧ ∃ rank, finish B p.pc s.rows = batch B limit rank base := by
          rcases hat with ⟨hidle, -⟩ | ⟨-, hat⟩
          · rw [hidle] at hbusy
            cases hbusy
          · exact hat
        cases hpc : pc.isIdle with
        | true =>
          rw [hpc] at hreturned
          obtain ⟨result, hresult⟩ := Option.isSome_iff_exists.mp hreturned
          have hended : u.rows = batch B limit rank base := by
            rw [← hrank, ← hfinish, finish_idle _ hpc]
          obtain ⟨ranks, pc', hlength, hat'⟩ := ih hserving hlimit (.inl ⟨hpc, hended⟩) hmeets hrest
          refine ⟨rank :: ranks, pc', ?_, hat'⟩
          rw [hresult]
          simp [hlength]
        | false =>
          have hnone : returned 0 (.publisher 0 event) u = none := by
            rw [← Option.not_isSome_iff_eq_none, hreturned, hpc]
            exact Bool.false_ne_true
          rw [hnone]
          exact ih hserving hlimit (.inr ⟨hpc, hfrom.trans hlater, rank, hfinish.trans hrank⟩) hmeets hrest

theorem batchResults_append {i : ℕ} {actions later : List (OutboxAction π)} (h : run step s actions = some t) :
    batchResults i s (actions ++ later) = batchResults i s actions ++ batchResults i t later := by
  induction actions generalizing s with
  | nil =>
    cases h
    rfl
  | cons a actions ih =>
    obtain ⟨u, hu, hrest⟩ := Option.bind_eq_some_iff.mp h
    simp only [List.cons_append, batchResults, hu, ih hrest, List.append_assoc]

def Drives (B : OutboxEventId → Bool) (s t : OutboxState π) (n : ℕ) : Prop :=
  ∃ actions, run step s actions = some t ∧ meets step (undisturbed B) s actions = true ∧
    (batchResults 0 s actions).length = n

theorem Drives.refl (s : OutboxState π) : Drives B s s 0 := ⟨[], rfl, rfl, rfl⟩

theorem Drives.trans {u : OutboxState π} {m n : ℕ} (h : Drives B s t m) (h' : Drives B t u n) :
    Drives B s u (m + n) := by
  obtain ⟨actions, hrun, hmeets, hlength⟩ := h
  obtain ⟨later, hrun', hmeets', hlength'⟩ := h'
  refine ⟨actions ++ later, ?_, meets_append hrun hmeets hmeets', ?_⟩
  · rw [run_append, hrun, Option.bind_some, hrun']
  · rw [batchResults_append hrun, List.length_append, hlength, hlength']

theorem Drives.after {u : OutboxState π} {n : ℕ} (h : Drives B s t 0) (h' : Drives B t u n) : Drives B s u n := by
  have htrans := h.trans h'
  rwa [Nat.zero_add] at htrans

theorem drives_broker {f : ℕ} {event : BrokerEvent} (h : s.step (.broker f event) = some t)
    (hu : undisturbed B s (.broker f event) = true) : Drives B s t 0 := by
  refine ⟨[.broker f event], ?_, ?_, ?_⟩
  · rw [run_cons, h]
    rfl
  · rw [meets, hu, h]
    rfl
  · simp only [batchResults, h]
    rfl

theorem drives_publisher {event : PublisherEvent} {q : OutboxPublisher π} (halone : s.publishers = [p])
    (h : s.publisherStep 0 p event = some t) (hu : undisturbed B s (.publisher 0 event) = true)
    (hq : t.publishers = [q]) : Drives B s t (if q.pc.isIdle then 1 else 0) := by
  have hstep : s.step (.publisher 0 event) = some t := by
    simp only [step, halone]
    exact h
  refine ⟨[.publisher 0 event], ?_, ?_, ?_⟩
  · rw [run_cons, hstep]
    rfl
  · rw [meets, hu, hstep]
    rfl
  · have hevent : ∀ b, event ≠ .restarted b := by
      rintro b rfl
      cases hu
    have hget : t.publishers[0]? = some q := by
      rw [hq]
      rfl
    have hreturned := returned_self hevent hget
    simp only [batchResults, hstep, List.append_nil]
    cases hidle : q.pc.isIdle with
    | true =>
      rw [hidle] at hreturned
      obtain ⟨result, hresult⟩ := Option.isSome_iff_exists.mp hreturned
      rw [hresult]
      rfl
    | false =>
      rw [hidle] at hreturned
      have hnone : returned 0 (.publisher 0 event) t = none := by
        rw [← Option.not_isSome_iff_eq_none, hreturned]
        exact Bool.false_ne_true
      rw [hnone]
      rfl

def Answered (B : OutboxEventId → Bool) (futures : List (PublishFuture π)) (x : OutboxEntry π × ℕ) : Prop :=
  ∃ future, futures[x.2]? = some future ∧
    (B x.1.id = true ∧ (∃ e, future.result = some (.error e)) ∨ B x.1.id = false ∧ future.result = some (.ok ()))

theorem set_concat (futures : List (PublishFuture π)) (a b : PublishFuture π) :
    (futures ++ [a]).set futures.length b = futures ++ [b] := by
  simp

theorem answer_drives {futures : List (PublishFuture π)} {request : PublishRequest π}
    (hf : s.futures = futures ++ [⟨request, false, none⟩]) :
    ∃ t future, Drives B s t 0 ∧ t.publishers = s.publishers ∧ t.rows = s.rows ∧ t.futures = futures ++ [future] ∧
      (B request.metadata.eventId = true ∧ (∃ e, future.result = some (.error e)) ∨
        B request.metadata.eventId = false ∧ future.result = some (.ok ())) := by
  have hlast : s.futures[futures.length]? = some ⟨request, false, none⟩ := by
    rw [hf]
    exact List.getElem?_concat_length
  cases hB : B request.metadata.eventId with
  | true =>
    have hstep : s.step (.broker futures.length (.rejected (.eventPublisher .brokerRejected))) =
        some { s with futures := futures ++ [⟨request, false, some (.error (.eventPublisher .brokerRejected))⟩] } := by
      simp only [step, hlast, brokerStep, Option.isNone_none, if_true]
      rw [hf, set_concat]
    refine ⟨_, _, drives_broker hstep ?_, rfl, rfl, rfl, .inl ⟨rfl, _, rfl⟩⟩
    simp only [undisturbed, hlast]
    exact hB
  | false =>
    have hstore : s.step (.broker futures.length .stored) =
        some { s with
          futures := futures ++ [⟨request, true, none⟩]
          messages := s.messages ++ [request] } := by
      simp only [step, hlast, brokerStep]
      rw [hf, set_concat]
    have hstored : (futures ++ [(⟨request, true, none⟩ : PublishFuture π)])[futures.length]? =
        some ⟨request, true, none⟩ := List.getElem?_concat_length
    have hacknowledge : OutboxState.step { s with
          futures := futures ++ [⟨request, true, none⟩]
          messages := s.messages ++ [request] } (.broker futures.length .acknowledged) =
        some { s with
          futures := futures ++ [⟨request, true, some (.ok ())⟩]
          messages := s.messages ++ [request] } := by
      simp only [step, hstored, brokerStep, Option.isNone_none, and_self, if_true]
      rw [set_concat]
    have hfirst := drives_broker (B := B) hstore (by simp only [undisturbed, hlast, Option.all_some, hB, Bool.not_false])
    have hsecond := drives_broker (B := B) hacknowledge
      (by simp only [undisturbed, hstored, Option.all_some, hB, Bool.not_false])
    exact ⟨_, _, hfirst.after hsecond, rfl, rfl, rfl, .inr ⟨rfl, rfl⟩⟩

theorem Answered.append {futures later : List (PublishFuture π)} {x : OutboxEntry π × ℕ}
    (h : Answered B futures x) : Answered B (futures ++ later) x := by
  obtain ⟨future, hf, hanswer⟩ := h
  refine ⟨future, ?_, hanswer⟩
  rw [List.getElem?_append_left (List.getElem?_eq_some_iff.mp hf).1, hf]

theorem publish_drives {entry : OutboxEntry π} {todo : List (OutboxEntry π)} {pending : List (OutboxEntry π × ℕ)}
    (halone : s.publishers = [p]) (hpc : p.pc = .publishing (entry :: todo) pending)
    (hpending : ∀ x ∈ pending, Answered B s.futures x) :
    ∃ t f, Drives B s t 0 ∧ t.publishers = [{ p with pc := .publishing todo (pending ++ [(entry, f)]) }] ∧
      t.rows = s.rows ∧ ∀ x ∈ pending ++ [(entry, f)], Answered B t.futures x := by
  have hstep : s.publisherStep 0 p .publish = some ((s.addFuture (p.publishRequest entry)).setPc 0
      (.publishing todo (pending ++ [(entry, s.futures.length)]))) := by
    unfold publisherStep
    rw [hpc]
    rfl
  have hfirst := drives_publisher (B := B) halone hstep rfl (setPc_alone halone)
  have hadded : ((s.addFuture (p.publishRequest entry)).setPc 0
      (.publishing todo (pending ++ [(entry, s.futures.length)]))).futures =
      s.futures ++ [⟨p.publishRequest entry, false, none⟩] := rfl
  obtain ⟨t, future, hsecond, hpublishers, hrows, hfutures, hanswer⟩ := answer_drives (B := B) hadded
  refine ⟨t, s.futures.length, Drives.after hfirst hsecond, hpublishers.trans (setPc_alone halone), hrows, ?_⟩
  rw [hfutures]
  intro x hx
  rcases List.mem_append.mp hx with hx | hx
  · exact (hpending x hx).append
  · obtain rfl := List.mem_singleton.mp hx
    exact ⟨future, List.getElem?_concat_length, hanswer⟩

theorem publish_all {todo : List (OutboxEntry π)} {pending : List (OutboxEntry π × ℕ)}
    (halone : s.publishers = [p]) (hpc : p.pc = .publishing todo pending)
    (hpending : ∀ x ∈ pending, Answered B s.futures x) :
    ∃ t all, Drives B s t 0 ∧ t.publishers = [{ p with pc := .publishing [] all }] ∧ t.rows = s.rows ∧
      (∀ x ∈ all, Answered B t.futures x) ∧ all.map Prod.fst = pending.map Prod.fst ++ todo := by
  induction todo generalizing s p pending with
  | nil =>
    refine ⟨s, pending, Drives.refl s, ?_, rfl, hpending, (List.append_nil _).symm⟩
    rw [halone, ← hpc]
  | cons entry todo ih =>
    obtain ⟨u, f, hfirst, hu, hrows, hanswered⟩ := publish_drives halone hpc hpending
    obtain ⟨t, all, hrest, ht, hrows', hanswered', hall⟩ := ih hu rfl hanswered
    refine ⟨t, all, hfirst.after hrest, ht, hrows'.trans hrows, hanswered', ?_⟩
    rw [hall]
    simp

theorem mark_drives {entry : OutboxEntry π} {pending : List (OutboxEntry π × ℕ)} {result : BatchResult}
    (halone : s.publishers = [p]) (hpc : p.pc = .marking entry pending result) :
    ∃ t last, Drives B s t (if (PublisherPc.next pending last).isIdle then 1 else 0) ∧
      t.publishers = [{ p with pc := .next pending last }] ∧ t.futures = s.futures ∧
      t.rows = markOutboxPublished entry.id s.rows := by
  have hunlocked : entry.id ∉ s.locked := by
    rw [unlocked_alone halone (by rw [hpc]; rfl)]
    exact List.not_mem_nil
  have hupdate : s.publisherStep 0 p .update = s.updatePublished 0 entry pending result := by
    unfold publisherStep
    rw [hpc]
  unfold updatePublished at hupdate
  rw [if_neg hunlocked] at hupdate
  by_cases hexists : s.rows.any (fun row => row.id = entry.id) = true
  · rw [if_pos hexists] at hupdate
    have hfirst : Drives B s (s.setPc 0 (.updating entry pending result)) 0 :=
      drives_publisher halone hupdate rfl (setPc_alone halone)
    have halone' : (s.setPc 0 (.updating entry pending result)).publishers =
        [{ p with pc := .updating entry pending result }] := setPc_alone halone
    have hfinish : (s.setPc 0 (.updating entry pending result)).publisherStep 0
        { p with pc := .updating entry pending result } (.markFinished .committed) =
        some (((s.setPc 0 (.updating entry pending result)).markAsPublished entry.id).setPc 0
          (.next pending { result with published := result.published + 1 })) := rfl
    have hmarked : ((s.setPc 0 (.updating entry pending result)).markAsPublished entry.id).publishers =
        [{ p with pc := .updating entry pending result }] := halone'
    have hended : (((s.setPc 0 (.updating entry pending result)).markAsPublished entry.id).setPc 0
        (.next pending { result with published := result.published + 1 })).publishers =
        [{ p with pc := .next pending { result with published := result.published + 1 } }] :=
      setPc_alone (p := { p with pc := .updating entry pending result }) hmarked
    exact ⟨_, _, hfirst.after (drives_publisher halone' hfinish rfl hended), hended, rfl, rfl⟩
  · rw [if_neg hexists] at hupdate
    refine ⟨_, result, drives_publisher halone hupdate rfl (setPc_alone halone), setPc_alone halone, rfl, ?_⟩
    refine (markOutboxPublished_of_marked ?_).symm
    intro row hrow hid
    exact absurd (List.any_eq_true.mpr ⟨row, hrow, decide_eq_true hid⟩) hexists

theorem await_drives {x : OutboxEntry π × ℕ} {pending : List (OutboxEntry π × ℕ)} {result : BatchResult}
    (halone : s.publishers = [p]) (hpc : p.pc = .awaiting (x :: pending) result) (hx : Answered B s.futures x) :
    ∃ t last, Drives B s t (if (PublisherPc.next pending last).isIdle then 1 else 0) ∧
      t.publishers = [{ p with pc := .next pending last }] ∧ t.futures = s.futures ∧
      t.rows = if B x.1.id then s.rows else markOutboxPublished x.1.id s.rows := by
  obtain ⟨entry, f⟩ := x
  obtain ⟨future, hf, ⟨hB, e, he⟩ | ⟨hB, he⟩⟩ := hx
  · have hready : s.publisherStep 0 p .ready = some (s.setPc 0 (.next pending result)) := by
      unfold publisherStep
      rw [hpc]
      simp only [waitReady, futureResult, hf, Option.bind_some, he]
    refine ⟨_, result, drives_publisher halone hready rfl (setPc_alone halone), setPc_alone halone, rfl, ?_⟩
    rw [if_pos hB]
    rfl
  · have hready : s.publisherStep 0 p .ready = some (s.setPc 0 (.marking entry pending result)) := by
      unfold publisherStep
      rw [hpc]
      simp only [waitReady, futureResult, hf, Option.bind_some, he]
    have hfirst := drives_publisher (B := B) halone hready rfl (setPc_alone halone)
    obtain ⟨t, last, hrest, ht, hfutures, hrows⟩ := mark_drives (B := B)
      (s := s.setPc 0 (.marking entry pending result)) (setPc_alone halone) rfl
    refine ⟨t, last, Drives.after hfirst hrest, ht, hfutures, ?_⟩
    rw [if_neg (by simp [hB])]
    exact hrows

theorem markRows_filter_cons (id : OutboxEventId) (ids : List OutboxEventId) (rows : List (OutboxRow π)) :
    markRows ((id :: ids).filter (fun id => !B id)) rows =
      markRows (ids.filter (fun id => !B id)) (if B id then rows else markOutboxPublished id rows) := by
  cases hB : B id with
  | true => rw [List.filter_cons_of_neg (by simp [hB]), if_pos rfl]
  | false => rw [List.filter_cons_of_pos (by simp [hB]), markRows_cons, if_neg Bool.false_ne_true]

theorem await_all {pending : List (OutboxEntry π × ℕ)} {x : OutboxEntry π × ℕ} {result : BatchResult}
    (halone : s.publishers = [p]) (hpc : p.pc = .awaiting (x :: pending) result)
    (hanswered : ∀ y ∈ x :: pending, Answered B s.futures y) :
    ∃ t last, Drives B s t 1 ∧ t.publishers = [{ p with pc := .idle last }] ∧
      t.rows = markRows (((x :: pending).map (fun y => y.1.id)).filter (fun id => !B id)) s.rows := by
  induction pending generalizing s p x result with
  | nil =>
    obtain ⟨u, last, hfirst, hu, -, hrows⟩ := await_drives halone hpc (hanswered x List.mem_cons_self)
    refine ⟨u, last, hfirst, hu, ?_⟩
    rw [List.map_cons, markRows_filter_cons, ← hrows]
    exact (markRows_nil u.rows).symm
  | cons y pending ih =>
    obtain ⟨u, last, hfirst, hu, hfutures, hrows⟩ := await_drives halone hpc (hanswered x List.mem_cons_self)
    have hanswered' : ∀ z ∈ y :: pending, Answered B u.futures z := by
      intro z hz
      rw [hfutures]
      exact hanswered z (List.mem_cons_of_mem _ hz)
    obtain ⟨t, last', hrest, ht, hrows'⟩ := ih hu rfl hanswered'
    refine ⟨t, last', Drives.after hfirst hrest, ht, ?_⟩
    rw [List.map_cons, markRows_filter_cons, ← hrows]
    exact hrows'

theorem batch_drives {limit : ℕ} {last : BatchResult} (halone : s.publishers = [p]) (hidle : p.pc = .idle last)
    (hlimit : p.batchSize.toInt = limit) (rank : OutboxEventId → ℕ) :
    ∃ t last', Drives B s t 1 ∧ t.publishers = [{ p with pc := .idle last' }] ∧
      t.rows = batch B limit rank s.rows := by
  have hselect : s.publisherStep 0 p (.select rank) =
      some (s.setPc 0 (.fetching (entries (selectUnpublishedOutbox rank [] limit s.rows)))) := by
    unfold publisherStep
    rw [hidle]
    simp only [selectUnpublished]
    rw [if_neg (by omega), unlocked_alone halone (by rw [hidle]; rfl), hlimit]
    rfl
  generalize hfetched : entries (selectUnpublishedOutbox rank [] limit s.rows) = fetched at hselect
  have hfetching : (s.setPc 0 (.fetching fetched)).publishers = [{ p with pc := .fetching fetched }] := setPc_alone halone
  have hselected : Drives B s (s.setPc 0 (.fetching fetched)) 0 := drives_publisher halone hselect rfl hfetching
  have hpublishing : ((s.setPc 0 (.fetching fetched)).setPc 0 (.publishing fetched [])).publishers =
      [{ p with pc := .publishing fetched [] }] := setPc_alone (p := { p with pc := .fetching fetched }) hfetching
  have hcommit : (s.setPc 0 (.fetching fetched)).publisherStep 0 { p with pc := .fetching fetched } .fetchCommitted =
      some ((s.setPc 0 (.fetching fetched)).setPc 0 (.publishing fetched [])) := rfl
  have hcommitted : Drives B (s.setPc 0 (.fetching fetched)) _ 0 := drives_publisher hfetching hcommit rfl hpublishing
  obtain ⟨u, all, hpublished, hu, hrows, hanswered, hall⟩ :=
    publish_all (B := B) (p := { p with pc := .publishing fetched [] }) hpublishing rfl nofun
  have hfinish : u.publisherStep 0 { p with pc := .publishing [] all } .publishFinished =
      some (u.setPc 0 (.next all { fetched := all.length })) := rfl
  have hnext : (u.setPc 0 (.next all { fetched := all.length })).publishers =
      [{ p with pc := .next all { fetched := all.length } }] :=
    setPc_alone (p := { p with pc := .publishing [] all }) hu
  have hfinished := drives_publisher (B := B) hu hfinish rfl hnext
  have hids : (selectUnpublishedOutbox rank [] limit s.rows).map (fun row => row.id) = all.map (fun y => y.1.id) := by
    have hentries := congrArg (List.map OutboxEntry.id) (hall.trans hfetched.symm)
    rw [entries, List.map_map, List.map_map] at hentries
    exact hentries.symm
  have hbatch : batch B limit rank s.rows =
      markRows ((all.map (fun y => y.1.id)).filter (fun id => !B id)) u.rows := by
    unfold batch
    rw [hids, hrows]
    rfl
  rw [hbatch]
  have hbefore := (hselected.after hcommitted).after hpublished
  cases all with
  | nil => exact ⟨_, _, hbefore.after hfinished, hnext, (markRows_nil u.rows).symm⟩
  | cons x pending =>
    obtain ⟨t, last', hrest, ht, hmarked⟩ := await_all (B := B) hnext rfl hanswered
    exact ⟨t, last', Drives.after (Drives.after hbefore hfinished) hrest, ht, hmarked⟩

end OutboxState

end LiquidPetProject.Outbox
