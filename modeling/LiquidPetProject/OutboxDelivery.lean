import LiquidPetProject.OutboxSteps

namespace LiquidPetProject.Outbox

open Models Messaging Repository Transitions

variable {π : Type}

namespace OutboxState

structure Grows (s t : OutboxState π) : Prop where
  known : s.known <+: t.known
  requested : s.requested <+: t.requested
  held : s.held <+: t.held
  published : ∀ row ∈ s.rows, ∃ row' ∈ t.rows,
    row'.toOutboxEntry = row.toOutboxEntry ∧ (row.published = true → row'.published = true)

theorem Grows.refl (s : OutboxState π) : Grows s s :=
  ⟨List.prefix_rfl, List.prefix_rfl, List.prefix_rfl, fun row hrow => ⟨row, hrow, rfl, id⟩⟩

theorem Grows.trans {s t u : OutboxState π} (h : Grows s t) (h' : Grows t u) : Grows s u := by
  refine ⟨h.known.trans h'.known, h.requested.trans h'.requested, h.held.trans h'.held, ?_⟩
  intro row hrow
  obtain ⟨row', hrow', he', hp'⟩ := h.published row hrow
  obtain ⟨row'', hrow'', he'', hp''⟩ := h'.published row' hrow'
  exact ⟨row'', hrow'', he''.trans he', fun hp => hp'' (hp' hp)⟩

theorem grows_setPc (s : OutboxState π) (i : ℕ) (pc : PublisherPc π) : Grows s (s.setPc i pc) :=
  ⟨List.prefix_rfl, List.prefix_rfl, List.prefix_rfl, fun row hrow => ⟨row, hrow, rfl, id⟩⟩

theorem grows_inserts (s : OutboxState π) (inserts : List (OutboxRow π)) : Grows s { s with inserts := inserts } :=
  ⟨List.prefix_rfl, List.prefix_rfl, List.prefix_rfl, fun row hrow => ⟨row, hrow, rfl, id⟩⟩

theorem requested_addFuture (s : OutboxState π) (request : PublishRequest π) :
    (s.addFuture request).requested = s.requested ++ [entryOf request] :=
  List.map_append

theorem grows_addFuture (s : OutboxState π) (request : PublishRequest π) : Grows s (s.addFuture request) := by
  refine ⟨List.prefix_rfl, ?_, List.prefix_rfl, fun row hrow => ⟨row, hrow, rfl, id⟩⟩
  rw [requested_addFuture]
  exact List.prefix_append _ _

theorem known_markAsPublished (s : OutboxState π) (id : OutboxEventId) : (s.markAsPublished id).known = s.known :=
  entries_markOutboxPublished id s.rows

theorem grows_markAsPublished (s : OutboxState π) (id : OutboxEventId) : Grows s (s.markAsPublished id) := by
  refine ⟨?_, List.prefix_rfl, List.prefix_rfl, ?_⟩
  · rw [known_markAsPublished]
  · intro row hrow
    refine ⟨_, List.mem_map_of_mem hrow, ?_⟩
    split_ifs
    · exact ⟨rfl, fun _ => rfl⟩
    · exact ⟨rfl, fun hp => hp⟩

theorem known_addRow (s : OutboxState π) (row : OutboxRow π) :
    (s.addRow row).known = s.known ++ [row.toOutboxEntry] :=
  List.map_append

theorem grows_addRow (s : OutboxState π) (row : OutboxRow π) : Grows s (s.addRow row) := by
  refine ⟨?_, List.prefix_rfl, List.prefix_rfl, ?_⟩
  · rw [known_addRow]
    exact List.prefix_append _ _
  · intro old hold
    exact ⟨old, List.mem_append_left _ hold, rfl, fun hp => hp⟩

def Paired (s : OutboxState π) (pending : List (OutboxEntry π × ℕ)) : Prop :=
  ∀ x ∈ pending, s.requested[x.2]? = some x.1

def PcSound (s : OutboxState π) : PublisherPc π → Prop
  | .idle _ => True
  | .fetching rows => rows ⊆ s.known
  | .publishing todo pending => todo ⊆ s.known ∧ s.Paired pending
  | .awaiting pending _ => s.Paired pending
  | .marking entry pending _ => entry ∈ s.held ∧ s.Paired pending
  | .updating entry pending _ => entry ∈ s.held ∧ s.Paired pending

theorem Paired.grow {s t : OutboxState π} {pending : List (OutboxEntry π × ℕ)} (h : s.Paired pending)
    (hg : Grows s t) : t.Paired pending := by
  intro x hx
  have hs := h x hx
  obtain ⟨tail, ht⟩ := hg.requested
  rw [← ht, List.getElem?_append_left (List.getElem?_eq_some_iff.mp hs).1]
  exact hs

theorem PcSound.grow {s t : OutboxState π} {pc : PublisherPc π} (h : s.PcSound pc) (hg : Grows s t) :
    t.PcSound pc := by
  cases pc with
  | idle last => trivial
  | fetching rows => exact List.Subset.trans h hg.known.subset
  | publishing todo pending => exact ⟨List.Subset.trans h.1 hg.known.subset, h.2.grow hg⟩
  | awaiting pending result => exact Paired.grow h hg
  | marking entry pending result => exact ⟨hg.held.subset h.1, h.2.grow hg⟩
  | updating entry pending result => exact ⟨hg.held.subset h.1, h.2.grow hg⟩

theorem pcSound_next {s : OutboxState π} {pending : List (OutboxEntry π × ℕ)} (result : BatchResult)
    (h : s.Paired pending) : s.PcSound (.next pending result) := by
  cases pending with
  | nil => trivial
  | cons head tail => exact h

structure Recorded (s : OutboxState π) : Prop where
  ids : (s.rows.map (fun row => row.id)).Nodup
  inserted : ∀ row ∈ s.inserts, row.published = false
  published : ∀ row ∈ s.rows, row.published = true → row.toOutboxEntry ∈ s.held
  held : s.held ⊆ s.known
  requested : s.requested ⊆ s.known
  stored : ∀ future ∈ s.futures, future.stored = true → entryOf future.request ∈ s.held
  acknowledged : ∀ future ∈ s.futures, future.result = some (.ok ()) → future.stored = true

structure Sound (s : OutboxState π) : Prop where
  recorded : s.Recorded
  pcs : ∀ p ∈ s.publishers, s.PcSound p.pc

theorem Recorded.setPc {s : OutboxState π} (h : s.Recorded) (i : ℕ) (pc : PublisherPc π) :
    (s.setPc i pc).Recorded :=
  ⟨h.ids, h.inserted, h.published, h.held, h.requested, h.stored, h.acknowledged⟩

theorem Recorded.addFuture {s : OutboxState π} (h : s.Recorded) {request : PublishRequest π}
    (hr : entryOf request ∈ s.known) : (s.addFuture request).Recorded := by
  refine ⟨h.ids, h.inserted, h.published, h.held, ?_, ?_, ?_⟩
  · rw [requested_addFuture]
    intro entry he
    rcases List.mem_append.mp he with he | he
    · exact h.requested he
    · obtain rfl := List.mem_singleton.mp he
      exact hr
  · intro future hf hstored
    rcases List.mem_append.mp hf with hf | hf
    · exact h.stored future hf hstored
    · obtain rfl := List.mem_singleton.mp hf
      cases hstored
  · intro future hf hok
    rcases List.mem_append.mp hf with hf | hf
    · exact h.acknowledged future hf hok
    · obtain rfl := List.mem_singleton.mp hf
      cases hok

theorem Recorded.row_of_id {s : OutboxState π} (h : s.Recorded) {row : OutboxRow π} {entry : OutboxEntry π}
    (hrow : row ∈ s.rows) (he : entry ∈ s.known) (hid : row.id = entry.id) : row.toOutboxEntry = entry := by
  obtain ⟨other, hother, rfl⟩ := List.mem_map.mp he
  rw [List.inj_on_of_nodup_map h.ids hrow hother hid]

theorem ids_markAsPublished (s : OutboxState π) (id : OutboxEventId) :
    (s.markAsPublished id).rows.map (fun row => row.id) = s.rows.map (fun row => row.id) := by
  have hk := congrArg (List.map OutboxEntry.id) (known_markAsPublished s id)
  simpa only [known, entries, List.map_map, Function.comp_def] using hk

theorem Recorded.markAsPublished {s : OutboxState π} (h : s.Recorded) {entry : OutboxEntry π}
    (he : entry ∈ s.held) : (s.markAsPublished entry.id).Recorded := by
  refine ⟨?_, h.inserted, ?_, ?_, ?_, h.stored, h.acknowledged⟩
  · rw [ids_markAsPublished]
    exact h.ids
  · intro row hrow hp
    obtain ⟨old, hold, hentry, hpub⟩ := mem_markOutboxPublished hrow
    rw [hentry]
    rcases hpub hp with hold' | hid
    · exact h.published old hold hold'
    · have hid' : old.id = entry.id := by rw [← hid, hentry]
      rw [h.row_of_id hold (h.held he) hid']
      exact he
  · rw [known_markAsPublished]
    exact h.held
  · rw [known_markAsPublished]
    exact h.requested

theorem Recorded.addRow {s : OutboxState π} (h : s.Recorded) {row : OutboxRow π}
    (hid : row.id ∉ s.rows.map (fun r => r.id)) (hp : row.published = false) : (s.addRow row).Recorded := by
  have hsub : s.known ⊆ (s.addRow row).known := (grows_addRow s row).known.subset
  refine ⟨?_, h.inserted, ?_, List.Subset.trans h.held hsub, List.Subset.trans h.requested hsub, h.stored,
    h.acknowledged⟩
  · unfold OutboxState.addRow
    rw [List.map_append, List.nodup_append]
    refine ⟨h.ids, List.nodup_singleton _, ?_⟩
    intro a ha b hb
    obtain rfl := List.mem_singleton.mp hb
    rintro rfl
    exact hid ha
  · intro r hr hrp
    rcases List.mem_append.mp hr with hr | hr
    · exact h.published r hr hrp
    · obtain rfl := List.mem_singleton.mp hr
      rw [hp] at hrp
      cases hrp

theorem Paired.append {s : OutboxState π} {pending : List (OutboxEntry π × ℕ)} (h : s.Paired pending)
    (p : OutboxPublisher π) (entry : OutboxEntry π) :
    (s.addFuture (p.publishRequest entry)).Paired (pending ++ [(entry, s.futures.length)]) := by
  intro x hx
  rcases List.mem_append.mp hx with hx | hx
  · exact h.grow (grows_addFuture s _) x hx
  · obtain rfl := List.mem_singleton.mp hx
    rw [requested_addFuture, entryOf_publishRequest]
    have hlen : s.futures.length = s.requested.length := (List.length_map _).symm
    simp [hlen]

theorem Recorded.held_of_succeeded {s : OutboxState π} (h : s.Recorded) {entry : OutboxEntry π} {f : ℕ}
    {future : PublishFuture π} (hpair : s.requested[f]? = some entry) (hf : s.futures[f]? = some future)
    (hok : future.result = some (.ok ())) : entry ∈ s.held := by
  have hmem : future ∈ s.futures := List.mem_of_getElem? hf
  have hentry : entryOf future.request = entry := by
    unfold OutboxState.requested at hpair
    rw [List.getElem?_map, hf] at hpair
    exact Option.some.inj hpair
  rw [← hentry]
  exact h.stored future hmem (h.acknowledged future hmem hok)

theorem Moves.sound {s u : OutboxState π} {p : OutboxPublisher π} {pc : PublisherPc π} (hm : Moves s p u pc)
    (h : s.Recorded) (hp : s.PcSound p.pc) :
    u.Recorded ∧ u.PcSound pc ∧ Grows s u ∧ u.publishers = s.publishers := by
  cases hm with
  | stop last => exact ⟨h, trivial, Grows.refl s, rfl⟩
  | select rank limit =>
    refine ⟨h, ?_, Grows.refl s, rfl⟩
    intro entry he
    obtain ⟨row, hrow, rfl⟩ := List.mem_map.mp he
    exact List.mem_map_of_mem (mem_selectUnpublishedOutbox hrow).1
  | fetched hpc =>
    rw [hpc] at hp
    exact ⟨h, ⟨hp, fun x hx => by cases hx⟩, Grows.refl s, rfl⟩
  | publish hpc =>
    rw [hpc] at hp
    obtain ⟨hentry, htodo⟩ := List.cons_subset.mp hp.1
    exact ⟨h.addFuture hentry, ⟨htodo, hp.2.append p _⟩, grows_addFuture s _, rfl⟩
  | published result hpc =>
    rw [hpc] at hp
    exact ⟨h, pcSound_next result hp.2, Grows.refl s, rfl⟩
  | skip hpc =>
    rw [hpc] at hp
    exact ⟨h, pcSound_next _ (fun x hx => hp x (List.mem_cons_of_mem _ hx)), Grows.refl s, rfl⟩
  | succeed hpc hf hok =>
    rw [hpc] at hp
    have hheld := h.held_of_succeeded (hp _ List.mem_cons_self) hf hok
    exact ⟨h, ⟨hheld, fun x hx => hp x (List.mem_cons_of_mem _ hx)⟩, Grows.refl s, rfl⟩
  | unmarked hpc =>
    rw [hpc] at hp
    exact ⟨h, pcSound_next _ hp.2, Grows.refl s, rfl⟩
  | update hpc =>
    rw [hpc] at hp
    exact ⟨h, hp, Grows.refl s, rfl⟩
  | unapplied hpc =>
    rw [hpc] at hp
    exact ⟨h, pcSound_next _ hp.2, Grows.refl s, rfl⟩
  | applied last hpc =>
    rw [hpc] at hp
    have hg := grows_markAsPublished s
    exact ⟨h.markAsPublished hp.1, pcSound_next _ (hp.2.grow (hg _)), hg _, rfl⟩
  | abandoned hpc =>
    rw [hpc] at hp
    exact ⟨h.markAsPublished hp.1, trivial, grows_markAsPublished s _, rfl⟩

theorem mem_setPc {s : OutboxState π} {i : ℕ} {pc : PublisherPc π} {p : OutboxPublisher π}
    (h : p ∈ (s.setPc i pc).publishers) : p ∈ s.publishers ∨ p.pc = pc := by
  obtain ⟨j, hj⟩ := List.mem_iff_getElem?.mp h
  unfold setPc at hj
  rw [List.getElem?_modify] at hj
  obtain ⟨q, hq, hqp⟩ := Option.map_eq_some_iff.mp hj
  split_ifs at hqp
  · exact .inr (hqp ▸ rfl)
  · exact .inl (List.mem_of_getElem? (hq.trans (congrArg some hqp)))

theorem publisherStep_sound {s t : OutboxState π} {i : ℕ} {p : OutboxPublisher π} {event : PublisherEvent}
    (hs : s.Sound) (hp : p ∈ s.publishers) (h : s.publisherStep i p event = some t) : t.Sound ∧ Grows s t := by
  obtain ⟨u, pc, rfl, hm⟩ := publisherStep_moves h
  obtain ⟨hrecorded, hpc, hg, hsame⟩ := hm.sound hs.recorded (hs.pcs p hp)
  refine ⟨⟨hrecorded.setPc i pc, ?_⟩, hg.trans (grows_setPc u i pc)⟩
  intro q hq
  apply PcSound.grow _ (grows_setPc u i pc)
  rcases mem_setPc hq with hq | rfl
  · rw [hsame] at hq
    exact (hs.pcs q hq).grow hg
  · exact hpc

theorem requested_set {s : OutboxState π} {f : ℕ} {future future' : PublishFuture π}
    (hf : s.futures[f]? = some future) (hreq : future'.request = future.request) :
    (s.futures.set f future').map (fun x => entryOf x.request) = s.requested := by
  have hs : (s.futures.map (fun x => entryOf x.request))[f]? = some (entryOf future'.request) := by
    rw [List.getElem?_map, hf, hreq]
    rfl
  obtain ⟨hlt, hget⟩ := List.getElem?_eq_some_iff.mp hs
  rw [List.map_set, ← hget]
  exact List.set_getElem_self hlt

theorem Recorded.setFuture {s : OutboxState π} (h : s.Recorded) {f : ℕ} {future future' : PublishFuture π}
    {messages : List (PublishRequest π)} (hf : s.futures[f]? = some future)
    (hreq : future'.request = future.request) (hpre : s.messages <+: messages)
    (hnew : ∀ m ∈ messages, m ∈ s.messages ∨ m = future.request)
    (hstored : future'.stored = true → entryOf future.request ∈ messages.map entryOf)
    (hok : future'.result = some (.ok ()) → future'.stored = true) :
    Recorded { s with futures := s.futures.set f future', messages := messages } := by
  have hsub : s.held ⊆ messages.map entryOf := (hpre.map entryOf).subset
  refine ⟨h.ids, h.inserted, fun row hrow hp => hsub (h.published row hrow hp), ?_, ?_, ?_, ?_⟩
  · intro entry he
    obtain ⟨m, hm, rfl⟩ := List.mem_map.mp he
    rcases hnew m hm with hm | rfl
    · exact h.held (List.mem_map_of_mem hm)
    · exact h.requested (List.mem_map_of_mem (List.mem_of_getElem? hf))
  · have hsame := requested_set hf hreq
    intro entry he
    exact h.requested (hsame ▸ he)
  · intro other hother hs
    rcases List.mem_or_eq_of_mem_set hother with hmem | rfl
    · exact hsub (h.stored other hmem hs)
    · rw [hreq]
      exact hstored hs
  · intro other hother hs
    rcases List.mem_or_eq_of_mem_set hother with hmem | rfl
    · exact h.acknowledged other hmem hs
    · exact hok hs

theorem grows_setFuture {s : OutboxState π} {f : ℕ} {future future' : PublishFuture π}
    {messages : List (PublishRequest π)} (hf : s.futures[f]? = some future)
    (hreq : future'.request = future.request) (hpre : s.messages <+: messages) :
    Grows s { s with futures := s.futures.set f future', messages := messages } := by
  refine ⟨List.prefix_rfl, ?_, hpre.map entryOf, fun row hrow => ⟨row, hrow, rfl, id⟩⟩
  have hsame := requested_set hf hreq
  exact ⟨[], by rw [List.append_nil]; exact hsame.symm⟩

theorem brokerStep_recorded {s t : OutboxState π} {f : ℕ} {future : PublishFuture π} {event : BrokerEvent}
    (hs : s.Recorded) (hf : s.futures[f]? = some future) (h : s.brokerStep f future event = some t) :
    t.Recorded ∧ Grows s t := by
  have hmem : future ∈ s.futures := List.mem_of_getElem? hf
  cases event with
  | stored =>
    obtain rfl := Option.some.inj h
    have hpre : s.messages <+: s.messages ++ [future.request] := List.prefix_append _ _
    refine ⟨hs.setFuture hf rfl hpre ?_ ?_ (fun _ => rfl), grows_setFuture hf rfl hpre⟩
    · intro m hm
      exact (List.mem_append.mp hm).imp_right List.mem_singleton.mp
    · intro _
      exact List.mem_map_of_mem (List.mem_append_right _ List.mem_cons_self)
  | acknowledged =>
    simp only [brokerStep] at h
    split_ifs at h with hready
    obtain rfl := Option.some.inj h
    refine ⟨hs.setFuture hf rfl List.prefix_rfl (fun m hm => .inl hm) ?_ (fun _ => hready.1),
      grows_setFuture hf rfl List.prefix_rfl⟩
    exact hs.stored future hmem
  | rejected e =>
    simp only [brokerStep] at h
    split_ifs at h
    obtain rfl := Option.some.inj h
    refine ⟨hs.setFuture hf rfl List.prefix_rfl (fun m hm => .inl hm) (hs.stored future hmem) ?_,
      grows_setFuture hf rfl List.prefix_rfl⟩
    intro hok
    cases hok

theorem Sound.keepPublishers {s t : OutboxState π} (hs : s.Sound) (ht : t.Recorded) (hg : Grows s t)
    (hsame : t.publishers = s.publishers) : t.Sound := by
  refine ⟨ht, ?_⟩
  rw [hsame]
  intro p hp
  exact (hs.pcs p hp).grow hg

theorem step_sound {s t : OutboxState π} {a : OutboxAction π} (hs : s.Sound) (h : s.step a = some t) :
    t.Sound ∧ Grows s t := by
  have hr := hs.recorded
  cases a with
  | insert entry createdAt =>
    obtain rfl := Option.some.inj h
    have hg := grows_inserts s (s.inserts ++ [insertOutboxEvent entry createdAt])
    refine ⟨hs.keepPublishers ⟨hr.ids, ?_, hr.published, hr.held, hr.requested, hr.stored, hr.acknowledged⟩ hg rfl, hg⟩
    intro row hrow
    rcases List.mem_append.mp hrow with hrow | hrow
    · exact hr.inserted row hrow
    · obtain rfl := List.mem_singleton.mp hrow
      rfl
  | insertCommitted k =>
    obtain ⟨row, hk, hid, rfl⟩ := step_insertCommitted h
    have hin : Recorded { s with inserts := s.inserts.eraseIdx k } :=
      ⟨hr.ids, fun r hmem => hr.inserted r (List.mem_of_mem_eraseIdx hmem), hr.published, hr.held, hr.requested,
        hr.stored, hr.acknowledged⟩
    have hg := (grows_inserts s (s.inserts.eraseIdx k)).trans (grows_addRow _ row)
    exact ⟨hs.keepPublishers (hin.addRow hid (hr.inserted row (List.mem_of_getElem? hk))) hg rfl, hg⟩
  | insertRolledBack k =>
    obtain rfl := Option.some.inj h
    have hg := grows_inserts s (s.inserts.eraseIdx k)
    refine ⟨hs.keepPublishers ⟨hr.ids, ?_, hr.published, hr.held, hr.requested, hr.stored, hr.acknowledged⟩ hg rfl, hg⟩
    exact fun r hmem => hr.inserted r (List.mem_of_mem_eraseIdx hmem)
  | publisher i event =>
    obtain ⟨p, hp, hstep⟩ := step_publisher h
    exact publisherStep_sound hs (List.mem_of_getElem? hp) hstep
  | broker f event =>
    obtain ⟨future, hf, hstep⟩ := step_broker h
    obtain ⟨hrecorded, hg⟩ := brokerStep_recorded hr hf hstep
    exact ⟨hs.keepPublishers hrecorded hg (brokerStep_frame hstep).2, hg⟩

theorem Moves.known {s u : OutboxState π} {p : OutboxPublisher π} {pc : PublisherPc π} (hm : Moves s p u pc) :
    u.known = s.known := by
  cases hm with
  | applied last h | abandoned h => exact known_markAsPublished s _
  | _ => rfl

theorem publisher_known {s t : OutboxState π} {i : ℕ} {event : PublisherEvent}
    (h : s.step (.publisher i event) = some t) : t.known = s.known := by
  obtain ⟨p, -, hstep⟩ := step_publisher h
  obtain ⟨u, pc, rfl, hm⟩ := publisherStep_moves hstep
  exact hm.known

theorem broker_known {s t : OutboxState π} {f : ℕ} {event : BrokerEvent} (h : s.step (.broker f event) = some t) :
    t.known = s.known := by
  obtain ⟨future, -, hstep⟩ := step_broker h
  unfold known
  rw [(brokerStep_frame hstep).1]

theorem Sound.addRow {s : OutboxState π} (hs : s.Sound) {row : OutboxRow π}
    (hid : row.id ∉ s.rows.map (fun r => r.id)) (hp : row.published = false) : (s.addRow row).Sound :=
  hs.keepPublishers (hs.recorded.addRow hid hp) (grows_addRow s row) rfl

theorem Sound.known_of_message {s : OutboxState π} (hs : s.Sound) {k : ℕ} {m : PublishRequest π}
    (h : s.messages[k]? = some m) : entryOf m ∈ s.known :=
  hs.recorded.held (List.mem_map_of_mem (List.mem_of_getElem? h))

theorem sound_start (instances : List (String × Int32)) : (start instances : OutboxState π).Sound := by
  refine ⟨⟨List.nodup_nil, ?_, ?_, List.Subset.refl _, List.Subset.refl _, ?_, ?_⟩, ?_⟩
  · exact fun row hrow => by cases hrow
  · exact fun row hrow => by cases hrow
  · exact fun future hf => by cases hf
  · exact fun future hf => by cases hf
  · intro p hp
    obtain ⟨c, -, rfl⟩ := List.mem_map.mp hp
    trivial

theorem run_sound {s t : OutboxState π} {actions : List (OutboxAction π)} (hs : s.Sound)
    (h : run step s actions = some t) : t.Sound :=
  run_invariant (fun _ _ _ hi hstep => (step_sound hi hstep).1) hs h

theorem run_grows {s t : OutboxState π} {actions : List (OutboxAction π)} (hs : s.Sound)
    (h : run step s actions = some t) : Grows s t :=
  run_relates Grows.refl (fun _ _ _ => Grows.trans) (fun _ _ _ hi hstep => (step_sound hi hstep).1)
    (fun _ _ _ hi hstep => (step_sound hi hstep).2) hs h

end OutboxState

end LiquidPetProject.Outbox
