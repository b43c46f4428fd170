import LiquidPetProject.PipelineAccounting

namespace LiquidPetProject.Messaging

open Transitions

def PipelineAction.ordinary : PipelineAction → Bool
  | .stop => false
  | .execute _ (.sink .threw) => false
  | _ => true

namespace ConsumerPipeline

def startedTicket (s : ConsumerPipeline) : PipelineAction → List RecordTicket
  | .take _ => (s.pool.queue.head?.map WorkItem.ticket).toList
  | _ => []

def startedTickets (config : PipelineConfiguration) : ConsumerPipeline → List PipelineAction → List RecordTicket
  | _, [] => []
  | s, a :: as =>
    match step config s a with
    | some t => startedTicket s a ++ startedTickets config t as
    | none => []

structure Conserved (s : ConsumerPipeline) : Prop where
  one : s.reader = .idle → ∀ t, s.registry.isPending t = true →
    s.liveItems.countP (fun item => item.ticket = t) = 1
  inFlight : s.reader = .idle → ∀ p st, s.registry.find p = some st →
    st.tracker.inFlightCount =
      s.liveItems.countP (fun item => item.ticket.partition = p ∧ s.registry.isPending item.ticket = true)
  exclusive : ∀ (i j : ℕ) (item item' : WorkItem), s.pool.workers[i]?.bind executing = some item →
    s.pool.workers[j]?.bind executing = some item' → item.ticket = item'.ticket → i = j

theorem held_of_idle {s : ConsumerPipeline} (hr : s.reader = .idle) :
    s.held = s.liveItems.map WorkItem.ticket := by
  simp [held, waiting, inHand, unsubmitted, liveItems, hr]

theorem ordinary_guarded {a : PipelineAction} (h : a.ordinary = true) (s : ConsumerPipeline) :
    s.throwGuarded a = true := by
  unfold throwGuarded
  split
  · cases h
  · rfl

theorem Accounted.one {s : ConsumerPipeline} (hs : Accounted s) (hrun : s.pool.stopped = false)
    (hr : s.reader = .idle) {t : RecordTicket} (ht : s.registry.isPending t = true) :
    s.liveItems.countP (fun item => item.ticket = t) = 1 := by
  have hcount := List.count_eq_one_of_mem hs.nodup (hs.pending hrun t ht)
  rw [held_of_idle hr, List.count_eq_countP, List.countP_map] at hcount
  rw [← hcount]
  apply List.countP_congr
  simp

theorem pending_tickets {reg : PartitionRegistry} {p : PartitionKey} {st : PartitionState}
    (hf : reg.find p = some st) (t : RecordTicket) :
    t ∈ (st.tracker.entries.filter (fun e => !e.done)).map (fun e => ⟨p, e.offset, st.generation⟩) ↔
      t.partition = p ∧ reg.isPending t = true := by
  simp only [List.mem_map, List.mem_filter, Bool.not_eq_true', PartitionRegistry.isPending_iff]
  constructor
  · rintro ⟨e, ⟨he, hd⟩, rfl⟩
    refine ⟨rfl, st, hf, rfl, ?_⟩
    rw [← hd]
    exact he
  · rintro ⟨rfl, st', hf', hg, hmem⟩
    obtain rfl := Option.some.inj (hf.symm.trans hf')
    refine ⟨_, ⟨hmem, rfl⟩, ?_⟩
    rw [hg]

theorem Accounted.inFlight {s : ConsumerPipeline} (hs : Accounted s) (hrun : s.pool.stopped = false)
    (hr : s.reader = .idle) {p : PartitionKey} {st : PartitionState} (hf : s.registry.find p = some st) :
    st.tracker.inFlightCount =
      s.liveItems.countP (fun item => item.ticket.partition = p ∧ s.registry.isPending item.ticket = true) := by
  have hv := hs.valid.tracker p st hf
  have hleft : ((st.tracker.entries.filter (fun e => !e.done)).map
      (fun e => (⟨p, e.offset, st.generation⟩ : RecordTicket))).Nodup := by
    apply List.pairwise_map.mpr
    refine (hv.sorted.filter _).imp (fun hab he => ?_)
    have := congrArg RecordTicket.offset he
    dsimp only at this
    omega
  have hright : ((s.liveItems.map WorkItem.ticket).filter
      (fun t => t.partition = p ∧ s.registry.isPending t = true)).Nodup := by
    rw [← held_of_idle hr]
    exact hs.nodup.filter _
  have hperm := (List.perm_ext_iff_of_nodup hleft hright).mpr (fun t => by
    rw [pending_tickets hf, List.mem_filter, ← held_of_idle hr, decide_eq_true_eq]
    exact ⟨fun h => ⟨hs.pending hrun t h.2, h⟩, fun h => h.2⟩)
  have hlen := hperm.length_eq
  rw [List.length_map, ← List.countP_eq_length_filter, ← hv.inFlight, ← List.countP_eq_length_filter,
    List.countP_map] at hlen
  rw [OffsetTracker.inFlightCount, hlen]
  rfl

theorem Accounted.exclusive {s : ConsumerPipeline} (hs : Accounted s) {i j : ℕ} {item item' : WorkItem}
    (hi : s.pool.workers[i]?.bind executing = some item)
    (hj : s.pool.workers[j]?.bind executing = some item') (ht : item.ticket = item'.ticket) : i = j := by
  have hnodup : ((s.pool.workers.filterMap executing).map WorkItem.ticket).Nodup :=
    hs.nodup.sublist (List.sublist_append_right _ _)
  have hpair := List.pairwise_filterMap.mp (List.pairwise_map.mp hnodup)
  obtain ⟨w, hw, hwi⟩ := Option.bind_eq_some_iff.mp hi
  obtain ⟨x, hx, hxj⟩ := Option.bind_eq_some_iff.mp hj
  obtain ⟨hilt, rfl⟩ := List.getElem?_eq_some_iff.mp hw
  obtain ⟨hjlt, rfl⟩ := List.getElem?_eq_some_iff.mp hx
  rcases lt_trichotomy i j with hlt | he | hlt
  · exact absurd ht (List.pairwise_iff_getElem.mp hpair i j hilt hjlt hlt _ hwi _ hxj)
  · exact he
  · exact absurd ht.symm (List.pairwise_iff_getElem.mp hpair j i hjlt hilt hlt _ hxj _ hwi)

structure Spent (s : ConsumerPipeline) (t : RecordTicket) : Prop where
  issued : s.registry.Issued t
  gone : t ∉ s.waiting

theorem Spent.flow {s s' : ConsumerPipeline} {t : RecordTicket} (hs : Accounted s) (h : Flow s s')
    (ht : Spent s t) : Spent s' t := by
  have hzero := List.count_eq_zero_of_not_mem ht.gone
  constructor
  · obtain ⟨c, hc⟩ := h.registry
    rw [hc]
    exact ht.issued.call hs.valid c
  · rw [← List.count_eq_zero]
    cases h with
    | issue p o u hok _ hwait =>
      have hne := PartitionRegistry.registerRecord_fresh hs.valid hok ht.issued
      have hle := hwait t
      rw [List.count_singleton, if_neg (by simpa using Ne.symm hne), hzero] at hle
      omega
    | keep c _ _ hwait =>
      have hle := hwait t
      omega

theorem startedTicket_waiting {s : ConsumerPipeline} {a : PipelineAction} {t : RecordTicket}
    (ht : t ∈ startedTicket s a) : t ∈ s.waiting := by
  cases a with
  | take i =>
    simp only [startedTicket, Option.mem_toList, Option.map_eq_some_iff] at ht
    obtain ⟨item, hitem, rfl⟩ := ht
    have hq : item ∈ s.pool.queue := List.mem_of_head? hitem
    simp only [waiting, List.map_append, List.mem_append]
    exact .inr (.inr (List.mem_map_of_mem hq))
  | _ => simp [startedTicket] at ht

theorem startedTicket_spent {config : PipelineConfiguration} {s s' : ConsumerPipeline} {a : PipelineAction}
    (hs : Accounted s) (hg : s.throwGuarded a = true) (h : step config s a = some s') {t : RecordTicket}
    (ht : t ∈ startedTicket s a) : Spent s' t := by
  have hflow := Flow.step hs hg h
  have hwait := startedTicket_waiting ht
  cases a with
  | take i =>
    obtain ⟨pool, hp, rfl⟩ := Option.map_eq_some_iff.mp h
    obtain ⟨task, rest, -, hq, rfl⟩ := WorkerPool.take_eq_some hp
    obtain rfl : t = task.ticket := by simpa [startedTicket, hq] using ht
    refine ⟨hs.issued _ (List.mem_append_left _ hwait), ?_⟩
    have hone : s.waiting.count task.ticket ≤ 1 :=
      List.nodup_iff_count_le_one.mp (hs.nodup.sublist (List.sublist_append_left _ _)) _
    rw [← List.count_eq_zero]
    simp [waiting, unsubmitted, hq] at hone ⊢
    omega
  | _ => simp [startedTicket] at ht

theorem startedTickets_nodup {config : PipelineConfiguration} {s : ConsumerPipeline}
    {actions : List PipelineAction} (hs : Accounted s) (hm : meets (step config) throwGuarded s actions = true) :
    (startedTickets config s actions).Nodup ∧ ∀ t ∈ startedTickets config s actions, ¬ Spent s t := by
  induction actions generalizing s with
  | nil => simp [startedTickets]
  | cons a as ih =>
    obtain ⟨hg, hm⟩ := meets_cons hm
    unfold startedTickets
    cases h : step config s a with
    | none => simp
    | some s' =>
      obtain ⟨hnodup, hspent⟩ := ih (hs.step hg h) (hm s' h)
      have hflow := Flow.step hs hg h
      have hhead : (startedTicket s a).Nodup := by
        cases a with
        | take i => cases hq : s.pool.queue.head? <;> simp [startedTicket, hq]
        | _ => exact List.nodup_nil
      constructor
      · refine hhead.append hnodup (fun t ht hlater => ?_)
        exact hspent t hlater (startedTicket_spent hs hg h ht)
      · intro t ht
        rcases List.mem_append.mp ht with hnow | hlater
        · exact fun hsp => hsp.gone (startedTicket_waiting hnow)
        · exact fun hsp => hspent t hlater (hsp.flow hs hflow)

theorem step_stopped {config : PipelineConfiguration} {s s' : ConsumerPipeline} {a : PipelineAction}
    (ha : a ≠ .stop) (h : step config s a = some s') : s'.pool.stopped = s.pool.stopped := by
  cases a with
  | stop => exact absurd rfl ha
  | reader =>
    rcases readerStep_pool h with ⟨-, hst⟩ | ⟨-, i, hp⟩
    · exact hst
    · rw [hp, requestStop_stopped]
  | ingest record =>
    simp only [step] at h
    split_ifs at h
    obtain rfl := Option.some.inj h
    rw [register_pool]
  | take i =>
    obtain ⟨pool, hp, rfl⟩ := Option.map_eq_some_iff.mp h
    obtain ⟨task, rest, -, -, rfl⟩ := WorkerPool.take_eq_some hp
    rfl
  | execute i reply =>
    simp only [step, executeStep] at h
    split at h
    · rename_i hw
      obtain ⟨⟨events, reg, pc'⟩, -, rfl⟩ := Option.map_eq_some_iff.mp h
      dsimp only
      rw [WorkerPool.advance_of_running hw]
    · cases h
  | finish i =>
    obtain ⟨pool, hp, rfl⟩ := Option.map_eq_some_iff.mp h
    obtain ⟨task, pc, stop, -, -, rfl⟩ := WorkerPool.finish_eq_some hp
    rfl
  | exit i =>
    obtain ⟨pool, hp, rfl⟩ := Option.map_eq_some_iff.mp h
    obtain ⟨-, rfl⟩ := WorkerPool.exit_eq_some hp
    rfl
  | _ =>
    simp only [step] at h
    split_ifs at h
    obtain rfl := Option.some.inj h
    rfl

theorem ordinary_run_stopped {config : PipelineConfiguration} {actions : List PipelineAction}
    {s : ConsumerPipeline} (hord : ∀ a ∈ actions, a.ordinary = true)
    (h : run (step config) (create config) actions = some s) : s.pool.stopped = false := by
  refine run_preserves (I := fun u : ConsumerPipeline => u.pool.stopped = false)
    (P := fun a : PipelineAction => a.ordinary = true) ?_ rfl hord h
  intro u a v hu ha hstep
  rw [step_stopped (by rintro rfl; cases ha) hstep]
  exact hu

/-- Before `stop`, with a dead-letter sink that returns, every pending record is in exactly one hand,
and no ticket reaches a worker twice. -/
theorem pipeline_conserves_records (config : PipelineConfiguration) (actions : List PipelineAction)
    (s : ConsumerPipeline) (hord : ∀ a ∈ actions, a.ordinary = true)
    (h : run (step config) (create config) actions = some s) :
    Conserved s ∧ (startedTickets config (create config) actions).Nodup := by
  have hm : meets (step config) throwGuarded (create config) actions = true :=
    meets_of_forall (fun a ha => ordinary_guarded (hord a ha))
  have hs := run_accounted hm h
  have hrun := ordinary_run_stopped hord h
  refine ⟨⟨fun hr t ht => hs.one hrun hr ht, fun hr p st hf => hs.inFlight hrun hr hf, ?_⟩, ?_⟩
  · intro i j item item' hi hj ht
    exact hs.exclusive hi hj ht
  · exact (startedTickets_nodup (Accounted.create config) hm).1

def sampleActions : List PipelineAction :=
  [.onPartitionsAssigned [⟨"orders", 0⟩],
    .ingest ⟨⟨"orders", 0⟩, 3, "{}", some "550e8400-e29b-41d4-a716-446655440000", "OrderCreated"⟩, .reader,
    .pump, .reader, .reader, .reader, .take 0, .execute 0 .none, .execute 0 .none,
    .ingest ⟨⟨"orders", 0⟩, 7, "{}", some "550e8400-e29b-41d4-a716-446655440001", "OrderCreated"⟩, .reader]

theorem pipeline_conserves_sample :
    ∃ s, run (step {}) (create {}) sampleActions = some s ∧ s.backlog.length = 1 ∧
      Conserved s ∧ (startedTickets {} (create {}) sampleActions).Nodup := by
  have hrun : (run (step {}) (create {}) sampleActions).isSome = true := by decide
  have hlen : ((run (step {}) (create {}) sampleActions).map (fun s => s.backlog.length)) = some 1 := by decide
  obtain ⟨s, hs⟩ := Option.isSome_iff_exists.mp hrun
  rw [hs] at hlen
  exact ⟨s, hs, Option.some.inj hlen, pipeline_conserves_records {} sampleActions s (by decide) hs⟩

end ConsumerPipeline

end LiquidPetProject.Messaging
