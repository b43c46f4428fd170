import LiquidPetProject.PipelineAccounting

namespace LiquidPetProject.Messaging

open Transitions

namespace ConsumerPipeline

structure NeverStranded (s : ConsumerPipeline) : Prop where
  ended : ∀ w ∈ s.pool.workers, ∀ item pc, w.state = .running item pc → pc.ended = true →
    s.pool.stopped = true ∨ s.registry.isCurrent item.ticket = false ∨ s.registry.Settled item.ticket
  processed : s.pool.stopped = true ∨ ∀ t, s.registry.isPending t = true →
    t ∈ s.liveItems.map WorkItem.ticket ∨ t ∈ inHand s.reader

theorem Accounted.neverStranded {s : ConsumerPipeline} (hs : Accounted s) : NeverStranded s := by
  constructor
  · intro w hw item pc hst he
    exact ((hs.workers w hw).ended item pc hst he).imp_right (fun h => h.imp_left (fun hout => hout.2))
  · cases hst : s.pool.stopped with
    | true => exact .inl rfl
    | false =>
      right
      intro t ht
      have hheld := hs.pending hst t ht
      have hsub : s.unsubmitted ⊆ s.backlog := by
        unfold unsubmitted
        split_ifs
        · exact List.tail_subset _
        · exact List.Subset.refl _
      simp only [held, waiting, liveItems, List.map_append, List.mem_append] at hheld ⊢
      rcases hheld with (hhand | hback | hqueue) | hexec
      · exact .inr hhand
      · exact .inl (.inl (.inl (List.map_subset _ hsub hback)))
      · exact .inl (.inl (.inr hqueue))
      · exact .inl (.inr hexec)

/-- No exception strands a record, in every run whose dead-letter sink throws only after a stop request
or for a ticket that is no longer current. -/
theorem exceptions_never_strand (config : PipelineConfiguration) (actions : List PipelineAction)
    (s : ConsumerPipeline) (hm : meets (step config) throwGuarded (create config) actions = true)
    (h : run (step config) (create config) actions = some s) : NeverStranded s :=
  (run_accounted hm h).neverStranded

def singleAttempt : PipelineConfiguration := { workerThreads := 1, retry := ⟨1⟩ }

def sendingActions : List PipelineAction :=
  [.onPartitionsAssigned [⟨"orders", 0⟩],
    .ingest ⟨⟨"orders", 0⟩, 3, "{}", some "550e8400-e29b-41d4-a716-446655440000", "OrderCreated"⟩, .reader,
    .pump, .reader, .reader, .reader, .take 0, .execute 0 .none, .execute 0 .none,
    .execute 0 (.handler .threw), .execute 0 .none, .execute 0 .none]

def revokedThenThrown : List PipelineAction :=
  sendingActions ++ [.onPartitionsRevoked [⟨"orders", 0⟩], .execute 0 (.sink .threw)]

theorem stale_throw_never_strands :
    ∃ s, run (step singleAttempt) (create singleAttempt) revokedThenThrown = some s ∧ NeverStranded s := by
  have hrun : (run (step singleAttempt) (create singleAttempt) revokedThenThrown).isSome = true := by decide
  obtain ⟨s, hs⟩ := Option.isSome_iff_exists.mp hrun
  exact ⟨s, hs, exceptions_never_strand singleAttempt revokedThenThrown s (by decide) hs⟩

/-- The exception of the sink passes through `execute` and is swallowed by the worker loop: the record
is current and not done, and it is nowhere. -/
theorem thrown_send_strands :
    ∃ s, run (step singleAttempt) (create singleAttempt)
        (sendingActions ++ [.execute 0 (.sink .threw), .finish 0]) = some s ∧
      s.pool.stopped = false ∧ s.registry.isPending ⟨⟨"orders", 0⟩, 3, 1⟩ = true ∧
      s.liveItems = [] ∧ s.reader = .idle ∧ ¬ NeverStranded s := by
  have hrun : (run (step singleAttempt) (create singleAttempt)
      (sendingActions ++ [.execute 0 (.sink .threw), .finish 0])).map
        (fun s => (s.pool.stopped, s.registry.isPending ⟨⟨"orders", 0⟩, 3, 1⟩, s.liveItems, s.reader)) =
      some (false, true, [], .idle) := by decide
  obtain ⟨s, hs, he⟩ := Option.map_eq_some_iff.mp hrun
  simp only [Prod.mk.injEq] at he
  obtain ⟨hst, hp, hl, hr⟩ := he
  refine ⟨s, hs, hst, hp, hl, hr, fun hn => ?_⟩
  rcases hn.processed with hstop | hall
  · rw [hst] at hstop
    cases hstop
  · have := hall _ hp
    simp [hl, hr, inHand] at this

end ConsumerPipeline

end LiquidPetProject.Messaging
