import LiquidPetProject.PoolDiscipline

namespace LiquidPetProject.Gateway

open Models Http Transitions ProxyHandler

/-- The upstream executed a request once at most, or a second time after an exchange over a connection
from the pool that broke when the first execution was done. -/
def ExecutedAtMostTwice (i : ℕ) (history : List Event) : Prop :=
  (executions i history).length ≤ 1 ∨ ∃ j x upstream e, j ≠ i ∧ .opened j x upstream ∈ history ∧
    executions i history = [.exchangeFailed i x true, e]

theorem Lawful.executedAtMostStale {history : List Event} {i : ℕ} {e : Event} (h : Lawful history e)
    (hi : e.request = some i) (he : e.executed = true) : ExecutedAtMostStale i history := by
  cases e with
  | received j x response =>
    obtain rfl := Option.some.inj hi
    exact h.2.2
  | exchangeFailed j x executed =>
    obtain rfl := Option.some.inj hi
    exact h.2 he
  | _ => simp [Event.executed] at he

theorem executed_at_most_twice {history : List Event} (h : Throughout Lawful history) (i : ℕ) :
    ExecutedAtMostTwice i history := by
  induction history using List.reverseRecOn with
  | nil => exact .inl (Nat.zero_le 1)
  | append_singleton history e ih =>
    obtain ⟨hearlier, hlaw⟩ := h.of_concat
    unfold ExecutedAtMostTwice
    rw [executions_append]
    by_cases hcounts : e.request = some i ∧ e.executed = true
    · have hone : executions i [e] = [e] := by simp [executions, requestLog, hcounts]
      rw [hone]
      rcases hlaw.executedAtMostStale hcounts.1 hcounts.2 with hnone | ⟨j, x, upstream, hj, ho, hstale⟩
      · rw [hnone]
        exact .inl (Nat.le_refl 1)
      · rw [hstale]
        exact .inr ⟨j, x, upstream, e, hj, List.mem_append_left _ ho, rfl⟩
    · have hnone : executions i [e] = [] := by
        rw [executions, requestLog, List.filter_filter, List.filter_eq_nil_iff]
        simpa [and_comm] using hcounts
      rw [hnone, List.append_nil]
      rcases ih hearlier with hle | ⟨j, x, upstream, f, hj, ho, he⟩
      · exact .inl hle
      · exact .inr ⟨j, x, upstream, f, hj, List.mem_append_left _ ho, he⟩

theorem request_executed_at_most_twice (services : Services) (actions : List ProxyAction) (s : ProxyHandler)
    (h : run (ProxyHandler.step services) {} actions = some s) (i : ℕ) : ExecutedAtMostTwice i s.history :=
  executed_at_most_twice (Disciplined.run h).events i

def freshActions : List ProxyAction :=
  [.handle ⟨.post, "/orders", "{}"⟩, .route 0, .acquire 0, .resolved 0 true, .connected 0 true, .send 0,
    .broken 0 true, .abandon 0]

theorem fresh_executed_once :
    ∃ s, run (ProxyHandler.step ordersService) {} freshActions = some s ∧ (executions 0 s.history).length = 1 ∧
      ExecutedAtMostTwice 0 s.history := by
  have hcount : (run (ProxyHandler.step ordersService) {} freshActions).map
      (fun s => (executions 0 s.history).length) = some 1 := by decide +kernel
  obtain ⟨s, hs, hc⟩ := Option.map_eq_some_iff.mp hcount
  exact ⟨s, hs, hc, request_executed_at_most_twice ordersService freshActions s hs 0⟩

theorem post_executed_twice :
    ∃ s, run (ProxyHandler.step ordersService) {} retriedActions = some s ∧
      (s.requests.map (fun r => r.1.method))[1]? = some .post ∧ (executions 1 s.history).length = 2 := by
  have hcount : (run (ProxyHandler.step ordersService) {} retriedActions).map
      (fun s => ((s.requests.map (fun r => r.1.method))[1]?, (executions 1 s.history).length)) =
        some (some .post, 2) := by decide +kernel
  obtain ⟨s, hs, hc⟩ := Option.map_eq_some_iff.mp hcount
  obtain ⟨hmethod, hlength⟩ := Prod.mk.inj hc
  exact ⟨s, hs, hmethod, hlength⟩

end LiquidPetProject.Gateway
