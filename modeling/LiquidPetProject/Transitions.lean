import Mathlib.Data.List.Basic
import Mathlib.Data.List.Induction
import Mathlib.Logic.Relation

namespace LiquidPetProject.Transitions

section Runs

variable {σ α : Type}

/-- The state a run of labels leads to, when each of them is enabled in its turn. -/
def run (step : σ → α → Option σ) : σ → List α → Option σ
  | s, [] => some s
  | s, a :: as => (step s a).bind (fun t => run step t as)

variable {step : σ → α → Option σ}

@[simp] theorem run_nil (s : σ) : run step s [] = some s := rfl

@[simp] theorem run_cons (s : σ) (a : α) (as : List α) :
    run step s (a :: as) = (step s a).bind (fun t => run step t as) := rfl

theorem run_append (s : σ) (as bs : List α) :
    run step s (as ++ bs) = (run step s as).bind (fun t => run step t bs) := by
  induction as generalizing s with
  | nil => rfl
  | cons a as ih =>
    cases h : step s a with
    | none => simp [h]
    | some t => simp [h, ih]

theorem run_preserves {I : σ → Prop} {P : α → Prop}
    (hstep : ∀ s a t, I s → P a → step s a = some t → I t) {s t : σ} {as : List α}
    (hs : I s) (hP : ∀ a ∈ as, P a) (h : run step s as = some t) : I t := by
  induction as generalizing s with
  | nil => cases h; exact hs
  | cons a as ih =>
    obtain ⟨u, hu, ht⟩ := Option.bind_eq_some_iff.mp h
    exact ih (hstep s a u hs (hP a (by simp)) hu) (fun b hb => hP b (by simp [hb])) ht

theorem run_invariant {I : σ → Prop} (hstep : ∀ s a t, I s → step s a = some t → I t)
    {s t : σ} {as : List α} (hs : I s) (h : run step s as = some t) : I t :=
  run_preserves (P := fun _ => True) (fun s a t hi _ => hstep s a t hi) hs (fun _ _ => trivial) h

theorem run_relates {I : σ → Prop} {R : σ → σ → Prop} (hrefl : ∀ s, R s s)
    (htrans : ∀ s t u, R s t → R t u → R s u) (hinv : ∀ s a t, I s → step s a = some t → I t)
    (hstep : ∀ s a t, I s → step s a = some t → R s t) {s t : σ} {as : List α}
    (hs : I s) (h : run step s as = some t) : R s t := by
  induction as generalizing s with
  | nil => cases h; exact hrefl _
  | cons a as ih =>
    obtain ⟨u, hu, ht⟩ := Option.bind_eq_some_iff.mp h
    exact htrans _ _ _ (hstep s a u hs hu) (ih (hinv s a u hs hu) ht)

/-- When every step is a few steps of a more abstract system, or none, a run of it is a run of that system. -/
theorem run_refines {τ β : Type} {specStep : τ → β → Option τ} {view : σ → τ} {I : σ → Prop}
    (hinv : ∀ s a t, I s → step s a = some t → I t)
    (hstep : ∀ s a t, I s → step s a = some t → ∃ bs, run specStep (view s) bs = some (view t))
    {s t : σ} {as : List α} (hs : I s) (h : run step s as = some t) : ∃ bs, run specStep (view s) bs = some (view t) := by
  induction as generalizing s with
  | nil =>
    cases h
    exact ⟨[], rfl⟩
  | cons a as ih =>
    obtain ⟨u, hu, ht⟩ := Option.bind_eq_some_iff.mp h
    obtain ⟨first, hfirst⟩ := hstep s a u hs hu
    obtain ⟨rest, hrest⟩ := ih (hinv s a u hs hu) ht
    refine ⟨first ++ rest, ?_⟩
    rw [run_append, hfirst, Option.bind_some]
    exact hrest

def meets (step : σ → α → Option σ) (P : σ → α → Bool) : σ → List α → Bool
  | _, [] => true
  | s, a :: as => P s a && (step s a).all (fun t => meets step P t as)

theorem meets_of_forall {P : σ → α → Bool} {s : σ} {as : List α} (h : ∀ a ∈ as, ∀ s, P s a = true) :
    meets step P s as = true := by
  induction as generalizing s with
  | nil => rfl
  | cons a as ih =>
    rw [meets, h a (by simp) s, Bool.true_and, Option.all_eq_true]
    exact fun t _ => ih (fun b hb => h b (by simp [hb]))

theorem meets_cons {P : σ → α → Bool} {s : σ} {a : α} {as : List α} (h : meets step P s (a :: as) = true) :
    P s a = true ∧ ∀ t, step s a = some t → meets step P t as = true := by
  rw [meets, Bool.and_eq_true, Option.all_eq_true] at h
  exact h

theorem meets_append {P : σ → α → Bool} {s t : σ} {as bs : List α} (h : run step s as = some t)
    (hs : meets step P s as = true) (ht : meets step P t bs = true) : meets step P s (as ++ bs) = true := by
  induction as generalizing s with
  | nil =>
    cases h
    exact ht
  | cons a as ih =>
    obtain ⟨u, hu, hrest⟩ := Option.bind_eq_some_iff.mp h
    obtain ⟨ha, has⟩ := meets_cons hs
    rw [List.cons_append, meets, ha, Bool.true_and, hu]
    exact ih hrest (has u hu)

theorem run_preserves_of_meets {I : σ → Prop} {P : σ → α → Bool}
    (hstep : ∀ s a t, I s → P s a = true → step s a = some t → I t) {s t : σ} {as : List α}
    (hs : I s) (hP : meets step P s as = true) (h : run step s as = some t) : I t := by
  induction as generalizing s with
  | nil => cases h; exact hs
  | cons a as ih =>
    obtain ⟨u, hu, ht⟩ := Option.bind_eq_some_iff.mp h
    obtain ⟨ha, has⟩ := meets_cons hP
    exact ih (hstep s a u hs ha hu) (has u hu) ht

end Runs

section Observers

variable {σ α ω : Type} {step : σ → α → Option σ} {observe : σ → α → ω → ω}

def observed (step : σ → α → Option σ) (observe : σ → α → ω → ω) (s : σ × ω) (a : α) : Option (σ × ω) :=
  (step s.1 a).map (fun t => (t, observe s.1 a s.2))

theorem observed_some {s t : σ × ω} {a : α} (h : observed step observe s a = some t) :
    step s.1 a = some t.1 ∧ t.2 = observe s.1 a s.2 := by
  obtain ⟨u, hu, rfl⟩ := Option.map_eq_some_iff.mp h
  exact ⟨hu, rfl⟩

theorem run_of_observed {s t : σ × ω} {as : List α} (h : run (observed step observe) s as = some t) :
    run step s.1 as = some t.1 := by
  induction as generalizing s with
  | nil =>
    cases h
    rfl
  | cons a as ih =>
    obtain ⟨u, hu, hrest⟩ := Option.bind_eq_some_iff.mp h
    rw [run_cons, (observed_some hu).1]
    exact ih hrest

theorem run_observed {s t : σ} {as : List α} (h : run step s as = some t) (w : ω) :
    ∃ w', run (observed step observe) (s, w) as = some (t, w') := by
  induction as generalizing s w with
  | nil =>
    cases h
    exact ⟨w, rfl⟩
  | cons a as ih =>
    obtain ⟨u, hu, hrest⟩ := Option.bind_eq_some_iff.mp h
    obtain ⟨w', hw'⟩ := ih hrest (observe s a w)
    refine ⟨w', ?_⟩
    simp only [run_cons, observed, hu, Option.map_some, Option.bind_some]
    exact hw'

end Observers

section Traces

variable {σ τ ι ο : Type}

def trace (call : σ → ι → ο × σ) : σ → List ι → List ο × σ
  | s, [] => ([], s)
  | s, i :: is =>
    let (o, t) := call s i
    let (os, u) := trace call t is
    (o :: os, u)

@[simp] theorem trace_nil (call : σ → ι → ο × σ) (s : σ) : trace call s [] = ([], s) := rfl

@[simp] theorem trace_cons (call : σ → ι → ο × σ) (s : σ) (i : ι) (is : List ι) :
    trace call s (i :: is) =
      ((call s i).1 :: (trace call (call s i).2 is).1, (trace call (call s i).2 is).2) := rfl

theorem trace_append (call : σ → ι → ο × σ) (s : σ) (is js : List ι) :
    trace call s (is ++ js) =
      ((trace call s is).1 ++ (trace call (trace call s is).2 js).1,
        (trace call (trace call s is).2 js).2) := by
  induction is generalizing s with
  | nil => rfl
  | cons i is ih => simp [ih]

theorem trace_preserves {call : σ → ι → ο × σ} {I : σ → Prop}
    (hstep : ∀ s i, I s → I (call s i).2) {s : σ} (hs : I s) (is : List ι) :
    I (trace call s is).2 := by
  induction is generalizing s with
  | nil => exact hs
  | cons i is ih => exact ih (hstep s i hs)

/-- Two components whose related states answer alike answer alike for ever. -/
theorem trace_simulates {call : σ → ι → ο × σ} {spec : τ → ι → ο × τ} {R : σ → τ → Prop}
    (hstep : ∀ s t i, R s t → (call s i).1 = (spec t i).1 ∧ R (call s i).2 (spec t i).2)
    {s : σ} {t : τ} (h : R s t) (is : List ι) :
    (trace call s is).1 = (trace spec t is).1 ∧ R (trace call s is).2 (trace spec t is).2 := by
  induction is generalizing s t with
  | nil => exact ⟨rfl, h⟩
  | cons i is ih =>
    obtain ⟨ho, hr⟩ := hstep s t i h
    obtain ⟨hos, hrs⟩ := ih hr
    exact ⟨by simp [ho, hos], hrs⟩

end Traces

section Histories

variable {α : Type}

/-- Every entry of a history stood in the relation `P` to what was recorded before it. -/
def Throughout (P : List α → α → Prop) (history : List α) : Prop :=
  ∀ before a after, history = before ++ a :: after → P before a

theorem Throughout.nil (P : List α → α → Prop) : Throughout P [] := by
  intro before a after h
  simp at h

theorem Throughout.concat {P : List α → α → Prop} {history : List α} {a : α}
    (h : Throughout P history) (ha : P history a) : Throughout P (history ++ [a]) := by
  intro before b after he
  rcases List.eq_nil_or_concat after with rfl | ⟨after', c, rfl⟩
  · obtain ⟨rfl, hb⟩ := List.append_inj' he rfl
    obtain rfl := List.singleton_inj.mp hb
    exact ha
  · rw [List.concat_eq_append, ← List.cons_append, ← List.append_assoc] at he
    obtain ⟨rfl, -⟩ := List.append_inj' he rfl
    exact h before b after' rfl

theorem Throughout.of_concat {P : List α → α → Prop} {history : List α} {a : α}
    (h : Throughout P (history ++ [a])) : Throughout P history ∧ P history a := by
  refine ⟨fun before b after he => h before b (after ++ [a]) ?_, h history a [] rfl⟩
  simp [he]

/-- What is recorded only while fewer than `n` such entries exist is recorded `n` times at most. -/
theorem Throughout.filter_length_le {P : List α → α → Prop} {history : List α} (h : Throughout P history)
    {select : α → Bool} {n : ℕ}
    (hP : ∀ before a, P before a → select a = true → (before.filter select).length < n) :
    (history.filter select).length ≤ n := by
  induction history using List.reverseRecOn with
  | nil => simp
  | append_singleton history a ih =>
    obtain ⟨hearlier, ha⟩ := h.of_concat
    cases hs : select a with
    | false => simpa [hs] using ih hearlier
    | true =>
      have := hP history a ha hs
      simp [hs]
      omega

end Histories

section Parties

variable {α : Type} {l : List α} {i j : ℕ} {a b : α}

theorem getElem?_set_some (h : (l.set i a)[j]? = some b) : j = i ∧ b = a ∨ j ≠ i ∧ l[j]? = some b := by
  rw [List.getElem?_set] at h
  split_ifs at h with hij hlt
  · exact .inl ⟨hij.symm, (Option.some.inj h).symm⟩
  · exact .inr ⟨fun hji => hij hji.symm, h⟩

theorem getElem?_concat_some (h : (l ++ [a])[j]? = some b) : l[j]? = some b ∨ j = l.length ∧ b = a := by
  rw [List.getElem?_append] at h
  split_ifs at h with hlt
  · exact .inl h
  · right
    rw [List.getElem?_singleton] at h
    split_ifs at h with hzero
    exact ⟨by omega, (Option.some.inj h).symm⟩

end Parties

end LiquidPetProject.Transitions
