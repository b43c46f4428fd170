import LiquidPetProject.SocketHistory

namespace LiquidPetProject.Gateway

open Models Http ProxyHandler

structure Held (s : ProxyHandler) : Prop where
  exclusive : ∀ a b x, s.holds a = some x → s.holds b = some x → a = b
  live : ∀ x, s.Live x → ∃ a, s.holds a = some x

variable {s : ProxyHandler} {i : ℕ} {request : Request} {pc pc' : HandlePc}

theorem holds_request (hi : s.requests[i]? = some (request, pc)) : s.holds (.request i) = pc.owned := by
  simp [holds, hi]

@[simp] theorem holds_set_request (hi : s.requests[i]? = some (request, pc)) {pools : String → List ℕ}
    {next : ℕ} {history : List Event} (j : ℕ) :
    (⟨pools, s.requests.set i (request, pc'), next, history⟩ : ProxyHandler).holds (.request j) =
      if i = j then pc'.owned else s.holds (.request j) := by
  have hlt : i < s.requests.length := (List.getElem?_eq_some_iff.mp hi).1
  by_cases hij : i = j
  · simp [holds, ← hij, hlt]
  · simp [holds, hij]

theorem Held.transfer {s s' : ProxyHandler} (h : Held s) (f : Holder → Holder)
    (hf : ∀ a x, s'.holds a = some x → s.holds (f a) = some x)
    (hinj : ∀ a b x, s'.holds a = some x → s'.holds b = some x → f a = f b → a = b)
    (hlive : ∀ x, s'.Live x → s.Live x ∧ ∀ a, s.holds a = some x → ∃ b, s'.holds b = some x) : Held s' := by
  constructor
  · intro a b x ha hb
    exact hinj a b x ha hb (h.exclusive _ _ x (hf a x ha) (hf b x hb))
  · intro x hx
    obtain ⟨hs, hmove⟩ := hlive x hx
    obtain ⟨a, ha⟩ := h.live x hs
    exact hmove a ha

theorem live_of_append {pools : String → List ℕ} {requests : List (Request × HandlePc)} {next x : ℕ}
    {es : List Event} (hopen : ∀ e ∈ es, ∀ j y upstream, e ≠ .opened j y upstream)
    (h : (⟨pools, requests, next, s.history ++ es⟩ : ProxyHandler).Live x) : s.Live x := by
  obtain ⟨⟨j, upstream, ho⟩, hc⟩ := h
  rcases List.mem_append.mp ho with ho | ho
  · exact ⟨⟨j, upstream, ho⟩, fun hm => hc (List.mem_append_left _ hm)⟩
  · exact absurd rfl (hopen _ ho j x upstream)

theorem Held.settle (h : Held s) (hi : s.requests[i]? = some (request, pc)) {next : ℕ} {es : List Event}
    (hopen : ∀ e ∈ es, ∀ j y upstream, e ≠ .opened j y upstream)
    (hown : pc'.owned = pc.owned ∨ pc'.owned = none ∧ ∀ x, pc.owned = some x → .closed x ∈ es) :
    Held ⟨s.pools, s.requests.set i (request, pc'), next, s.history ++ es⟩ := by
  have hsub : ∀ a x, (⟨s.pools, s.requests.set i (request, pc'), next, s.history ++ es⟩ : ProxyHandler).holds a =
      some x → s.holds a = some x := by
    intro a x ha
    cases a with
    | pool p k => exact ha
    | request j =>
      rw [holds_set_request hi] at ha
      split_ifs at ha with hij
      · subst hij
        rw [holds_request hi]
        rcases hown with ho | ⟨ho, -⟩
        · rw [← ho]
          exact ha
        · rw [ho] at ha
          cases ha
      · exact ha
  refine h.transfer id hsub (fun _ _ _ _ _ hab => hab) ?_
  intro x hx
  refine ⟨live_of_append hopen hx, fun a ha => ⟨a, ?_⟩⟩
  cases a with
  | pool p k => exact ha
  | request j =>
    rw [holds_set_request hi]
    split_ifs with hij
    · subst hij
      rw [holds_request hi] at ha
      rcases hown with ho | ⟨-, hclosed⟩
      · rw [ho]
        exact ha
      · exact absurd (List.mem_append_right _ (hclosed x ha)) hx.2
    · exact ha

theorem eq_of_replace {a b old new : Holder} (ha : a ≠ new) (hb : b ≠ new)
    (h : (if a = old then new else a) = if b = old then new else b) : a = b := by
  split_ifs at h with h1 h2 h2
  · rw [h1, h2]
  · exact absurd h.symm hb
  · exact absurd h ha
  · exact h

theorem Held.open (h : Held s) (hi : s.requests[i]? = some (request, pc)) {config : UpstreamConfiguration}
    (hown : pc.owned = none) (hown' : pc'.owned = some s.nextSocket)
    (hlt : ∀ a x, s.holds a = some x → x < s.nextSocket) :
    Held ⟨s.pools, s.requests.set i (request, pc'), s.nextSocket + 1,
      s.history ++ [.opened i s.nextSocket config]⟩ := by
  have hholds : ∀ a x, (⟨s.pools, s.requests.set i (request, pc'), s.nextSocket + 1,
      s.history ++ [.opened i s.nextSocket config]⟩ : ProxyHandler).holds a = some x →
      a = .request i ∧ x = s.nextSocket ∨ s.holds a = some x := by
    intro a x ha
    cases a with
    | pool p k => exact .inr ha
    | request j =>
      rw [holds_set_request hi] at ha
      split_ifs at ha with hij
      · subst hij
        rw [hown'] at ha
        exact .inl ⟨rfl, (Option.some.inj ha).symm⟩
      · exact .inr ha
  constructor
  · intro a b x ha hb
    rcases hholds a x ha with ⟨rfl, rfl⟩ | ha
    · rcases hholds b _ hb with ⟨rfl, -⟩ | hb
      · rfl
      · exact absurd (hlt b _ hb) (by omega)
    · rcases hholds b x hb with ⟨rfl, rfl⟩ | hb
      · exact absurd (hlt a _ ha) (by omega)
      · exact h.exclusive a b x ha hb
  · intro x hx
    obtain ⟨⟨j, upstream, ho⟩, hc⟩ := hx
    rcases List.mem_append.mp ho with ho | ho
    · obtain ⟨a, ha⟩ := h.live x ⟨⟨j, upstream, ho⟩, fun hm => hc (List.mem_append_left _ hm)⟩
      refine ⟨a, ?_⟩
      cases a with
      | pool p k => exact ha
      | request k =>
        rw [holds_set_request hi]
        split_ifs with hik
        · subst hik
          rw [holds_request hi, hown] at ha
          cases ha
        · exact ha
    · obtain ⟨rfl, rfl, -⟩ := by simpa using ho
      exact ⟨.request j, by rw [holds_set_request hi, if_pos rfl, hown']⟩

theorem Held.acquire (h : Held s) (hi : s.requests[i]? = some (request, pc)) {p : String} {x next : ℕ}
    (hown : pc.owned = none) (hown' : pc'.owned = some x) (hlast : (s.pools p).getLast? = some x) :
    Held ⟨Function.update s.pools p (s.pools p).dropLast, s.requests.set i (request, pc'), next,
      s.history ++ []⟩ := by
  obtain ⟨rest, hrest⟩ := List.getLast?_eq_some_iff.mp hlast
  have hpool : ∀ (q : String) (k : ℕ), (Function.update s.pools p (s.pools p).dropLast q)[k]? =
      if q = p then rest[k]? else (s.pools q)[k]? := by
    intro q k
    by_cases hq : q = p
    · subst hq
      simp [hrest]
    · simp [hq]
  refine h.transfer (fun a => if a = .request i then .pool p rest.length else a) ?_ ?_ ?_
  · intro a y ha
    cases a with
    | pool q k =>
      rw [if_neg (by simp)]
      simp only [holds, hpool] at ha ⊢
      split_ifs at ha with hq
      · subst hq
        have hk := (List.getElem?_eq_some_iff.mp ha).1
        rw [hrest, List.getElem?_append_left hk]
        exact ha
      · exact ha
    | request j =>
      rw [holds_set_request hi] at ha
      split_ifs at ha with hij
      · subst hij
        rw [hown'] at ha
        simp [holds, hrest, ← Option.some.inj ha]
      · rw [if_neg (by simpa using Ne.symm hij)]
        exact ha
  · intro a b y ha hb hab
    have hnot : ∀ c, (⟨Function.update s.pools p (s.pools p).dropLast, s.requests.set i (request, pc'), next,
        s.history ++ []⟩ : ProxyHandler).holds c = some y → c ≠ .pool p rest.length := by
      rintro c hc rfl
      simp only [holds, hpool, if_true, List.getElem?_length] at hc
      cases hc
    exact eq_of_replace (hnot a ha) (hnot b hb) hab
  · intro y hy
    refine ⟨live_of_append (by simp) hy, fun a ha => ?_⟩
    cases a with
    | request j =>
      refine ⟨.request j, ?_⟩
      rw [holds_set_request hi]
      split_ifs with hij
      · subst hij
        rw [holds_request hi, hown] at ha
        cases ha
      · exact ha
    | pool q k =>
      by_cases hq : q = p ∧ k = rest.length
      · obtain ⟨rfl, rfl⟩ := hq
        refine ⟨.request i, ?_⟩
        rw [holds_set_request hi, if_pos rfl, hown']
        simpa [holds, hrest] using ha
      · refine ⟨.pool q k, ?_⟩
        simp only [holds, hpool] at ha ⊢
        split_ifs with hqp
        · subst hqp
          rw [hrest, List.getElem?_append] at ha
          split_ifs at ha with hk
          · exact ha
          · have hlen := (List.getElem?_eq_some_iff.mp ha).1
            simp only [List.length_singleton] at hlen
            exact absurd ⟨rfl, by omega⟩ hq
        · exact ha

theorem Held.release (h : Held s) (hi : s.requests[i]? = some (request, pc)) {p : String} {x next : ℕ}
    {es : List Event} (hopen : ∀ e ∈ es, ∀ j y upstream, e ≠ .opened j y upstream)
    (hown : pc.owned = some x) (hown' : pc'.owned = none) :
    Held ⟨Function.update s.pools p (s.pools p ++ [x]), s.requests.set i (request, pc'), next,
      s.history ++ es⟩ := by
  have hpool : ∀ (q : String) (k : ℕ), (Function.update s.pools p (s.pools p ++ [x]) q)[k]? =
      if q = p then (s.pools p ++ [x])[k]? else (s.pools q)[k]? := by
    intro q k
    by_cases hq : q = p
    · subst hq
      simp
    · simp [hq]
  have hsplit : ∀ k y, (s.pools p ++ [x])[k]? = some y →
      (s.pools p)[k]? = some y ∨ k = (s.pools p).length ∧ y = x := by
    intro k y hk
    rw [List.getElem?_append] at hk
    split_ifs at hk with hlt
    · exact .inl hk
    · have hlen := (List.getElem?_eq_some_iff.mp hk).1
      simp only [List.length_singleton] at hlen
      have hk0 : k = (s.pools p).length := by omega
      subst hk0
      exact .inr ⟨rfl, by simpa using hk.symm⟩
  refine h.transfer (fun a => if a = .pool p (s.pools p).length then .request i else a) ?_ ?_ ?_
  · intro a y ha
    cases a with
    | request j =>
      rw [if_neg (by simp)]
      rw [holds_set_request hi] at ha
      split_ifs at ha with hij
      · rw [hown'] at ha
        cases ha
      · exact ha
    | pool q k =>
      simp only [holds, hpool] at ha
      split_ifs at ha with hq
      · subst hq
        rcases hsplit k y ha with hk | ⟨rfl, rfl⟩
        · have hlt := (List.getElem?_eq_some_iff.mp hk).1
          rw [if_neg (by simp only [Holder.pool.injEq, true_and]; omega)]
          exact hk
        · rw [if_pos rfl, holds_request hi, hown]
      · rw [if_neg (by simp [hq])]
        exact ha
  · intro a b y ha hb hab
    have hnot : ∀ c, (⟨Function.update s.pools p (s.pools p ++ [x]), s.requests.set i (request, pc'), next,
        s.history ++ es⟩ : ProxyHandler).holds c = some y → c ≠ .request i := by
      rintro c hc rfl
      rw [holds_set_request hi, if_pos rfl, hown'] at hc
      cases hc
    exact eq_of_replace (hnot a ha) (hnot b hb) hab
  · intro y hy
    refine ⟨live_of_append hopen hy, fun a ha => ?_⟩
    cases a with
    | request j =>
      by_cases hij : i = j
      · subst hij
        rw [holds_request hi, hown] at ha
        refine ⟨.pool p (s.pools p).length, ?_⟩
        simp [holds, ← Option.some.inj ha]
      · refine ⟨.request j, ?_⟩
        rw [holds_set_request hi, if_neg hij]
        exact ha
    | pool q k =>
      refine ⟨.pool q k, ?_⟩
      simp only [holds, hpool] at ha ⊢
      split_ifs with hq
      · subst hq
        rw [List.getElem?_append_left (List.getElem?_eq_some_iff.mp ha).1]
        exact ha
      · exact ha

end LiquidPetProject.Gateway
