import Mathlib.Data.Finset.Max
import LiquidPetProject.RequestRouting

namespace LiquidPetProject.Gateway

open Models Http Transitions ProxyHandler

abbrev Entry := String × UpstreamConfiguration

def Matches (request : Request) (entry : Entry) : Prop := entry.1.toList <+: request.path.toList

instance (request : Request) : DecidablePred (Matches request) :=
  fun entry => inferInstanceAs (Decidable (entry.1.toList <+: request.path.toList))

def LongestMatch (table : Services) (request : Request) (entry : Entry) : Prop :=
  entry ∈ table.entries ∧ Matches request entry ∧
    ∀ other ∈ table.entries, Matches request other → other.1.toList.length ≤ entry.1.toList.length

def Contacts (history : List Event) (i : ℕ) (upstream : UpstreamConfiguration) : Prop :=
  (∃ x, .opened i x upstream ∈ history) ∨
    ∃ j x message, .opened j x upstream ∈ history ∧ .wrote i x message ∈ history

def NothingFound (history : List Event) (i : ℕ) : Prop :=
  .answered i .notFound ∈ history ∧ ∀ e ∈ history, e.request = some i → e.asks = false

def Reached (table : Services) (s : ProxyHandler) : Prop :=
  ∃ services actions, services.entries.Perm table.entries ∧ run (ProxyHandler.step services) {} actions = some s

structure Determined (table : Services) (request : Request) : Prop where
  longest : ∀ s, Reached table s → ∀ i pc, s.requests[i]? = some (request, pc) →
    (∀ entry, pc.service = some entry → ∃ best, LongestMatch table request best ∧ best.2 = entry.2) ∧
      ∀ upstream, Contacts s.history i upstream → ∃ best, LongestMatch table request best ∧ best.2 = upstream
  notFound : ∀ s, Reached table s → ∀ i response, s.requests[i]? = some (request, .returned response) →
    (NothingFound s.history i ↔ ∀ entry ∈ table.entries, ¬ Matches request entry)
  agree : ∀ s s', Reached table s → Reached table s' → ∀ request', request'.path = request.path →
    ∀ i j pc pc', s.requests[i]? = some (request, pc) → s'.requests[j]? = some (request', pc') →
      ∀ upstream upstream', Contacts s.history i upstream → Contacts s'.history j upstream' → upstream = upstream'

def OneUpstream (table : Services) (request : Request) : Prop :=
  ∀ a ∈ table.entries, ∀ b ∈ table.entries, Matches request a → Matches request b → a.2 = b.2

instance (table : Services) (request : Request) : Decidable (OneUpstream table request) :=
  inferInstanceAs (Decidable (∀ a ∈ table.entries, ∀ b ∈ table.entries, _ → _ → _))

section Routes

variable {services table : Services} {request : Request} {s : ProxyHandler} {i : ℕ} {pc : HandlePc}

theorem route_some {entry : Entry} (h : services.route request = some entry) :
    entry ∈ services.entries ∧ Matches request entry := by
  have hfits : entry.1.toList.isPrefixOf request.path.toList = true :=
    List.find?_some (p := fun e : Entry => e.1.toList.isPrefixOf request.path.toList) h
  exact ⟨List.mem_of_find?_eq_some h, List.isPrefixOf_iff_prefix.mp hfits⟩

theorem route_none : services.route request = none ↔ ∀ entry ∈ services.entries, ¬ Matches request entry := by
  unfold Services.route
  rw [List.find?_eq_none]
  apply forall₂_congr
  intro entry _
  rw [List.isPrefixOf_iff_prefix]
  rfl

theorem route_head {entry : Entry} {entries : List Entry} (hentries : services.entries = entry :: entries)
    (h : Matches request entry) : services.route request = some entry := by
  unfold Services.route
  rw [hentries, List.find?_cons_of_pos]
  exact List.isPrefixOf_iff_prefix.mpr h

theorem longestMatch_exists {entry : Entry} (hmem : entry ∈ table.entries) (h : Matches request entry) :
    ∃ best, LongestMatch table request best := by
  have hne : (table.entries.filter (Matches request ·)).toFinset.Nonempty := by
    refine ⟨entry, ?_⟩
    rw [List.mem_toFinset, List.mem_filter]
    exact ⟨hmem, decide_eq_true h⟩
  obtain ⟨best, hbest, hmax⟩ := Finset.exists_max_image _ (fun e : Entry => e.1.toList.length) hne
  simp only [List.mem_toFinset, List.mem_filter, decide_eq_true_eq] at hbest hmax
  exact ⟨best, hbest.1, hbest.2, fun other hother hm => hmax other ⟨hother, hm⟩⟩

theorem opened_unique {history : List Event} (h : Throughout Lawful history) {j k x : ℕ}
    {upstream upstream' : UpstreamConfiguration} (ho : .opened j x upstream ∈ history)
    (ho' : .opened k x upstream' ∈ history) : upstream = upstream' := by
  induction history using List.reverseRecOn with
  | nil => cases ho
  | append_singleton history e ih =>
    obtain ⟨hearlier, hlaw⟩ := h.of_concat
    have hfresh : ∀ l u, e = .opened l x u → ∀ m v, .opened m x v ∉ history := by
      rintro l u rfl m v hm
      have hlog : .opened m x v ∈ socketLog x history := mem_socketLog.mpr ⟨hm, rfl⟩
      rw [show socketLog x history = [] from hlaw] at hlog
      cases hlog
    rcases List.mem_append.mp ho with ho | ho
    · rcases List.mem_append.mp ho' with ho' | ho'
      · exact ih hearlier ho ho'
      · exact absurd ho (hfresh _ _ (List.mem_singleton.mp ho').symm _ _)
    · rcases List.mem_append.mp ho' with ho' | ho'
      · exact absurd ho' (hfresh _ _ (List.mem_singleton.mp ho).symm _ _)
      · have he := (List.mem_singleton.mp ho).trans (List.mem_singleton.mp ho').symm
        exact (Event.opened.inj he).2.2

theorem contacts_chosen (hd : Disciplined services s) (hr : Routed services s)
    (hi : s.requests[i]? = some (request, pc)) {upstream : UpstreamConfiguration}
    (h : Contacts s.history i upstream) : ∃ p, Chosen services request (p, upstream) := by
  have hallowed : ∀ e ∈ s.history, e.request = some i → Allowed services s.history request e := by
    intro e he hrequest
    obtain ⟨request', pc', hi', hallowed⟩ := hr.events e he i hrequest
    obtain ⟨rfl, -⟩ := Prod.mk.inj (Option.some.inj (hi.symm.trans hi'))
    exact hallowed
  rcases h with ⟨x, ho⟩ | ⟨j, x, message, ho, hw⟩
  · exact hallowed _ ho rfl
  · obtain ⟨p, upstream', hchosen, k, ho'⟩ := hallowed _ hw rfl
    rw [opened_unique hd.events ho ho']
    exact ⟨p, hchosen⟩

theorem contact_reached (hm : request.method ≠ .unknown) {entry : Entry}
    (hroute : services.route request = some entry) :
    ∃ actions s pc, run (ProxyHandler.step services) {} actions = some s ∧
      s.requests[0]? = some (request, pc) ∧ Contacts s.history 0 entry.2 := by
  let a : Attempt := ⟨entry.1, entry.2, 0⟩
  refine ⟨[.handle request, .route 0, .acquire 0, .resolved 0 true, .connected 0 true],
    ⟨fun _ => [], [(request, .sending a false 0)], 1, [.began 0 request, .opened 0 0 entry.2]⟩, _, ?_, rfl, ?_⟩
  · simp [run, ProxyHandler.step, routeRequest, hm, hroute, ProxyHandler.advance, acquireSocket, a]
  · exact .inl ⟨0, by simp⟩

def inFront (table : Services) (entry : Entry) (h : entry ∈ table.entries) : Services where
  entries := entry :: table.entries.erase entry
  nodup := ((List.perm_cons_erase h).map Prod.fst).nodup_iff.mp table.nodup

theorem inFront_perm {entry : Entry} (h : entry ∈ table.entries) :
    (inFront table entry h).entries.Perm table.entries := (List.perm_cons_erase h).symm

theorem longest_upstream (hone : OneUpstream table request) (hperm : services.entries.Perm table.entries)
    {entry : Entry} (hchosen : Chosen services request entry) :
    ∃ best, LongestMatch table request best ∧ best.2 = entry.2 := by
  obtain ⟨hmem, hmatch⟩ := route_some hchosen.2
  have hentry := hperm.mem_iff.mp hmem
  obtain ⟨best, hbest⟩ := longestMatch_exists hentry hmatch
  exact ⟨best, hbest, hone _ hbest.1 _ hentry hbest.2.1 hmatch⟩

theorem chosen_upstream (hone : OneUpstream table request) {services' : Services} {request' : Request}
    (hperm : services.entries.Perm table.entries) (hperm' : services'.entries.Perm table.entries)
    (hpath : request'.path = request.path) {entry entry' : Entry} (hchosen : Chosen services request entry)
    (hchosen' : Chosen services' request' entry') : entry.2 = entry'.2 := by
  obtain ⟨hmem, hmatch⟩ := route_some hchosen.2
  obtain ⟨hmem', hmatch'⟩ := route_some hchosen'.2
  apply hone _ (hperm.mem_iff.mp hmem) _ (hperm'.mem_iff.mp hmem') hmatch
  unfold Matches at hmatch'
  rwa [hpath] at hmatch'

theorem nothingFound_iff (hm : request.method ≠ .unknown) (hr : Routed services s)
    (hperm : services.entries.Perm table.entries) {response : Response}
    (hi : s.requests[i]? = some (request, .returned response)) :
    NothingFound s.history i ↔ ∀ entry ∈ table.entries, ¬ Matches request entry := by
  have hunmatched : (∀ entry ∈ table.entries, ¬ Matches request entry) ↔ Unmatched services request := by
    unfold Unmatched
    rw [route_none, and_iff_right hm]
    apply forall_congr'
    intro entry
    rw [hperm.mem_iff]
  have hallowed : ∀ e ∈ s.history, e.request = some i → Allowed services s.history request e := by
    intro e he hrequest
    obtain ⟨request', pc', hi', hallowed⟩ := hr.events e he i hrequest
    obtain ⟨rfl, -⟩ := Prod.mk.inj (Option.some.inj (hi.symm.trans hi'))
    exact hallowed
  rw [hunmatched]
  constructor
  · rintro ⟨hanswered, -⟩
    exact hallowed _ hanswered rfl rfl
  · intro hnone
    refine ⟨(hr.places i request _ hi).answered nofun hnone, ?_⟩
    intro e he hrequest
    have hne : ∀ entry, ¬ Chosen services request entry := by
      intro entry hchosen
      cases hchosen.2.symm.trans hnone.2
    have h := hallowed e he hrequest
    cases e with
    | opened j x upstream =>
      obtain ⟨p, hchosen⟩ := h
      exact absurd hchosen (hne _)
    | openFailed j =>
      obtain ⟨entry, hchosen⟩ := h
      exact absurd hchosen (hne _)
    | wrote j x message =>
      obtain ⟨p, upstream, hchosen, -⟩ := h
      exact absurd hchosen (hne _)
    | _ => rfl

theorem determined (hm : request.method ≠ .unknown) (hone : OneUpstream table request) : Determined table request := by
  constructor
  · rintro s ⟨services, actions, hperm, hrun⟩ i pc hi
    have hr := Routed.run hrun
    constructor
    · intro entry hentry
      exact longest_upstream hone hperm ((hr.places i request pc hi).chosen entry hentry)
    · intro upstream hcontacts
      obtain ⟨p, hchosen⟩ := contacts_chosen (Disciplined.run hrun) hr hi hcontacts
      exact longest_upstream hone hperm hchosen
  · rintro s ⟨services, actions, hperm, hrun⟩ i response hi
    exact nothingFound_iff hm (Routed.run hrun) hperm hi
  · rintro s s' ⟨services, actions, hperm, hrun⟩ ⟨services', actions', hperm', hrun'⟩ request' hpath i j pc pc'
      hi hj upstream upstream' hcontacts hcontacts'
    obtain ⟨p, hchosen⟩ := contacts_chosen (Disciplined.run hrun) (Routed.run hrun) hi hcontacts
    obtain ⟨p', hchosen'⟩ := contacts_chosen (Disciplined.run hrun') (Routed.run hrun') hj hcontacts'
    exact chosen_upstream hone hperm hperm' hpath hchosen hchosen'

theorem oneUpstream (hm : request.method ≠ .unknown) (h : Determined table request) : OneUpstream table request := by
  intro a ha b hb hma hmb
  have hra : (inFront table a ha).route request = some a := route_head rfl hma
  have hrb : (inFront table b hb).route request = some b := route_head rfl hmb
  obtain ⟨actions, s, pc, hrun, hi, hcontacts⟩ := contact_reached hm hra
  obtain ⟨actions', s', pc', hrun', hi', hcontacts'⟩ := contact_reached hm hrb
  exact h.agree s s' ⟨_, actions, inFront_perm ha, hrun⟩ ⟨_, actions', inFront_perm hb, hrun'⟩ request rfl 0 0 pc pc'
    hi hi' a.2 b.2 hcontacts hcontacts'

/-- The path decides the upstream exactly where all prefixes that fit it lead to one upstream. -/
theorem routing_determined_iff (table : Services) (request : Request) (hm : request.method ≠ .unknown) :
    Determined table request ↔ OneUpstream table request :=
  ⟨oneUpstream hm, determined hm⟩

end Routes

def disjointTable : Services where
  entries := [("/orders", ⟨"order-service", 8080⟩), ("/search", ⟨"search-service", 8081⟩)]
  nodup := by decide

theorem routing_determined_disjoint :
    Determined disjointTable ⟨.get, "/orders/456", ""⟩ ↔ OneUpstream disjointTable ⟨.get, "/orders/456", ""⟩ :=
  routing_determined_iff _ _ (by decide)

def nestedTable : Services where
  entries := [("/", ⟨"catalog-service", 8081⟩), ("/orders", ⟨"order-service", 8080⟩)]
  nodup := by decide

theorem routing_not_determined : ¬ Determined nestedTable ⟨.get, "/orders/456", ""⟩ := by
  intro h
  have hone := oneUpstream (by decide) h
  revert hone
  decide

end LiquidPetProject.Gateway
