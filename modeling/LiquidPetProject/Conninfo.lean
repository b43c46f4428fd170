import Mathlib.Algebra.Order.BigOperators.Group.List
import Mathlib.Data.List.TakeWhile
import Mathlib.Tactic

namespace LiquidPetProject.Conninfo

def isBlank (c : Char) : Bool :=
  c = ' ' || c = '\t' || c = '\n' || c = '\x0b' || c = '\x0c' || c = '\r'

abbrev Assignment := List Char × List Char

def skipBlanks (cs : List Char) : List Char := cs.dropWhile isBlank

def endsName (c : Char) : Bool := c = '=' || isBlank c

def takeUnquoted : List Char → List Char × List Char
  | [] => ([], [])
  | ['\\'] => ([], [])
  | '\\' :: d :: cs => (d :: (takeUnquoted cs).1, (takeUnquoted cs).2)
  | c :: cs => if isBlank c then ([], cs) else (c :: (takeUnquoted cs).1, (takeUnquoted cs).2)

def takeQuoted : List Char → Option (List Char × List Char)
  | [] => none
  | ['\\'] => none
  | '\\' :: d :: cs => (takeQuoted cs).map (fun (value, rest) => (d :: value, rest))
  | c :: cs =>
    if c = '\'' then some ([], cs) else (takeQuoted cs).map (fun (value, rest) => (c :: value, rest))

def takeValue : List Char → Option (List Char × List Char)
  | '\'' :: cs => takeQuoted cs
  | cs => some (takeUnquoted cs)

def takeAssignment (cs : List Char) : Option (Assignment × List Char) :=
  match skipBlanks (cs.dropWhile (fun c => !endsName c)) with
  | '=' :: after =>
    (takeValue (skipBlanks after)).map
      (fun (value, rest) => ((cs.takeWhile (fun c => !endsName c), value), rest))
  | _ => none

def parseLoop : ℕ → List Char → Option (List Assignment)
  | 0, cs => if skipBlanks cs = [] then some [] else none
  | fuel + 1, cs =>
    match skipBlanks cs with
    | [] => some []
    | c :: ds =>
      (takeAssignment (c :: ds)).bind (fun taken => (parseLoop fuel taken.2).map (taken.1 :: ·))

def parse (text : List Char) : Option (List Assignment) :=
  let cs := text.takeWhile (fun c => c ≠ '\x00')
  parseLoop cs.length cs

def setting (assignments : List Assignment) (keyword : List Char) : Option (List Char) :=
  (assignments.reverse.find? (fun a => a.1 = keyword)).map Prod.snd

def weight (a : Assignment) : ℕ := a.1.length + a.2.length + 2

def Unescaped (value : List Char) : Prop :=
  (∀ c ∈ value, isBlank c = false ∧ c ≠ '\\') ∧ value.head? ≠ some '\''

def span (cs : List Char) : ℕ := if cs = [] then 0 else cs.length + 1

@[simp] theorem span_nil : span [] = 0 := rfl

@[simp] theorem span_cons (c : Char) (cs : List Char) : span (c :: cs) = cs.length + 2 := rfl

theorem span_le (cs : List Char) : span cs ≤ cs.length + 1 := by
  cases cs with
  | nil => exact Nat.zero_le _
  | cons c cs => exact le_rfl

theorem span_mono {cs ds : List Char} (h : cs.length ≤ ds.length) : span cs ≤ span ds := by
  cases cs with
  | nil => exact Nat.zero_le _
  | cons c cs =>
    cases ds with
    | nil => simp at h
    | cons d ds => simpa using h

theorem span_injective {cs ds : List Char} (h : span cs = span ds) : cs.length = ds.length := by
  cases cs with
  | nil => cases ds with
    | nil => rfl
    | cons d ds => cases h
  | cons c cs => cases ds with
    | nil => cases h
    | cons d ds => simpa using h

theorem skipBlanks_suffix (cs : List Char) : skipBlanks cs <:+ cs := List.dropWhile_suffix isBlank

theorem skipBlanks_head {c : Char} {cs ds : List Char} (h : skipBlanks cs = c :: ds) : isBlank c = false := by
  have hne : cs.dropWhile isBlank ≠ [] := by
    rw [skipBlanks] at h
    simp [h]
  have hhead := List.head_dropWhile_not isBlank hne
  rw [skipBlanks] at h
  simpa [h] using hhead

theorem takeUnquoted_suffix (cs : List Char) : (takeUnquoted cs).2 <:+ cs := by
  induction cs using takeUnquoted.induct with
  | case1 => exact List.suffix_refl []
  | case2 => exact List.nil_suffix
  | case3 d cs ih =>
    rw [takeUnquoted]
    exact ih.trans (List.suffix_append ['\\', d] cs)
  | case4 c cs hlast hescape hblank =>
    rw [takeUnquoted, if_pos hblank]
    · exact List.suffix_cons c cs
    · exact hlast
    · exact hescape
  | case5 c cs hlast hescape hblank ih =>
    rw [takeUnquoted, if_neg hblank]
    · exact ih.trans (List.suffix_cons c cs)
    · exact hlast
    · exact hescape

theorem takeUnquoted_span (cs : List Char) :
    (takeUnquoted cs).1.length + span (takeUnquoted cs).2 ≤ cs.length ∧
      (cs.length ≤ (takeUnquoted cs).1.length + span (takeUnquoted cs).2 →
        ∀ c ∈ (takeUnquoted cs).1, isBlank c = false ∧ c ≠ '\\') := by
  induction cs using takeUnquoted.induct with
  | case1 => simp [takeUnquoted]
  | case2 => simp [takeUnquoted]
  | case3 d cs ih =>
    obtain ⟨hle, -⟩ := ih
    simp only [takeUnquoted, List.length_cons]
    refine ⟨by omega, fun h => ?_⟩
    omega
  | case4 c cs hlast hescape hblank =>
    rw [takeUnquoted, if_pos hblank]
    · exact ⟨by simpa using span_le cs, by simp⟩
    · exact hlast
    · exact hescape
  | case5 c cs hlast hescape hblank ih =>
    obtain ⟨hle, htight⟩ := ih
    rw [takeUnquoted, if_neg hblank]
    · simp only [List.length_cons, List.forall_mem_cons]
      refine ⟨by omega, fun h => ⟨⟨by simpa using hblank, ?_⟩, htight (by omega)⟩⟩
      rintro rfl
      cases cs with
      | nil => exact hlast rfl rfl
      | cons d cs => exact hescape d cs rfl rfl
    · exact hlast
    · exact hescape

theorem takeQuoted_suffix {cs value rest : List Char} (h : takeQuoted cs = some (value, rest)) :
    rest <:+ cs ∧ value.length + rest.length + 1 ≤ cs.length := by
  induction cs using takeQuoted.induct generalizing value with
  | case1 => cases h
  | case2 => cases h
  | case3 d cs ih =>
    rw [takeQuoted] at h
    obtain ⟨⟨v, r⟩, hv, he⟩ := Option.map_eq_some_iff.mp h
    obtain ⟨rfl, rfl⟩ := Prod.mk.inj he
    obtain ⟨hsuffix, hlength⟩ := ih hv
    refine ⟨hsuffix.trans (List.suffix_append ['\\', d] cs), ?_⟩
    simp only [List.length_cons]
    omega
  | case4 cs hlast hescape =>
    rw [takeQuoted, if_pos rfl] at h
    · obtain ⟨rfl, rfl⟩ := Prod.mk.inj (Option.some.inj h)
      exact ⟨List.suffix_cons _ _, by simp⟩
    · exact hlast
    · exact hescape
  | case5 c cs hlast hescape hquote ih =>
    rw [takeQuoted, if_neg hquote] at h
    · obtain ⟨⟨v, r⟩, hv, he⟩ := Option.map_eq_some_iff.mp h
      obtain ⟨rfl, rfl⟩ := Prod.mk.inj he
      obtain ⟨hsuffix, hlength⟩ := ih hv
      refine ⟨hsuffix.trans (List.suffix_cons c cs), ?_⟩
      simp only [List.length_cons]
      omega
    · exact hlast
    · exact hescape

theorem takeValue_suffix {cs value rest : List Char} (h : takeValue cs = some (value, rest)) : rest <:+ cs := by
  unfold takeValue at h
  split at h
  · exact (takeQuoted_suffix h).1.trans (List.suffix_cons _ _)
  · obtain rfl := congrArg Prod.snd (Option.some.inj h)
    exact takeUnquoted_suffix _

theorem takeUnquoted_nil {cs : List Char} (hhead : ∀ c ds, cs = c :: ds → isBlank c = false)
    (htight : cs.length ≤ (takeUnquoted cs).1.length + span (takeUnquoted cs).2)
    (hnil : (takeUnquoted cs).1 = []) : cs = [] := by
  cases cs using takeUnquoted.fun_cases with
  | case1 => rfl
  | case2 => simp [takeUnquoted] at htight
  | case3 d cs => simp [takeUnquoted] at hnil
  | case4 c cs hlast hescape hblank =>
    have hfalse := hhead c cs rfl
    rw [hblank] at hfalse
    cases hfalse
  | case5 c cs hlast hescape hblank =>
    rw [takeUnquoted, if_neg hblank] at hnil
    · cases hnil
    · exact hlast
    · exact hescape

theorem takeValue_span {cs value rest : List Char} (hhead : ∀ c ds, cs = c :: ds → isBlank c = false)
    (h : takeValue cs = some (value, rest)) :
    value.length + span rest ≤ cs.length ∧
      (cs.length ≤ value.length + span rest → Unescaped value ∧ (value = [] → cs = [])) := by
  unfold takeValue at h
  split at h
  · have hlength := (takeQuoted_suffix h).2
    have hspan := span_le rest
    simp only [List.length_cons]
    exact ⟨by omega, fun htight => by omega⟩
  · rename_i hquote
    obtain ⟨hle, hplain⟩ := takeUnquoted_span cs
    obtain ⟨rfl, rfl⟩ := Prod.mk.inj (Option.some.inj h)
    refine ⟨hle, fun htight => ⟨⟨hplain htight, ?_⟩, takeUnquoted_nil hhead htight⟩⟩
    intro hfirst
    cases cs using takeUnquoted.fun_cases with
    | case1 => simp [takeUnquoted] at hfirst
    | case2 => simp [takeUnquoted] at hfirst
    | case3 d cs =>
      have hrest := (takeUnquoted_span cs).1
      simp only [takeUnquoted, List.length_cons] at htight
      omega
    | case4 c cs hlast hescape hblank =>
      rw [takeUnquoted, if_pos hblank] at hfirst
      · cases hfirst
      · exact hlast
      · exact hescape
    | case5 c cs hlast hescape hblank =>
      rw [takeUnquoted, if_neg hblank] at hfirst
      · obtain rfl := Option.some.inj hfirst
        exact hquote cs rfl
      · exact hlast
      · exact hescape

theorem takeAssignment_some {cs rest : List Char} {a : Assignment} (h : takeAssignment cs = some (a, rest)) :
    ∃ blanks after, cs = a.1 ++ blanks ++ '=' :: after ∧ takeValue (skipBlanks after) = some (a.2, rest) := by
  unfold takeAssignment at h
  split at h
  · rename_i after hafter
    obtain ⟨⟨value, rest'⟩, hvalue, he⟩ := Option.map_eq_some_iff.mp h
    obtain ⟨rfl, rfl⟩ := Prod.mk.inj he
    obtain ⟨blanks, hblanks⟩ := skipBlanks_suffix (cs.dropWhile (fun c => !endsName c))
    rw [hafter] at hblanks
    refine ⟨blanks, after, ?_, hvalue⟩
    rw [List.append_assoc, hblanks, List.takeWhile_append_dropWhile]
  · cases h

theorem takeAssignment_suffix {cs rest : List Char} {a : Assignment} (h : takeAssignment cs = some (a, rest)) :
    rest <:+ cs ∧ rest.length < cs.length := by
  obtain ⟨blanks, after, hcs, hvalue⟩ := takeAssignment_some h
  have hrest := (takeValue_suffix hvalue).trans (skipBlanks_suffix after)
  have hlength := hrest.length_le
  rw [hcs]
  constructor
  · exact hrest.trans ((List.suffix_cons '=' after).trans (List.suffix_append _ _))
  · simp only [List.length_append, List.length_cons]
    omega

theorem takeAssignment_span {cs rest : List Char} {a : Assignment} (h : takeAssignment cs = some (a, rest)) :
    weight a + span rest ≤ cs.length + 1 ∧
      (cs.length + 1 ≤ weight a + span rest →
        Unescaped a.2 ∧ (a.2 = [] → cs.getLast? = some '=')) := by
  obtain ⟨blanks, after, hcs, hvalue⟩ := takeAssignment_some h
  have hskip := (skipBlanks_suffix after).length_le
  obtain ⟨hle, htight⟩ := takeValue_span (fun c ds he => skipBlanks_head he) hvalue
  have hlength : cs.length = a.1.length + blanks.length + (after.length + 1) := by
    rw [hcs]
    simp only [List.length_append, List.length_cons]
  unfold weight
  refine ⟨by omega, fun hweight => ?_⟩
  obtain ⟨hplain, hempty⟩ := htight (by omega)
  refine ⟨hplain, fun hnil => ?_⟩
  have hskipped : (skipBlanks after).length = 0 := by rw [hempty hnil, List.length_nil]
  have hafter : after = [] := by
    apply List.eq_nil_of_length_eq_zero
    omega
  rw [hcs, hafter]
  simp

theorem parseLoop_blank {cs : List Char} (fuel : ℕ) (h : skipBlanks cs = []) : parseLoop fuel cs = some [] := by
  cases fuel <;> simp [parseLoop, h]

theorem parseLoop_zero {c : Char} {cs ds : List Char} (h : skipBlanks cs = c :: ds) : parseLoop 0 cs = none := by
  simp [parseLoop, h]

theorem parseLoop_succ {c : Char} {cs ds : List Char} (fuel : ℕ) (h : skipBlanks cs = c :: ds) :
    parseLoop (fuel + 1) cs =
      (takeAssignment (c :: ds)).bind (fun taken => (parseLoop fuel taken.2).map (taken.1 :: ·)) := by
  rw [parseLoop, h]

theorem parseLoop_fuel {fuel other : ℕ} {cs : List Char} (hfuel : cs.length ≤ fuel) (hother : cs.length ≤ other) :
    parseLoop fuel cs = parseLoop other cs := by
  induction fuel generalizing other cs with
  | zero =>
    have hnil : skipBlanks cs = [] := by
      rw [List.eq_nil_of_length_eq_zero (Nat.le_zero.mp hfuel)]
      rfl
    rw [parseLoop_blank 0 hnil, parseLoop_blank other hnil]
  | succ fuel ih =>
    cases hcs : skipBlanks cs with
    | nil => rw [parseLoop_blank _ hcs, parseLoop_blank other hcs]
    | cons c ds =>
      have hlength := (skipBlanks_suffix cs).length_le
      rw [hcs, List.length_cons] at hlength
      cases other with
      | zero => omega
      | succ other =>
        rw [parseLoop_succ fuel hcs, parseLoop_succ other hcs]
        cases htake : takeAssignment (c :: ds) with
        | none => rfl
        | some taken =>
          obtain ⟨a, rest⟩ := taken
          have hrest := (takeAssignment_suffix htake).2
          rw [List.length_cons] at hrest
          have hloop : parseLoop fuel rest = parseLoop other rest := ih (by omega) (by omega)
          simp only [Option.bind_some, hloop]

theorem getLast_suffix {cs ds : List Char} {c : Char} (h : cs <:+ ds) (hlast : cs.getLast? = some c) :
    ds.getLast? = some c := by
  obtain ⟨front, rfl⟩ := h
  rw [List.getLast?_append, hlast, Option.some_or]

theorem parseLoop_span {fuel : ℕ} {cs : List Char} {as : List Assignment} (h : parseLoop fuel cs = some as) :
    (as.map weight).sum ≤ span cs ∧
      (span cs ≤ (as.map weight).sum →
        ∀ a ∈ as, Unescaped a.2 ∧ (a.2 = [] → cs.getLast? = some '=')) := by
  induction fuel generalizing cs as with
  | zero =>
    cases hcs : skipBlanks cs with
    | nil =>
      rw [parseLoop_blank 0 hcs] at h
      obtain rfl := Option.some.inj h
      simp
    | cons c ds =>
      rw [parseLoop_zero hcs] at h
      cases h
  | succ fuel ih =>
    cases hcs : skipBlanks cs with
    | nil =>
      rw [parseLoop_blank _ hcs] at h
      obtain rfl := Option.some.inj h
      simp
    | cons c ds =>
      have hsuffix := skipBlanks_suffix cs
      rw [hcs] at hsuffix
      have hspan : (c :: ds).length + 1 ≤ span cs := span_mono hsuffix.length_le
      rw [parseLoop_succ fuel hcs] at h
      obtain ⟨⟨a, rest⟩, htake, htail⟩ := Option.bind_eq_some_iff.mp h
      obtain ⟨as', hrest, rfl⟩ := Option.map_eq_some_iff.mp htail
      dsimp only at hrest ⊢
      obtain ⟨hfirst, hfirstTight⟩ := takeAssignment_span htake
      obtain ⟨hothers, hothersTight⟩ := ih hrest
      have hrestSuffix := (takeAssignment_suffix htake).1.trans hsuffix
      rw [List.map_cons, List.sum_cons]
      refine ⟨by omega, fun htight => ?_⟩
      rw [List.forall_mem_cons]
      constructor
      · obtain ⟨hplain, hempty⟩ := hfirstTight (by omega)
        exact ⟨hplain, fun hnil => getLast_suffix hsuffix (hempty hnil)⟩
      · intro b hb
        obtain ⟨hplain, hempty⟩ := hothersTight (by omega) b hb
        exact ⟨hplain, fun hnil => getLast_suffix hrestSuffix (hempty hnil)⟩

/-! ### Rendered assignments -/

def assign (a : Assignment) : List Char := a.1 ++ '=' :: a.2

def render : List Assignment → List Char
  | [] => []
  | [a] => assign a
  | a :: b :: as => assign a ++ ' ' :: render (b :: as)

structure Keyword (name : List Char) : Prop where
  nonempty : name ≠ []
  characters : ∀ c ∈ name, endsName c = false ∧ c ≠ '\x00'

structure Plain (value : List Char) : Prop where
  nonempty : value ≠ []
  unescaped : Unescaped value
  characters : '\x00' ∉ value

theorem assign_length (a : Assignment) : (assign a).length + 1 = weight a := by
  simp only [assign, weight, List.length_append, List.length_cons]
  omega

theorem render_span (as : List Assignment) : span (render as) = (as.map weight).sum := by
  induction as using render.induct with
  | case1 => rfl
  | case2 a =>
    have hne : assign a ≠ [] := by simp [assign]
    rw [render, span, if_neg hne, assign_length, List.map_singleton, List.sum_singleton]
  | case3 a b as ih =>
    have hne : render (b :: as) ≠ [] := by cases as <;> simp [render, assign]
    have hne' : assign a ++ ' ' :: render (b :: as) ≠ [] := by simp
    rw [span, if_neg hne] at ih
    rw [render, span, if_neg hne', List.map_cons, List.sum_cons, ← ih, ← assign_length]
    simp only [List.length_append, List.length_cons]
    omega

theorem render_suffix {as : List Assignment} {a : Assignment} (h : as.getLast? = some a) : assign a <:+ render as := by
  induction as using render.induct with
  | case1 => cases h
  | case2 b =>
    obtain rfl := Option.some.inj h
    exact List.suffix_refl _
  | case3 b c as ih =>
    rw [List.getLast?_cons_cons] at h
    rw [render]
    exact (ih h).trans ((List.suffix_cons ' ' _).trans (List.suffix_append _ _))

theorem skipBlanks_of_head {c : Char} {cs : List Char} (h : isBlank c = false) : skipBlanks (c :: cs) = c :: cs := by
  simp [skipBlanks, h]

theorem takeUnquoted_plain {value : List Char} (h : ∀ c ∈ value, isBlank c = false ∧ c ≠ '\\') (rest : List Char) :
    takeUnquoted (value ++ ' ' :: rest) = (value, rest) ∧ takeUnquoted value = (value, []) := by
  induction value with
  | nil => exact ⟨rfl, rfl⟩
  | cons c value ih =>
    obtain ⟨⟨hblank, hescape⟩, hvalue⟩ := List.forall_mem_cons.mp h
    obtain ⟨hsep, hend⟩ := ih hvalue
    constructor
    · rw [List.cons_append, takeUnquoted, if_neg (by simp [hblank]), hsep]
      · intro hc
        exact absurd hc hescape
      · intro _ _ hc
        exact absurd hc hescape
    · rw [takeUnquoted, if_neg (by simp [hblank]), hend]
      · intro hc
        exact absurd hc hescape
      · intro _ _ hc
        exact absurd hc hescape

theorem takeValue_plain {value : List Char} (h : Plain value) (rest : List Char) :
    takeValue (skipBlanks (value ++ ' ' :: rest)) = some (value, rest) ∧
      takeValue (skipBlanks value) = some (value, []) := by
  obtain ⟨hsep, hend⟩ := takeUnquoted_plain h.unescaped.1 rest
  cases value with
  | nil => exact absurd rfl h.nonempty
  | cons c value =>
    have hblank := (h.unescaped.1 c List.mem_cons_self).1
    have hquote : c ≠ '\'' := by
      intro hc
      exact h.unescaped.2 (by rw [List.head?_cons, hc])
    rw [List.cons_append, skipBlanks_of_head hblank, skipBlanks_of_head hblank]
    constructor
    · rw [takeValue]
      · rw [← List.cons_append, hsep]
      · intro _ hc
        exact hquote (List.cons.inj hc).1
    · rw [takeValue]
      · rw [hend]
      · intro _ hc
        exact hquote (List.cons.inj hc).1

theorem takeAssignment_plain {a : Assignment} (hname : Keyword a.1) (hvalue : Plain a.2) (rest : List Char) :
    takeAssignment (assign a ++ ' ' :: rest) = some (a, rest) ∧ takeAssignment (assign a) = some (a, []) := by
  have hpass : ∀ c ∈ a.1, (!endsName c) = true := by
    intro c hc
    rw [(hname.characters c hc).1]
    rfl
  have hequals (tail : List Char) : (a.1 ++ '=' :: tail).takeWhile (fun c => !endsName c) = a.1 ∧
      skipBlanks ((a.1 ++ '=' :: tail).dropWhile (fun c => !endsName c)) = '=' :: tail := by
    rw [List.takeWhile_append_of_pos hpass, List.dropWhile_append_of_pos hpass]
    constructor
    · simp [endsName]
    · have hstop : ('=' :: tail).dropWhile (fun c => !endsName c) = '=' :: tail := by simp [endsName]
      rw [hstop]
      exact skipBlanks_of_head rfl
  obtain ⟨hsep, hend⟩ := takeValue_plain hvalue rest
  constructor
  · obtain ⟨htake, hskip⟩ := hequals (a.2 ++ ' ' :: rest)
    rw [assign, List.append_assoc, List.cons_append]
    simp only [takeAssignment, htake, hskip, hsep, Option.map_some]
  · obtain ⟨htake, hskip⟩ := hequals a.2
    rw [assign]
    simp only [takeAssignment, htake, hskip, hend, Option.map_some]

theorem assign_head {a : Assignment} (hname : Keyword a.1) (rest : List Char) :
    ∃ c ds, skipBlanks (assign a ++ rest) = c :: ds ∧ assign a ++ rest = c :: ds := by
  obtain ⟨name, value⟩ := a
  cases name with
  | nil => exact absurd rfl hname.nonempty
  | cons c name =>
    have hblank : isBlank c = false := by
      have hends := (hname.characters c List.mem_cons_self).1
      rw [endsName, Bool.or_eq_false_iff] at hends
      exact hends.2
    exact ⟨c, _, skipBlanks_of_head hblank, rfl⟩

theorem parseLoop_render {as : List Assignment} (hnames : ∀ a ∈ as, Keyword a.1) (hvalues : ∀ a ∈ as, Plain a.2)
    {fuel : ℕ} (hfuel : (render as).length ≤ fuel) : parseLoop fuel (render as) = some as := by
  induction as using render.induct generalizing fuel with
  | case1 => exact parseLoop_blank fuel rfl
  | case2 a =>
    rw [List.forall_mem_singleton] at hnames hvalues
    obtain ⟨-, htake⟩ := takeAssignment_plain hnames hvalues []
    obtain ⟨c, ds, hskip, htext⟩ := assign_head hnames []
    rw [List.append_nil] at hskip htext
    rw [render] at hfuel ⊢
    cases fuel with
    | zero =>
      rw [htext] at hfuel
      cases hfuel
    | succ fuel =>
      rw [parseLoop_succ fuel hskip, ← htext, htake, Option.bind_some, parseLoop_blank fuel rfl]
      rfl
  | case3 a b as ih =>
    rw [List.forall_mem_cons] at hnames hvalues
    obtain ⟨htake, -⟩ := takeAssignment_plain hnames.1 hvalues.1 (render (b :: as))
    obtain ⟨c, ds, hskip, htext⟩ := assign_head hnames.1 (' ' :: render (b :: as))
    rw [render] at hfuel ⊢
    simp only [List.length_append, List.length_cons] at hfuel
    cases fuel with
    | zero => omega
    | succ fuel =>
      rw [parseLoop_succ fuel hskip, ← htext, htake, Option.bind_some, ih hnames.2 hvalues.2 (by omega)]
      rfl

theorem render_characters {as : List Assignment} (hnames : ∀ a ∈ as, Keyword a.1) :
    '\x00' ∉ render as ↔ ∀ a ∈ as, '\x00' ∉ a.2 := by
  induction as using render.induct with
  | case1 => simp [render]
  | case2 a =>
    rw [List.forall_mem_singleton] at hnames ⊢
    have hname : '\x00' ∉ a.1 := fun hc => (hnames.characters _ hc).2 rfl
    simp [render, assign, hname]
  | case3 a b as ih =>
    rw [List.forall_mem_cons] at hnames
    have hname : '\x00' ∉ a.1 := fun hc => (hnames.1.characters _ hc).2 rfl
    rw [List.forall_mem_cons, ← ih hnames.2, render]
    simp [assign, hname]

theorem parse_render {as : List Assignment} (hnames : ∀ a ∈ as, Keyword a.1) (hvalues : ∀ a ∈ as, Plain a.2) :
    parse (render as) = some as := by
  have hnul := (render_characters hnames).mpr (fun a ha => (hvalues a ha).characters)
  have hcut : (render as).takeWhile (fun c => c ≠ '\x00') = render as := by
    rw [List.takeWhile_eq_self_iff]
    intro c hc
    have hne : c ≠ '\x00' := fun h => hnul (h ▸ hc)
    simpa using hne
  unfold parse
  rw [hcut]
  exact parseLoop_render hnames hvalues le_rfl

theorem setting_mem {as : List Assignment} {keyword value : List Char} (h : setting as keyword = some value) :
    (keyword, value) ∈ as := by
  obtain ⟨⟨name, found⟩, hfind, rfl⟩ := Option.map_eq_some_iff.mp h
  have hname := List.find?_some hfind
  rw [decide_eq_true_eq] at hname
  dsimp only at hname
  rw [← hname]
  exact List.mem_reverse.mp (List.mem_of_find?_eq_some hfind)

theorem setting_of_mem {as : List Assignment} (hnodup : (as.map Prod.fst).Nodup) {a : Assignment} (ha : a ∈ as) :
    setting as a.1 = some a.2 := by
  cases hs : setting as a.1 with
  | none =>
    unfold setting at hs
    rw [Option.map_eq_none_iff, List.find?_eq_none] at hs
    exact absurd (hs a (List.mem_reverse.mpr ha)) (by simp)
  | some value =>
    have hmem := setting_mem hs
    have heq := List.inj_on_of_nodup_map hnodup hmem ha rfl
    rw [← heq]

theorem parse_render_iff {as : List Assignment} (hnames : ∀ a ∈ as, Keyword a.1)
    (hnodup : (as.map Prod.fst).Nodup) (hlast : (render as).getLast? ≠ some '=') :
    (∃ parsed, parse (render as) = some parsed ∧ ∀ keyword, setting parsed keyword = setting as keyword) ↔
      ∀ a ∈ as, Plain a.2 := by
  constructor
  · rintro ⟨parsed, hparse, hsettings⟩
    have hsubset : as ⊆ parsed := by
      intro a ha
      apply setting_mem
      rw [hsettings, setting_of_mem hnodup ha]
    obtain ⟨chosen, hperm, hsublist⟩ := List.subperm_of_subset (List.Nodup.of_map _ hnodup) hsubset
    have hweight : (as.map weight).sum ≤ (parsed.map weight).sum := by
      rw [← (hperm.map weight).sum_eq]
      exact (hsublist.map weight).sum_le_sum (fun _ _ => Nat.zero_le _)
    have hearlier := List.takeWhile_prefix (l := render as) (fun c => decide (c ≠ '\x00'))
    have hcut := span_mono hearlier.length_le
    obtain ⟨hle, htight⟩ := parseLoop_span hparse
    rw [← render_span] at hweight
    have hsame : (render as).takeWhile (fun c => decide (c ≠ '\x00')) = render as := by
      apply hearlier.eq_of_length
      exact span_injective (by omega)
    rw [hsame] at htight
    have hnul : '\x00' ∉ render as := by
      intro hc
      have hpass := List.takeWhile_eq_self_iff.mp hsame _ hc
      simp at hpass
    intro a ha
    obtain ⟨hplain, hempty⟩ := htight hweight a (hsubset ha)
    exact ⟨fun hnil => hlast (hempty hnil), hplain, (render_characters hnames).mp hnul a ha⟩
  · intro hvalues
    exact ⟨as, parse_render hnames hvalues, fun _ => rfl⟩

end LiquidPetProject.Conninfo
