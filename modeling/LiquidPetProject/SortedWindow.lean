import Mathlib.Data.List.Sort

namespace LiquidPetProject.SortedWindow

section

variable {α : Type} {r : α → α → Prop} [DecidableRel r]

theorem filter_length (l : List α) (p : α → Bool) :
    ((l.insertionSort r).filter p).length = (l.filter p).length :=
  ((List.perm_insertionSort r l).filter p).length_eq

variable [Std.Total r] [IsTrans α r]

theorem take_before_drop {l : List α} {limit : ℕ} {a b : α} (ha : a ∈ (l.insertionSort r).take limit)
    (hb : b ∈ (l.insertionSort r).drop limit) : r a b := by
  have hsorted := List.pairwise_insertionSort r l
  rw [← List.take_append_drop limit (l.insertionSort r), List.pairwise_append] at hsorted
  exact hsorted.2.2 a ha b hb

theorem window_avoids {l : List α} {limit : ℕ} {a : α}
    (hmany : limit ≤ (l.filter (fun b => decide ¬ r a b)).length) : a ∉ (l.insertionSort r).take limit := by
  intro ha
  have hdrop : ((l.insertionSort r).drop limit).filter (fun b => decide ¬ r a b) = [] := by
    apply List.filter_eq_nil_iff.mpr
    intro b hb
    simp [take_before_drop ha hb]
  have hself : r a a := (Std.Total.total a a).elim id id
  have hlt : (((l.insertionSort r).take limit).filter (fun b => decide ¬ r a b)).length <
      ((l.insertionSort r).take limit).length :=
    List.length_filter_lt_length_iff_exists.mpr ⟨a, ha, by simp [hself]⟩
  have hle := List.length_take_le limit (l.insertionSort r)
  rw [← filter_length (r := r)] at hmany
  nth_rewrite 1 [← List.take_append_drop limit (l.insertionSort r)] at hmany
  rw [List.filter_append, hdrop, List.append_nil] at hmany
  omega

theorem window_meets {l : List α} {limit : ℕ} {p : α → Bool} {a : α} (ha : a ∈ l) (hp : p a = true)
    (hfew : (l.filter (fun b => !p b && decide (r b a))).length < limit) :
    ∃ b ∈ (l.insertionSort r).take limit, p b = true := by
  by_contra hnone
  push Not at hnone
  have hdrop : a ∈ (l.insertionSort r).drop limit := by
    have hmem := (List.mem_insertionSort r).mpr ha
    rw [← List.take_append_drop limit (l.insertionSort r), List.mem_append] at hmem
    exact hmem.resolve_left (fun htake => hnone a htake hp)
  have hall : ((l.insertionSort r).take limit).filter (fun b => !p b && decide (r b a)) =
      (l.insertionSort r).take limit := by
    apply List.filter_eq_self.mpr
    intro b hb
    simp [hnone b hb, take_before_drop hb hdrop]
  have hlong : limit < (l.insertionSort r).length := by
    have hpos := List.length_pos_of_mem hdrop
    rw [List.length_drop] at hpos
    omega
  have hsub := ((List.take_sublist limit (l.insertionSort r)).filter (fun b => !p b && decide (r b a))).length_le
  rw [hall, List.length_take, filter_length] at hsub
  omega

end

end LiquidPetProject.SortedWindow
