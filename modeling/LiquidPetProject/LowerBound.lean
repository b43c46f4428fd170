import Mathlib.Data.List.Basic
import Mathlib.Tactic

namespace LiquidPetProject.LowerBound

variable {α : Type}

def search (below : α → Bool) (xs : List α) : ℕ → ℕ → ℕ → ℕ
  | 0, first, _ => first
  | fuel + 1, first, len =>
    if len = 0 then first
    else match xs[first + len / 2]? with
      | none => first
      | some x =>
        if below x then search below xs fuel (first + len / 2 + 1) (len - len / 2 - 1)
        else search below xs fuel first (len / 2)

def lowerBound (below : α → Bool) (xs : List α) : ℕ := search below xs xs.length 0 xs.length

def Partitioned (below : α → Bool) (xs : List α) : Prop :=
  xs.Pairwise (fun x y => below y = true → below x = true)

theorem Partitioned.getElem {below : α → Bool} {xs : List α} (h : Partitioned below xs)
    {i j : ℕ} (hij : i ≤ j) (hi : i < xs.length) (hj : j < xs.length) (hb : below xs[j] = true) :
    below xs[i] = true := by
  rcases Nat.eq_or_lt_of_le hij with rfl | hlt
  · exact hb
  · exact List.pairwise_iff_getElem.mp h i j hi hj hlt hb

theorem search_correct {below : α → Bool} {xs : List α} (h : Partitioned below xs)
    (fuel first len : ℕ) (hfuel : len ≤ fuel) (hlen : first + len ≤ xs.length)
    (hleft : ∀ i (hi : i < xs.length), i < first → below xs[i] = true)
    (hright : ∀ i (hi : i < xs.length), first + len ≤ i → below xs[i] = false) :
    search below xs fuel first len ≤ xs.length ∧
      ∀ i (hi : i < xs.length), below xs[i] = true ↔ i < search below xs fuel first len := by
  induction fuel generalizing first len with
  | zero =>
    obtain rfl : len = 0 := by omega
    refine ⟨by simpa [search] using hlen, fun i hi => ⟨fun hb => ?_, hleft i hi⟩⟩
    by_contra hge
    simp [hright i hi (by simpa [search] using hge)] at hb
  | succ fuel ih =>
    unfold search
    split_ifs with hz
    · subst hz
      refine ⟨by simpa using hlen, fun i hi => ⟨fun hb => ?_, hleft i hi⟩⟩
      by_contra hge
      simp [hright i hi (by omega)] at hb
    · have hm : first + len / 2 < xs.length := by omega
      rw [List.getElem?_eq_getElem hm]
      dsimp only
      split_ifs with hb
      · apply ih _ _ (by omega) (by omega)
        · intro i hi hlt
          exact h.getElem (by omega) hi hm hb
        · intro i hi hge
          exact hright i hi (by omega)
      · apply ih _ _ (by omega) (by omega) hleft
        intro i hi hge
        by_contra hi'
        exact hb (h.getElem hge hm hi (by simpa using hi'))

theorem lowerBound_correct {below : α → Bool} {xs : List α} (h : Partitioned below xs) :
    lowerBound below xs ≤ xs.length ∧
      ∀ i (hi : i < xs.length), below xs[i] = true ↔ i < lowerBound below xs :=
  search_correct h _ _ _ (le_refl _) (by simp) (by omega) (by omega)

end LiquidPetProject.LowerBound
