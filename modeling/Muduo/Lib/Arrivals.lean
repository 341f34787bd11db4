import Mathlib.Data.Nat.Init

/-!
# One item per arrival

Items become available over time; after each arrival a server takes at most
one of those available and not yet taken. `le_served_iff` says when `k`
items have been taken by arrival `n`: at no earlier point were there fewer
arrivals to come than items missing.
-/

namespace Lib

variable {available : Nat → Nat}

/-- Items taken after `n` arrivals, `available i` being there after `i`. -/
def served (available : Nat → Nat) : Nat → Nat
  | 0 => 0
  | n + 1 => min (available (n + 1)) (served available n + 1)

theorem le_served_iff (h₀ : available 0 = 0) {k n : Nat} :
    k ≤ served available n ↔ ∀ i ≤ n, k ≤ available i + (n - i) := by
  induction n generalizing k with
  | zero =>
      constructor
      · rintro hk i hi
        obtain rfl := Nat.le_zero.mp hi
        rw [h₀]
        exact hk
      · intro h
        have hk := h 0 (Nat.le_refl 0)
        rwa [h₀] at hk
  | succ n ih =>
      rw [served, Nat.le_min, ← Nat.sub_le_iff_le_add, ih]
      constructor
      · rintro ⟨hlast, hbefore⟩ i hi
        by_cases hin : i ≤ n
        · have := hbefore i hin
          omega
        · obtain rfl : i = n + 1 := by omega
          omega
      · intro h
        refine ⟨?_, ?_⟩
        · have := h (n + 1) (Nat.le_refl _)
          omega
        · intro i hi
          have := h i (Nat.le_succ_of_le hi)
          omega

end Lib
