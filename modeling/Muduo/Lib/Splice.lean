import Mathlib.Data.List.Basic

/-!
# Overwriting and reading ranges of a list

A contiguous memory block as a list: `slice l i j` is the half-open range
`[i, j)`, `splice l i xs` overwrites `xs.length` cells from `i` on, and
`moveDown` is the forward cell-by-cell copy of a range of the block onto
itself. The last one reads cells the copy may already have written, so it
is an overwrite of the *original* range only when it moves towards the
front (`moveDown_eq_splice`).
-/

namespace Lib

variable {α : Type*}

/-- The cells `[i, j)`. -/
def slice (l : List α) (i j : Nat) : List α := (l.take j).drop i

/-- Overwrite the cells from `i` on with `xs`. -/
def splice (l : List α) (i : Nat) (xs : List α) : List α :=
  l.take i ++ xs ++ l.drop (i + xs.length)

/-- Copy `n` cells from `src` to `dst`, one at a time and in increasing
order. -/
def moveDown (l : List α) (src dst : Nat) : Nat → List α
  | 0 => l
  | n + 1 =>
      match l[src]? with
      | some a => moveDown (l.set dst a) (src + 1) (dst + 1) n
      | none => l

/-! ## Lengths -/

theorem length_slice {l : List α} {i j : Nat} (h : j ≤ l.length) :
    (slice l i j).length = j - i := by
  simp [slice, Nat.min_eq_left h]

theorem length_splice {l xs : List α} {i : Nat} (h : i + xs.length ≤ l.length) :
    (splice l i xs).length = l.length := by
  simp only [splice, List.length_append, List.length_take, List.length_drop]
  omega

theorem length_moveDown (l : List α) (src dst n : Nat) :
    (moveDown l src dst n).length = l.length := by
  induction n generalizing l src dst with
  | zero => rfl
  | succ n ih =>
      rw [moveDown]
      cases l[src]? with
      | none => rfl
      | some a => exact (ih _ _ _).trans List.length_set

/-! ## Reading ranges -/

theorem slice_self (l : List α) (i : Nat) : slice l i i = [] := by
  simp [slice]

theorem getElem?_slice (l : List α) (i j k : Nat) :
    (slice l i j)[k]? = if i + k < j then l[i + k]? else none := by
  simp only [slice, List.getElem?_drop, List.getElem?_take]

theorem drop_slice (l : List α) (i j n : Nat) :
    (slice l i j).drop n = slice l (i + n) j := by
  simp [slice, List.drop_drop]

theorem take_slice (l : List α) {i j n : Nat} (h : i + n ≤ j) :
    (slice l i j).take n = slice l i (i + n) := by
  apply List.ext_getElem?
  intro k
  simp only [List.getElem?_take, getElem?_slice]
  by_cases hk : k < n
  · rw [if_pos hk, if_pos (by omega), if_pos (by omega)]
  · rw [if_neg hk, if_neg (by omega)]

theorem slice_append_slice (l : List α) {i j k : Nat} (hij : i ≤ j) (hjk : j ≤ k) :
    slice l i j ++ slice l j k = slice l i k := by
  simp only [slice]
  have h : l.take k = l.take j ++ (l.take k).drop j := by
    conv_lhs => rw [← List.take_append_drop j (l.take k)]
    rw [List.take_take, Nat.min_eq_left hjk]
  conv_rhs => rw [h]
  by_cases hl : j ≤ l.length
  · rw [List.drop_append_of_le_length (by simp; omega)]
  · have hlk : (l.take k).drop j = [] := by simp; omega
    rw [hlk, List.append_nil, List.append_nil]

/-- A range below the growth of the block is unaffected by it. -/
theorem slice_append_left {l m : List α} {i j : Nat} (h : j ≤ l.length) :
    slice (l ++ m) i j = slice l i j := by
  simp [slice, List.take_append_of_le_length h]

/-! ## Reading back an overwrite -/

theorem getElem?_splice {l xs : List α} {i : Nat} (h : i + xs.length ≤ l.length) (k : Nat) :
    (splice l i xs)[k]? =
      if k < i then l[k]? else if k < i + xs.length then xs[k - i]? else l[k]? := by
  have hi : (l.take i).length = i := by simp; omega
  simp only [splice]
  split
  · rename_i hk
    rw [List.append_assoc, List.getElem?_append_left (by omega), List.getElem?_take_of_lt hk]
  · split
    · rw [List.append_assoc, List.getElem?_append_right (by omega), hi,
        List.getElem?_append_left (by omega)]
    · rw [List.getElem?_append_right (by simp; omega), List.getElem?_drop]
      congr 1
      simp only [List.length_append, hi]
      omega

theorem slice_splice_self {l xs : List α} {i : Nat} (h : i + xs.length ≤ l.length) :
    slice (splice l i xs) i (i + xs.length) = xs := by
  apply List.ext_getElem?
  intro k
  rw [getElem?_slice, getElem?_splice h]
  by_cases hk : i + k < i + xs.length
  · rw [if_pos hk, if_neg (by omega), if_pos hk, Nat.add_sub_cancel_left]
  · rw [if_neg hk, List.getElem?_eq_none (by omega)]

theorem slice_splice_before {l xs : List α} {i j k : Nat} (h : k + xs.length ≤ l.length)
    (hjk : j ≤ k) : slice (splice l k xs) i j = slice l i j := by
  apply List.ext_getElem?
  intro n
  rw [getElem?_slice, getElem?_slice, getElem?_splice h]
  split
  · rw [if_pos (by omega)]
  · rfl

theorem slice_splice_after {l xs : List α} {i j k : Nat} (h : k + xs.length ≤ l.length)
    (hik : k + xs.length ≤ i) : slice (splice l k xs) i j = slice l i j := by
  apply List.ext_getElem?
  intro n
  rw [getElem?_slice, getElem?_slice, getElem?_splice h]
  split
  · rw [if_neg (by omega), if_neg (by omega)]
  · rfl

/-! ## Moving a range towards the front -/

/-- Moving towards the front never reads a cell it has already written, so
the result is the overwrite by the original range. -/
theorem moveDown_eq_splice : ∀ {l : List α} {src dst n : Nat},
    dst ≤ src → src + n ≤ l.length →
      moveDown l src dst n = splice l dst (slice l src (src + n))
  | l, src, dst, 0, _, _ => by simp [moveDown, splice, slice_self]
  | l, src, dst, n + 1, hds, hn => by
      have hsrc : src < l.length := by omega
      have hget : l[src]? = some l[src] := List.getElem?_eq_getElem hsrc
      rw [moveDown, hget]
      have hlen : (l.set dst l[src]).length = l.length := List.length_set
      have hlow : (slice (l.set dst l[src]) (src + 1) (src + 1 + n)).length = n := by
        rw [length_slice (by omega)]; omega
      have hsl : (slice l src (src + (n + 1))).length = n + 1 := by
        rw [length_slice (by omega)]; omega
      show moveDown (l.set dst l[src]) (src + 1) (dst + 1) n = _
      rw [moveDown_eq_splice (by omega) (by omega)]
      apply List.ext_getElem?
      intro k
      rw [getElem?_splice (by omega), getElem?_splice (by omega), hlow, hsl]
      rcases Nat.lt_trichotomy k dst with hk | rfl | hk
      · rw [if_pos (by omega), if_pos hk, List.getElem?_set_ne (by omega)]
      · rw [if_pos (by omega), if_neg (by omega), if_pos (by omega),
          List.getElem?_set_self (by omega), getElem?_slice, if_pos (by omega), Nat.sub_self]
        exact hget.symm
      · rw [if_neg (show ¬k < dst + 1 by omega), if_neg (show ¬k < dst by omega),
          getElem?_slice, getElem?_slice]
        by_cases hkn : k < dst + 1 + n
        · rw [if_pos hkn, if_pos (by omega), if_pos (by omega), if_pos (by omega),
            List.getElem?_set_ne (by omega)]
          congr 1
          omega
        · rw [if_neg hkn, if_neg (by omega), List.getElem?_set_ne (by omega)]

end Lib
