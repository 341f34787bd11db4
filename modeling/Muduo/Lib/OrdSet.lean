import Mathlib.Order.Lattice
import Mathlib.Data.List.TakeWhile

/-!
# Ordered sets

A finite set kept as a strictly increasing list, with the operations a
balanced tree offers through iterators: the least element, insertion with a
report of whether anything was inserted, and the cut at a lower bound.
-/

namespace Lib

structure OrdSet (α : Type*) [LinearOrder α] where
  elems : List α
  sorted : elems.Pairwise (· < ·)

namespace OrdSet

variable {α : Type*} [LinearOrder α]

def empty : OrdSet α := ⟨[], .nil⟩

def begin? (s : OrdSet α) : Option α := s.elems.head?

/-- The elements before `lower_bound(x)`. -/
def below (s : OrdSet α) (x : α) : List α := s.elems.takeWhile (· < x)

/-- The elements from `lower_bound(x)` on. -/
def notBelow (s : OrdSet α) (x : α) : List α := s.elems.dropWhile (· < x)

theorem below_append_notBelow (s : OrdSet α) (x : α) : s.below x ++ s.notBelow x = s.elems :=
  List.takeWhile_append_dropWhile

theorem lt_of_mem_below {s : OrdSet α} {x y : α} (h : y ∈ s.below x) : y < x :=
  of_decide_eq_true (List.mem_takeWhile_imp (p := fun y => decide (y < x)) h)

theorem le_of_mem_dropWhile {l : List α} {x y : α} (hl : l.Pairwise (· < ·))
    (h : y ∈ l.dropWhile (· < x)) : x ≤ y := by
  induction l with
  | nil => cases h
  | cons a l ih =>
      rw [List.pairwise_cons] at hl
      by_cases ha : a < x
      · rw [List.dropWhile_cons, if_pos (decide_eq_true ha)] at h
        exact ih hl.2 h
      · rw [List.dropWhile_cons, if_neg (by simpa using ha)] at h
        have hxa : x ≤ a := not_lt.mp ha
        rcases List.mem_cons.mp h with rfl | hy
        · exact hxa
        · exact hxa.trans (le_of_lt (hl.1 y hy))

theorem le_of_mem_notBelow {s : OrdSet α} {x y : α} (h : y ∈ s.notBelow x) : x ≤ y :=
  le_of_mem_dropWhile s.sorted h

/-- `erase(begin(), lower_bound(x))` -/
def eraseBelow (s : OrdSet α) (x : α) : OrdSet α where
  elems := s.notBelow x
  sorted := s.sorted.sublist (List.dropWhile_sublist _)

/-- `insert(x)`: the set, and whether `x` was not in it. -/
def insert (s : OrdSet α) (x : α) : OrdSet α × Bool :=
  if h : x ∈ s.elems then (s, false)
  else
    (⟨s.below x ++ x :: s.notBelow x, by
      have happ := s.below_append_notBelow x
      have hs := s.sorted
      rw [← happ, List.pairwise_append] at hs
      have hlt : ∀ y ∈ s.notBelow x, x < y := by
        intro y hy
        refine lt_of_le_of_ne (le_of_mem_notBelow hy) ?_
        rintro rfl
        exact h (happ ▸ List.mem_append_right _ hy)
      rw [List.pairwise_append, List.pairwise_cons]
      refine ⟨hs.1, ⟨hlt, hs.2.1⟩, ?_⟩
      intro a ha b hb
      rcases List.mem_cons.mp hb with rfl | hb
      · exact lt_of_mem_below ha
      · exact hs.2.2 a ha b hb⟩, true)

variable {s : OrdSet α} {x y : α}

theorem insert_fresh (h : x ∉ s.elems) :
    (s.insert x).2 = true ∧ (s.insert x).1.elems = s.below x ++ x :: s.notBelow x := by
  unfold insert
  rw [dif_neg h]
  exact ⟨rfl, rfl⟩

/-- An insertion adds one element, up to order. -/
theorem insert_perm (h : x ∉ s.elems) : (s.insert x).1.elems.Perm (x :: s.elems) := by
  rw [(insert_fresh h).2]
  refine List.perm_middle.trans ?_
  rw [s.below_append_notBelow]

/-- The first element is the least. -/
theorem begin_le (h : s.begin? = some x) (hy : y ∈ s.elems) : x ≤ y := by
  obtain ⟨l, hl⟩ := s
  cases l with
  | nil => cases hy
  | cons a l =>
      obtain rfl := Option.some.inj h
      rcases List.mem_cons.mp hy with rfl | hy
      · exact le_rfl
      · exact le_of_lt ((List.pairwise_cons.mp hl).1 y hy)

theorem begin_mem (h : s.begin? = some x) : x ∈ s.elems := List.mem_of_head? h

theorem begin_eq_none : s.begin? = none ↔ s.elems = [] := List.head?_eq_none_iff

/-- The first element is determined by being in the set and least. -/
theorem begin_eq_of_le (hx : x ∈ s.elems) (hle : ∀ y ∈ s.elems, x ≤ y) : s.begin? = some x := by
  cases h : s.begin? with
  | none =>
      rw [begin_eq_none.mp h] at hx
      cases hx
  | some a => rw [le_antisymm (hle a (begin_mem h)) (begin_le h hx)]

end OrdSet

end Lib
