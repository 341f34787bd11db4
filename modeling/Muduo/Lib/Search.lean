import Mathlib.Data.List.DropRight
import Mathlib.Data.List.Infix

/-!
# Searching a byte string

`search pat s` is the offset of the first occurrence of `pat` in `s`, if
any. What the incremental readers need of it is that the first occurrence
does not move when the string grows at the end (`search_append`).
-/

namespace Lib

variable {α : Type*} [DecidableEq α]

/-- The first offset at which `pat` occurs. -/
def search (pat : List α) : List α → Option Nat
  | [] => if pat = [] then some 0 else none
  | a :: s =>
      if pat <+: a :: s then some 0
      else (search pat s).map (· + 1)

/-- An occurrence found is an occurrence. -/
theorem search_occurs {pat : List α} : ∀ {s : List α} {i : Nat},
    search pat s = some i → pat <+: s.drop i
  | [], i, h => by
      simp only [search] at h
      split at h
      · rename_i hp
        obtain rfl := Option.some.inj h
        simp [hp]
      · cases h
  | a :: s, i, h => by
      simp only [search] at h
      split at h
      · rename_i hp
        obtain rfl := Option.some.inj h
        exact hp
      · obtain ⟨j, hj, rfl⟩ := Option.map_eq_some_iff.mp h
        exact search_occurs (s := s) hj

/-- An occurrence lies inside the string. -/
theorem search_le {pat s : List α} {i : Nat} (h : search pat s = some i)
    (hpat : pat ≠ []) : i + pat.length ≤ s.length := by
  have hle := (search_occurs h).length_le
  have hpos := List.length_pos_iff.mpr hpat
  rw [List.length_drop] at hle
  omega

/-- The first occurrence stays first when the string grows at the end. -/
theorem search_append {pat : List α} (t : List α) : ∀ {s : List α} {i : Nat},
    search pat s = some i → search pat (s ++ t) = some i
  | [], i, h => by
      simp only [search] at h
      split at h
      · rename_i hp
        obtain rfl := Option.some.inj h
        cases t <;> simp [search, hp]
      · cases h
  | a :: s, i, h => by
      simp only [search] at h
      rw [List.cons_append, search]
      split at h
      · rename_i hp
        rw [if_pos (show pat <+: a :: (s ++ t) from hp.trans ⟨t, rfl⟩)]
        exact h
      · rename_i hp
        obtain ⟨j, hj, rfl⟩ := Option.map_eq_some_iff.mp h
        have hlen : pat.length ≤ (a :: s).length := by
          have := (search_occurs (s := s) hj).length_le
          simp only [List.length_drop, List.length_cons] at this ⊢
          omega
        have hnp : ¬pat <+: a :: (s ++ t) := fun hc =>
          hp ((List.isPrefix_append_of_length hlen).mp hc)
        rw [if_neg hnp, search_append t hj]
        rfl

/-- A pattern is found right after a string that does not hold its first
character. -/
theorem search_after {a : α} {pat l : List α} (r : List α) (h : a ∉ l) :
    search (a :: pat) (l ++ (a :: pat ++ r)) = some l.length := by
  induction l with
  | nil => simp [search]
  | cons b l ih =>
      rw [List.mem_cons, not_or] at h
      have hnp : ¬a :: pat <+: b :: (l ++ (a :: pat ++ r)) := by
        intro hp
        exact h.1 (List.cons_prefix_cons.mp hp).1
      rw [List.cons_append, search, if_neg hnp, ih h.2]
      rfl

/-- What stands before the first occurrence and after it. -/
theorem search_cut {pat s : List α} {i : Nat} (h : search pat s = some i) :
    s = s.take i ++ (pat ++ s.drop (i + pat.length)) := by
  obtain ⟨t, ht⟩ := search_occurs h
  rw [← List.drop_drop, ← ht, List.drop_left, ht, List.take_append_drop]

/-- Before the first occurrence there is none. -/
theorem search_take {pat s : List α} {i : Nat} (h : search pat s = some i) (hpat : pat ≠ []) :
    search pat (s.take i) = none := by
  cases hj : search pat (s.take i) with
  | none => rfl
  | some j =>
      have hsome := search_append (s.drop i) hj
      rw [List.take_append_drop, h] at hsome
      obtain rfl := Option.some.inj hsome
      have hle := search_le hj hpat
      have hpos := List.length_pos_iff.mpr hpat
      rw [List.length_take] at hle
      omega

/-- A pattern that does not overlap itself is found right after a string
without it. -/
theorem search_after_none {a : α} {pat l : List α} (r : List α) (ha : a ∉ pat)
    (h : search (a :: pat) l = none) :
    search (a :: pat) (l ++ (a :: pat ++ r)) = some l.length := by
  induction l with
  | nil => simp [search]
  | cons b l ih =>
      rw [search] at h
      split at h
      · cases h
      · rename_i hnp
        have hnp' : ¬a :: pat <+: b :: (l ++ (a :: pat ++ r)) := by
          intro hp
          obtain ⟨rfl, htail⟩ := List.cons_prefix_cons.mp hp
          rcases Nat.lt_or_ge l.length pat.length with hlt | hge
          · -- it would hold its own first character
            have hpre : l ++ [a] <+: l ++ (a :: pat ++ r) :=
              (List.prefix_append_right_inj l).mpr (List.prefix_append [a] _)
            have hin : l ++ [a] <+: pat :=
              List.prefix_of_prefix_length_le hpre htail (by rw [List.length_append]; exact hlt)
            exact ha (hin.subset (List.mem_append_right _ (List.mem_cons_self ..)))
          · exact hnp (List.cons_prefix_cons.mpr
              ⟨rfl, (List.isPrefix_append_of_length hge).mp htail⟩)
        rw [List.cons_append, search, if_neg hnp', ih (Option.map_eq_none_iff.mp h)]
        rfl

/-! ## Cutting at a character -/

theorem idxOf_append_cons {a : α} {l r : List α} (h : a ∉ l) :
    (l ++ a :: r).idxOf a = l.length := by
  rw [List.idxOf_append_of_notMem h, List.idxOf_cons_self, Nat.add_zero]

theorem idxOf_eq_length {a : α} {l : List α} (h : a ∉ l) : l.idxOf a = l.length :=
  List.idxOf_eq_length_iff.mpr h

/-- A string in which `a` occurs, cut at its first occurrence. -/
theorem exists_cut {a : α} {l : List α} (h : l.idxOf a ≠ l.length) :
    ∃ m r, l = m ++ a :: r ∧ a ∉ m := by
  have hmem : a ∈ l := by
    by_contra hn
    exact h (idxOf_eq_length hn)
  obtain ⟨m, r, rfl, hm⟩ := List.eq_append_cons_of_mem hmem
  exact ⟨m, r, rfl, hm⟩

omit [DecidableEq α] in
theorem take_cut (m r : List α) (a : α) : (m ++ a :: r).take m.length = m := by
  simp

omit [DecidableEq α] in
theorem drop_cut (m r : List α) (a : α) : (m ++ a :: r).drop (m.length + 1) = r := by
  simp

/-! ## Stripping -/

/-- The string neither starts nor ends with a `p`. -/
def Unpadded (p : α → Bool) (v : List α) : Prop :=
  (∀ a ∈ v.head?, p a = false) ∧ ∀ a ∈ v.getLast?, p a = false

instance (p : α → Bool) (v : List α) : Decidable (Unpadded p v) :=
  inferInstanceAs (Decidable (_ ∧ _))

omit [DecidableEq α] in
/-- What is stripped on both sides is the padding, and all of it. -/
theorem strip_pad {p : α → Bool} {l v r : List α} (hl : ∀ a ∈ l, p a = true)
    (hr : ∀ a ∈ r, p a = true) (hv : Unpadded p v) :
    ((l ++ (v ++ r)).dropWhile p).rdropWhile p = v := by
  have hstart : ∀ s : List α, (∀ a, s.head? = some a → p a = false) → s.dropWhile p = s := by
    rintro (_ | ⟨a, s⟩) hs
    · rfl
    · exact List.dropWhile_cons_of_neg (by rw [hs a rfl]; exact Bool.false_ne_true)
  have hend : v.rdropWhile p = v := by
    have h := hstart v.reverse fun a ha => hv.2 a (by rwa [List.head?_reverse] at ha)
    rw [List.rdropWhile, h, List.reverse_reverse]
  have hback : (v ++ r).rdropWhile p = v := by
    have hrev : ∀ a ∈ r.reverse, p a = true := fun a ha => hr a (List.mem_reverse.mp ha)
    rw [List.rdropWhile, List.reverse_append, List.dropWhile_append_of_pos hrev]
    exact hend
  rw [List.dropWhile_append_of_pos hl]
  cases v with
  | nil =>
      have hnil : ([] ++ r).dropWhile p = [] := List.dropWhile_eq_nil_iff.mpr hr
      rw [hnil]
      rfl
  | cons a v =>
      have hfront : (a :: v ++ r).dropWhile p = a :: v ++ r :=
        hstart _ fun b hb => hv.1 b hb
      rw [hfront, hback]

end Lib
