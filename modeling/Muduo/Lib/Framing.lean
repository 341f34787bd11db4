import Mathlib.Data.List.Basic

/-!
# Streams of self-delimiting items

A reader that takes one item off the front of a stream, and its iteration
over a whole stream (`readAll`). When the reader finds the end of every
item without looking past it (`SelfDelimiting`), a stream of items back to back is
read as exactly those items, with nothing left over (`readAll_flatten`). A
stream may also end in one item of another kind, which goes on to the end of it
(`readThen`).
-/

namespace Lib

variable {α τ ι : Type}

/-- Take items off the stream until it is used up; `n` bounds their number. -/
def readItems (read : List α → Option (τ × List α)) : Nat → List α → Option (List τ)
  | _, [] => some []
  | 0, _ :: _ => none
  | n + 1, s@(_ :: _) => do
      let (x, rest) ← read s
      let xs ← readItems read n rest
      return x :: xs

/-- Every item of a stream takes at least one element of it. -/
def readAll (read : List α → Option (τ × List α)) (s : List α) : Option (List τ) :=
  readItems read s.length s

/-- On the items `P`, the reader undoes the writer and leaves alone what
follows. -/
structure SelfDelimiting (write : ι → List α) (value : ι → τ) (read : List α → Option (τ × List α))
    (P : ι → Prop) : Prop where
  write_ne : ∀ {i}, P i → write i ≠ []
  read_write : ∀ {i}, P i → ∀ rest, read (write i ++ rest) = some (value i, rest)

variable {write : ι → List α} {value : ι → τ} {read : List α → Option (τ × List α)}
  {P : ι → Prop}

theorem SelfDelimiting.readItems_flatten (h : SelfDelimiting write value read P) {items : List ι}
    (hP : ∀ i ∈ items, P i) : ∀ n, (items.map write).flatten.length ≤ n →
      readItems read n (items.map write).flatten = some (items.map value) := by
  induction items with
  | nil =>
      intro n _
      cases n <;> rfl
  | cons i items ih =>
      intro n hn
      have hi := hP i (List.mem_cons_self ..)
      have hread := h.read_write hi (items.map write).flatten
      obtain ⟨a, l, hw⟩ := List.exists_cons_of_ne_nil (h.write_ne hi)
      rw [List.map_cons, List.flatten_cons, hw, List.cons_append] at hn ⊢
      rw [hw, List.cons_append] at hread
      cases n with
      | zero => exact absurd hn (by simp)
      | succ n =>
          have hlen : (items.map write).flatten.length ≤ n := by
            rw [List.length_cons, List.length_append] at hn
            omega
          have hrest := ih (fun j hj => hP j (List.mem_cons_of_mem _ hj)) n hlen
          simp only [readItems, hread, Option.bind_eq_bind, Option.bind_some, hrest]
          rfl

/-- **Items back to back are read as those items**, and nothing is left. -/
theorem SelfDelimiting.readAll_flatten (h : SelfDelimiting write value read P) {items : List ι}
    (hP : ∀ i ∈ items, P i) :
    readAll read (items.map write).flatten = some (items.map value) :=
  h.readItems_flatten hP _ (Nat.le_refl _)

/-- What a reader makes of items with something behind them, it makes of the
items and of that. -/
theorem SelfDelimiting.readItems_append (h : SelfDelimiting write value read P) {items : List ι}
    (hP : ∀ i ∈ items, P i) {tail : List α} : ∀ {n xs},
      readItems read n ((items.map write).flatten ++ tail) = some xs →
        ∃ m ys, readItems read m tail = some ys ∧ xs = items.map value ++ ys := by
  induction items with
  | nil =>
      intro n xs hread
      rw [List.map_nil, List.flatten_nil, List.nil_append] at hread
      exact ⟨n, xs, hread, rfl⟩
  | cons i items ih =>
      intro n xs hread
      have hi := hP i (List.mem_cons_self ..)
      have hitem := h.read_write hi ((items.map write).flatten ++ tail)
      obtain ⟨a, l, hw⟩ := List.exists_cons_of_ne_nil (h.write_ne hi)
      rw [List.map_cons, List.flatten_cons, hw, List.append_assoc, List.cons_append] at hread
      rw [hw, List.cons_append] at hitem
      cases n with
      | zero => cases hread
      | succ n =>
          simp only [readItems, hitem, Option.bind_eq_bind, Option.bind_some] at hread
          obtain ⟨zs, hzs, hxs⟩ := Option.bind_eq_some_iff.mp hread
          obtain ⟨m, ys, hys, rfl⟩ := ih (fun j hj => hP j (List.mem_cons_of_mem _ hj)) hzs
          exact ⟨m, ys, hys, (Option.some.inj hxs).symm⟩

/-- A stream that is read as one item. -/
theorem read_of_readItems {n : Nat} {s : List α} {x : τ} (h : readItems read n s = some [x]) :
    ∃ rest, read s = some (x, rest) := by
  cases s with
  | nil =>
      have hnil : readItems read n [] = some [] := by
        cases n <;> rfl
      cases hnil.symm.trans h
  | cons a s =>
      cases n with
      | zero => cases h
      | succ n =>
          obtain ⟨⟨y, rest⟩, hread, h⟩ := Option.bind_eq_some_iff.mp h
          obtain ⟨ys, -, h⟩ := Option.bind_eq_some_iff.mp h
          cases h
          exact ⟨rest, hread⟩

/-! ## A last item -/

/-- Take items off the stream while there are any; what is left is one item
that goes on to the end. -/
def readItemsThen (read : List α → Option (τ × List α)) (last : List α → Option τ) :
    Nat → List α → Option (List τ)
  | _, [] => some []
  | 0, _ :: _ => none
  | n + 1, s@(_ :: _) =>
      match read s with
      | some (x, rest) => (readItemsThen read last n rest).map (x :: ·)
      | none => (last s).map fun x => [x]

def readThen (read : List α → Option (τ × List α)) (last : List α → Option τ) (s : List α) :
    Option (List τ) :=
  readItemsThen read last s.length s

variable {last : List α → Option τ}

/-- **Items back to back, and the end of the stream**, whatever it is read as. -/
theorem SelfDelimiting.readThen_flatten (h : SelfDelimiting write value read P) {items : List ι}
    (hP : ∀ i ∈ items, P i) {tail : List α} {ys : List τ}
    (htail : tail = [] ∧ ys = [] ∨ tail ≠ [] ∧ read tail = none ∧ ∃ y, last tail = some y ∧ ys = [y]) :
    readThen read last ((items.map write).flatten ++ tail) = some (items.map value ++ ys) := by
  suffices hn : ∀ n, ((items.map write).flatten ++ tail).length ≤ n →
      readItemsThen read last n ((items.map write).flatten ++ tail) =
        some (items.map value ++ ys) from hn _ (Nat.le_refl _)
  induction items with
  | nil =>
      intro n hn
      rw [List.map_nil, List.flatten_nil, List.nil_append] at hn ⊢
      rcases htail with ⟨rfl, rfl⟩ | ⟨hne, hread, y, hlast, rfl⟩
      · cases n <;> rfl
      · obtain ⟨a, l, rfl⟩ := List.exists_cons_of_ne_nil hne
        cases n with
        | zero => exact absurd hn (by simp)
        | succ n =>
            simp only [readItemsThen, hread, hlast]
            rfl
  | cons i items ih =>
      intro n hn
      have hi := hP i (List.mem_cons_self ..)
      have hread := h.read_write hi ((items.map write).flatten ++ tail)
      obtain ⟨a, l, hw⟩ := List.exists_cons_of_ne_nil (h.write_ne hi)
      rw [List.map_cons, List.flatten_cons, hw, List.append_assoc, List.cons_append] at hn ⊢
      rw [hw, List.cons_append] at hread
      cases n with
      | zero => exact absurd hn (by simp)
      | succ n =>
          have hlen : ((items.map write).flatten ++ tail).length ≤ n := by
            rw [List.length_cons, List.length_append] at hn
            omega
          have hrest := ih (fun j hj => hP j (List.mem_cons_of_mem _ hj)) n hlen
          simp only [readItemsThen, hread, hrest]
          rfl

end Lib
