import Muduo.Buffer.Checked
import Muduo.Buffer.Shrink

/-!
# Appending a `std::string`

`append(const StringPiece& str)` is called with a `std::string` as well: the
piece is made with `static_cast<int>(str.size())`, and its length becomes a
`size_t` again in `append(str.data(), str.size())`. A string shorter than
`2 ^ 31` bytes arrives as it is. Of a longer one the length modulo `2 ^ 32`
counts: it is cut to that (`cut`), or, where an `int` makes it negative, the
call ends in a fault.
-/

namespace Muduo

open Lib

namespace Buffer

/-- `append(str)` of a `std::string`, through `StringPiece(const string& str)`. -/
def appendString (b : Buffer) (str : Bytes) : Except BufferFault Buffer :=
  b.appendPiece str ⟨0, toInt str.length⟩

/-- What an `int` that is not negative leaves of a string. -/
def cut (str : Bytes) : Bytes := str.take (str.length % intMod)

variable {b b' : Buffer} {str data : Bytes}

theorem cut_short (h : str.length < 2 ^ 31) : cut str = str := by
  rw [cut, Nat.mod_eq_of_lt (Nat.lt_trans h (by decide)), List.take_length]

theorem length_cut (str : Bytes) : (cut str).length = str.length % intMod := by
  rw [cut, List.length_take, Nat.min_eq_left (Nat.mod_le _ _)]

theorem appendString_cut (b : Buffer) (h : str.length % intMod < 2 ^ 31) :
    b.appendString str = b.append (cut str) := by
  have hle : 0 + str.length % intMod ≤ str.length := by
    rw [Nat.zero_add]
    exact Nat.mod_le _ _
  rw [appendString, appendPiece, toSize_toInt h]
  refine (appendFrom_eq b hle).trans ?_
  rw [Nat.zero_add]
  rfl

theorem appendString_short (b : Buffer) (h : str.length < 2 ^ 31) :
    b.appendString str = b.append str := by
  rw [appendString_cut b ((Nat.mod_le _ _).trans_lt h), cut_short h]

/-- No vector holds as many bytes as a negative length stands for. -/
theorem appendString_negative (b : Buffer) (h : 2 ^ 31 ≤ str.length % intMod)
    (hlen : str.length ≤ maxSize) : ∃ e, b.appendString str = .error e := by
  have hout : ¬0 + (2 ^ 64 - 2 ^ 32 + str.length % intMod) ≤ str.length := by
    simp only [maxSize] at hlen
    omega
  rw [appendString, appendPiece, toSize_toInt_neg h]
  unfold appendFrom
  cases b.ensureWritableBytes (2 ^ 64 - 2 ^ 32 + str.length % intMod) with
  | error e => exact ⟨e, rfl⟩
  | ok b₁ =>
      rw [ok_bind, check_not hout]
      exact ⟨_, rfl⟩

/-- **A string that went in**: its length is not negative, and what an `int`
leaves of it is behind the content. -/
theorem appendString_ok (h : b.Valid) (hlen : str.length ≤ maxSize)
    (hb : b.appendString str = .ok b') :
    str.length % intMod < 2 ^ 31 ∧ b.append (cut str) = .ok b' ∧
      b.DrainedTo b' (b.content ++ cut str) := by
  by_cases hpos : str.length % intMod < 2 ^ 31
  · rw [appendString_cut b hpos] at hb
    have hcut : (cut str).length ≤ maxSize := by
      rw [length_cut]
      exact (Nat.mod_le _ _).trans hlen
    obtain ⟨b₁, hb₁, hd, -⟩ | ⟨herr, -⟩ := append_total h hcut
    · obtain rfl := Except.ok.inj (hb₁.symm.trans hb)
      exact ⟨hpos, hb, hd⟩
    · cases herr.symm.trans hb
  · obtain ⟨e, he⟩ := appendString_negative b (Nat.not_lt.mp hpos) hlen
    cases he.symm.trans hb

theorem valid_appendString (h : b.Valid) (hlen : str.length ≤ maxSize)
    (hb : b.appendString str = .ok b') : b'.Valid := by
  obtain ⟨-, -, hd⟩ := appendString_ok h hlen hb
  exact hd.valid

/-! ## The front gap -/

theorem makeSpace_front {len : Nat} (h : b.readerIndex = kCheapPrepend)
    (hb : b.makeSpace len = .ok b') : b'.readerIndex = kCheapPrepend := by
  unfold makeSpace at hb
  split at hb
  · obtain ⟨-, -, hb⟩ := bind_eq_ok hb
    cases hb
    exact h
  · obtain ⟨-, -, hb⟩ := bind_eq_ok hb
    obtain ⟨-, -, hb⟩ := bind_eq_ok hb
    cases hb
    rfl

theorem ensureWritableBytes_front {len : Nat} (h : b.readerIndex = kCheapPrepend)
    (hb : b.ensureWritableBytes len = .ok b') : b'.readerIndex = kCheapPrepend := by
  unfold ensureWritableBytes at hb
  by_cases hlt : b.writableBytes < len
  · rw [if_pos hlt] at hb
    obtain ⟨b₁, hb₁, hb⟩ := bind_eq_ok hb
    obtain ⟨-, -, hb⟩ := bind_eq_ok hb
    cases hb
    exact makeSpace_front h hb₁
  · rw [if_neg hlt, pure_bind] at hb
    obtain ⟨-, -, hb⟩ := bind_eq_ok hb
    cases hb
    exact h

/-- Appending moves the reader to the front or leaves it there. -/
theorem append_front (h : b.readerIndex = kCheapPrepend) (hb : b.append data = .ok b') :
    b'.readerIndex = kCheapPrepend := by
  unfold append at hb
  obtain ⟨b₁, hb₁, hb⟩ := bind_eq_ok hb
  obtain ⟨b₂, hb₂, hb⟩ := bind_eq_ok hb
  cases hb
  have hcopy : b₁.copyTo b₁.beginWrite data = .ok b₂ := hb₂
  unfold copyTo at hcopy
  obtain ⟨-, -, hcopy⟩ := bind_eq_ok hcopy
  cases hcopy
  exact (ensureWritableBytes_front h hb₁ : b₁.readerIndex = kCheapPrepend)

end Buffer

namespace CheckedBuffer

open Buffer

variable {b b' : CheckedBuffer} {s str : Bytes} {pieces : List Bytes}

/-- The result of a call that keeps the invariant. -/
def checked (r : Except BufferFault Buffer) (hr : ∀ b', r = .ok b' → b'.Valid) :
    Except BufferFault CheckedBuffer :=
  match r, hr with
  | .ok b', hr => .ok ⟨b', hr b' rfl⟩
  | .error e, _ => .error e

theorem val_of_checked {r : Except BufferFault Buffer} {hr : ∀ b', r = .ok b' → b'.Valid}
    (hb : checked r hr = .ok b') : r = .ok b'.1 := by
  cases r with
  | error e => cases hb
  | ok b₁ =>
      cases hb
      rfl

theorem checked_ok {r : Except BufferFault Buffer} {hr : ∀ b', r = .ok b' → b'.Valid}
    {b₁ : Buffer} (hb : r = .ok b₁) : checked r hr = .ok ⟨b₁, hr b₁ hb⟩ := by
  subst hb
  rfl

theorem checked_error {r : Except BufferFault Buffer} {hr : ∀ b', r = .ok b' → b'.Valid}
    {e : BufferFault} (he : r = .error e) : checked r hr = .error e := by
  subst he
  rfl

/-- No `std::string` is longer than `maxSize`. -/
def appendString (b : CheckedBuffer) (str : Bytes) : Except BufferFault CheckedBuffer :=
  if hlen : str.length ≤ maxSize then
    checked (b.1.appendString str) fun _ => valid_appendString b.2 hlen
  else .error .lengthError

theorem val_of_appendString (hb : b.appendString str = .ok b') :
    str.length ≤ maxSize ∧ b.1.appendString str = .ok b'.1 := by
  unfold appendString at hb
  split at hb
  · rename_i hlen
    exact ⟨hlen, val_of_checked hb⟩
  · cases hb

/-! ## Strings appended to a new buffer -/

/-- Only strings have been appended, and they are `s`. -/
structure Appended (b : CheckedBuffer) (s : Bytes) : Prop where
  content : b.1.content = s
  front : b.1.readerIndex = kCheapPrepend

theorem appended_new : new.Appended [] := ⟨content_new, rfl⟩

theorem Appended.writerIndex (h : b.Appended s) : b.1.writerIndex = kCheapPrepend + s.length := by
  have hle := b.2.reader_le
  have hlen := length_content b.2
  rw [readableBytes_eq b.2, h.content, h.front] at hlen
  rw [h.front] at hle
  omega

/-- What was appended fits into a vector. -/
theorem Appended.length_le (h : b.Appended s) : kCheapPrepend + s.length ≤ maxSize := by
  rw [← h.writerIndex]
  exact b.2.writer_le.trans b.2.size_le

theorem Appended.appendString (h : b.Appended s) (hshort : str.length < 2 ^ 31) :
    (∃ b', b.appendString str = .ok b' ∧ b'.Appended (s ++ str)) ∨
    (b.appendString str = .error .lengthError ∧
      maxSize < kCheapPrepend + s.length + str.length) := by
  have hlen : str.length ≤ maxSize := by
    simp only [maxSize]
    omega
  have heq := appendString_short b.1 hshort
  unfold CheckedBuffer.appendString
  rw [dif_pos hlen]
  obtain ⟨b₁, hb₁, hd, -⟩ | ⟨herr, hover⟩ := append_total b.2 hlen
  · exact Or.inl ⟨_, checked_ok (heq.trans hb₁), h.content ▸ hd.content, append_front h.front hb₁⟩
  · rw [h.writerIndex] at hover
    exact Or.inr ⟨checked_error (heq.trans herr), hover⟩

/-- **Strings that went in**, one after the other: no length is negative, and
what an `int` leaves of them is there. -/
theorem Appended.strings_ok (h : b.Appended s)
    (hb : pieces.foldlM CheckedBuffer.appendString b = .ok b') :
    (∀ p ∈ pieces, p.length % intMod < 2 ^ 31) ∧ b'.Appended (s ++ (pieces.map cut).flatten) := by
  induction pieces generalizing b s with
  | nil =>
      obtain rfl := Except.ok.inj hb
      refine ⟨fun _ hp => absurd hp List.not_mem_nil, ?_⟩
      rwa [List.map_nil, List.flatten_nil, List.append_nil]
  | cons p pieces ih =>
      rw [List.foldlM_cons] at hb
      obtain ⟨b₁, hb₁, hb⟩ := bind_eq_ok hb
      obtain ⟨hlen, hval⟩ := val_of_appendString hb₁
      obtain ⟨hpos, happ, hd⟩ := appendString_ok b.2 hlen hval
      obtain ⟨hall, hrest⟩ := ih ⟨h.content ▸ hd.content, append_front h.front happ⟩ hb
      refine ⟨List.forall_mem_cons.mpr ⟨hpos, hall⟩, ?_⟩
      rwa [List.map_cons, List.flatten_cons, ← List.append_assoc]

theorem map_cut_short (h : ∀ p ∈ pieces, p.length < 2 ^ 31) : pieces.map cut = pieces :=
  (List.map_congr_left fun p hp => cut_short (h p hp)).trans (List.map_id _)

/-- **Short strings** all go in, unless the vector would be too large. -/
theorem Appended.strings_short (h : b.Appended s) (hshort : ∀ p ∈ pieces, p.length < 2 ^ 31) :
    (∃ b', pieces.foldlM CheckedBuffer.appendString b = .ok b' ∧
      b'.Appended (s ++ pieces.flatten)) ∨
    (pieces.foldlM CheckedBuffer.appendString b = .error .lengthError ∧
      maxSize < kCheapPrepend + (s ++ pieces.flatten).length) := by
  induction pieces generalizing b s with
  | nil =>
      refine Or.inl ⟨b, rfl, ?_⟩
      rwa [List.flatten_nil, List.append_nil]
  | cons p pieces ih =>
      obtain ⟨hp, hpieces⟩ := List.forall_mem_cons.mp hshort
      rw [List.foldlM_cons, List.flatten_cons, ← List.append_assoc]
      rcases h.appendString hp with ⟨b₁, hb₁, happ⟩ | ⟨herr, hover⟩
      · rw [hb₁, ok_bind]
        exact ih happ hpieces
      · rw [herr]
        refine Or.inr ⟨rfl, ?_⟩
        simp only [List.length_append]
        omega

end CheckedBuffer

end Muduo
