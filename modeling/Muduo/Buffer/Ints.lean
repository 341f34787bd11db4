import Muduo.Buffer.Refine

/-!
# Integer fields, written and read back

Any list of integers of the three widths, appended in order and read back in
order. What lies between is their big-endian encodings (`encode`), so that
an append is one of bytes (`appendInts_total`) and a read takes one encoding
off the front (`readInt_encoded`). A prepended integer is read back the same
way.
-/

namespace Muduo

open Lib

/-- An `intN_t`, by its bits. -/
abbrev TypedInt := Σ k : IntSize, BitVec k.bits

namespace TypedInt

/-- The big-endian encodings, one after the other. -/
def encode (xs : List TypedInt) : Bytes := xs.flatMap fun x => toBE x.1.bytes x.2.toNat

theorem encode_cons (x : TypedInt) (xs : List TypedInt) :
    encode (x :: xs) = toBE x.1.bytes x.2.toNat ++ encode xs := List.flatMap_cons

end TypedInt

namespace Buffer

open TypedInt

variable {b : Buffer} {E : Endian}

/-- `appendIntN` on each. -/
def appendInts (E : Endian) : Buffer → List TypedInt → Except BufferFault Buffer
  | b, [] => .ok b
  | b, x :: xs => do
      let b ← b.appendInt E x.1 x.2
      appendInts E b xs

/-- `readIntN` for each of the widths. -/
def readInts (E : Endian) : Buffer → List IntSize → Except BufferFault (List TypedInt × Buffer)
  | b, [] => .ok ([], b)
  | b, k :: ks => do
      let (x, b) ← b.readInt E k
      let (xs, b) ← readInts E b ks
      return (⟨k, x⟩ :: xs, b)

/-! ## Writing -/

theorem bytes_le (k : IntSize) : k.bytes ≤ maxSize := by
  cases k <;> decide

theorem appendInt_total (h : b.Valid) (x : TypedInt) :
    (∃ b', b.appendInt E x.1 x.2 = .ok b' ∧
      b.DrainedTo b' (b.content ++ toBE x.1.bytes x.2.toNat) ∧
      b'.buffer.length ≤ b.buffer.length + x.1.bytes) ∨
    (b.appendInt E x.1 x.2 = .error .lengthError ∧
      maxSize < b.buffer.length + x.1.bytes) := by
  have hlen : (wire E x.1 x.2).length ≤ maxSize := by
    rw [length_wire]
    exact bytes_le x.1
  have hwl := h.writer_le
  have htotal := append_total h hlen
  rw [length_wire, wire_eq] at htotal
  rw [appendInt, wire_eq]
  rcases htotal with hok | ⟨herr, hover⟩
  · exact Or.inl hok
  · exact Or.inr ⟨herr, by omega⟩

theorem appendInts_total (h : b.Valid) (xs : List TypedInt) :
    (∃ b', b.appendInts E xs = .ok b' ∧ b.DrainedTo b' (b.content ++ encode xs) ∧
      b'.buffer.length ≤ b.buffer.length + (encode xs).length) ∨
    (b.appendInts E xs = .error .lengthError ∧
      maxSize < b.buffer.length + (encode xs).length) := by
  induction xs generalizing b with
  | nil => exact Or.inl ⟨b, rfl, ⟨h, (List.append_nil _).symm, id⟩, le_rfl⟩
  | cons x xs ih =>
      have hlen : (encode (x :: xs)).length = x.1.bytes + (encode xs).length := by
        rw [encode_cons, List.length_append, length_toBE]
      rw [appendInts]
      obtain ⟨b₁, hb₁, hd₁, hsize₁⟩ | ⟨herr, hover⟩ := appendInt_total (E := E) h x
      · rw [hb₁, ok_bind]
        obtain ⟨b₂, hb₂, hd₂, hsize₂⟩ | ⟨herr, hover⟩ := ih hd₁.valid
        · left
          refine ⟨b₂, hb₂, ⟨hd₂.valid, ?_, hd₂.front ∘ hd₁.front⟩, by omega⟩
          rw [hd₂.content, hd₁.content, encode_cons, List.append_assoc]
        · exact Or.inr ⟨herr, by omega⟩
      · right
        rw [herr]
        exact ⟨rfl, by omega⟩

/-! ## Reading -/

/-- An encoding reads back as the integer. -/
theorem ofBE_encoded {k : IntSize} (x : BitVec k.bits) :
    BitVec.ofNat k.bits (ofBE (toBE k.bytes x.toNat)) = x := by
  rw [ofBE_toBE, pow_256, Nat.mod_eq_of_lt x.isLt, BitVec.ofNat_toNat, BitVec.setWidth_eq]

theorem readInt_encoded (h : b.Valid) {k : IntSize} {x : BitVec k.bits} {rest : Bytes}
    (hc : b.content = toBE k.bytes x.toNat ++ rest) :
    ∃ b', b.readInt E k = .ok (x, b') ∧ b.DrainedTo b' rest := by
  have hlen : k.bytes ≤ b.readableBytes := by
    rw [← length_content h, hc, List.length_append, length_toBE]
    exact Nat.le_add_right _ _
  obtain ⟨b', hb', hd⟩ := readInt_spec (E := E) h hlen
  rw [hc, List.take_left' (length_toBE _ _), ofBE_encoded] at hb'
  rw [hc, List.drop_left' (length_toBE _ _)] at hd
  exact ⟨b', hb', hd⟩

theorem readInts_encoded (xs : List TypedInt) {rest : Bytes} (h : b.Valid)
    (hc : b.content = encode xs ++ rest) :
    ∃ b', b.readInts E (xs.map Sigma.fst) = .ok (xs, b') ∧ b.DrainedTo b' rest := by
  induction xs generalizing b with
  | nil => exact ⟨b, rfl, h, hc, id⟩
  | cons x xs ih =>
      rw [encode_cons, List.append_assoc] at hc
      obtain ⟨b₁, hb₁, hd₁⟩ := readInt_encoded (E := E) h hc
      obtain ⟨b₂, hb₂, hd₂⟩ := ih hd₁.valid hd₁.content
      refine ⟨b₂, ?_, hd₂.valid, hd₂.content, hd₂.front ∘ hd₁.front⟩
      rw [List.map_cons, readInts, hb₁, ok_bind]
      simp only [hb₂, ok_bind]
      rfl

/-! ## The round trip -/

/-- Integers appended to the content, bytes appended after them, the old
content retrieved: what is read is the integers, and the bytes are left. -/
theorem appended_read_back {b₁ b₂ : Buffer} {xs : List TypedInt} {after : Bytes}
    (h : b.Valid) (hd₁ : b.DrainedTo b₁ (b.content ++ encode xs))
    (hd₂ : b₁.DrainedTo b₂ (b₁.content ++ after)) :
    ∃ b₃ b₄, b₂.retrieve b.readableBytes = .ok b₃ ∧
      b₃.readInts E (xs.map Sigma.fst) = .ok (xs, b₄) ∧ b₄.Valid ∧ b₄.content = after := by
  have hcontent : b₂.content = b.content ++ (encode xs ++ after) := by
    rw [hd₂.content, hd₁.content, List.append_assoc]
  have hlen : b.readableBytes ≤ b₂.readableBytes := by
    rw [← length_content h, ← length_content hd₂.valid, hcontent, List.length_append]
    exact Nat.le_add_right _ _
  obtain ⟨b₃, hb₃, hd₃⟩ := retrieve_spec hd₂.valid hlen
  rw [hcontent, List.drop_left' (length_content h)] at hd₃
  obtain ⟨b₄, hb₄, hd₄⟩ := readInts_encoded (E := E) xs hd₃.valid hd₃.content
  exact ⟨b₃, b₄, hb₃, hb₄, hd₄.valid, hd₄.content⟩

/-- A prepended integer is read back, and the content is what it was. -/
theorem prependInt_read_back (h : b.Valid) {k : IntSize} (x : BitVec k.bits)
    (hk : k.bytes ≤ b.prependableBytes) :
    ∃ b₁ b₂, b.prependInt E k x = .ok b₁ ∧ b₁.readInt E k = .ok (x, b₂) ∧ b₂.Valid ∧
      b₂.content = b.content := by
  have hlen : (wire E k x).length ≤ b.prependableBytes := by rwa [length_wire]
  obtain ⟨b₁, hb₁, hv, hc⟩ := prepend_spec h hlen
  rw [wire_eq] at hc
  obtain ⟨b₂, hb₂, hd⟩ := readInt_encoded (E := E) hv hc
  exact ⟨b₁, b₂, hb₁, hb₂, hd.valid, hd.content⟩

/-- **Integer fields round-trip through the wire format.** Any integers
appended in order are, after the old content is retrieved, read back in
order, and what was appended after them is left; between lie their
big-endian encodings. The one way not to get there is the exception of a
vector that would be larger than `max_size()`. An integer prepended where
there is room is read back and leaves the old content. -/
theorem ints_round_trip (E : Endian) (h : b.Valid) (xs : List TypedInt) (after : Bytes)
    (hafter : after.length ≤ maxSize) :
    ((∃ b₁ b₂ b₃ b₄, b.appendInts E xs = .ok b₁ ∧ b₁.content = b.content ++ encode xs ∧
        b₁.append after = .ok b₂ ∧ b₂.retrieve b.readableBytes = .ok b₃ ∧
        b₃.readInts E (xs.map Sigma.fst) = .ok (xs, b₄) ∧ b₄.Valid ∧ b₄.content = after) ∨
      ((b.appendInts E xs >>= fun b => b.append after) = .error .lengthError ∧
        maxSize < b.buffer.length + (encode xs).length + after.length)) ∧
    ∀ (k : IntSize) (x : BitVec k.bits), k.bytes ≤ b.prependableBytes →
      ∃ b₁ b₂, b.prependInt E k x = .ok b₁ ∧ b₁.readInt E k = .ok (x, b₂) ∧ b₂.Valid ∧
        b₂.content = b.content := by
  refine ⟨?_, fun k x hk => prependInt_read_back h x hk⟩
  obtain ⟨b₁, hb₁, hd₁, hsize₁⟩ | ⟨herr, hover⟩ := appendInts_total (E := E) h xs
  · obtain ⟨b₂, hb₂, hd₂, -⟩ | ⟨herr, hover⟩ := append_total hd₁.valid hafter
    · obtain ⟨b₃, b₄, hb₃, hb₄, hv, hc⟩ := appended_read_back (E := E) h hd₁ hd₂
      exact Or.inl ⟨b₁, b₂, b₃, b₄, hb₁, hd₁.content, hb₂, hb₃, hb₄, hv, hc⟩
    · right
      have hwl := hd₁.valid.writer_le
      rw [hb₁, ok_bind, herr]
      exact ⟨rfl, by omega⟩
  · right
    rw [herr]
    exact ⟨rfl, by omega⟩

/-- Three widths, two of the values negative, in a new buffer. -/
theorem ints_round_trip_new : ∃ b₁ b₂ b₃ b₄,
    new.appendInts .little [⟨.int8, -1⟩, ⟨.int32, 258⟩, ⟨.int16, -2⟩] = .ok b₁ ∧
      b₁.content = [255, 0, 0, 1, 2, 255, 254] ∧ b₁.append [7] = .ok b₂ ∧
      b₂.retrieve 0 = .ok b₃ ∧
      b₃.readInts .little [.int8, .int32, .int16] =
        .ok ([⟨.int8, -1⟩, ⟨.int32, 258⟩, ⟨.int16, -2⟩], b₄) ∧ b₄.content = [7] := by
  have hread : new.readableBytes = 0 := by decide
  obtain ⟨b₁, b₂, b₃, b₄, hb₁, hc₁, hb₂, hb₃, hb₄, -, hc₄⟩ | ⟨-, hover⟩ :=
    (ints_round_trip .little valid_new [⟨.int8, -1⟩, ⟨.int32, 258⟩, ⟨.int16, -2⟩]
      [7] (by decide)).1
  · rw [hread] at hb₃
    rw [content_new] at hc₁
    exact ⟨b₁, b₂, b₃, b₄, hb₁, hc₁, hb₂, hb₃, hb₄, hc₄⟩
  · have hlen : new.buffer.length = 1032 := List.length_replicate
    rw [hlen] at hover
    exact absurd hover (by decide)

end Buffer

end Muduo
