import Muduo.Buffer.Buffer

/-!
# What `Buffer`'s operations do to its content

The invariant of the class (`Valid`) and, for every member function, one
lemma that says when it does not fault, that it keeps the invariant, and
what it does to the bytes between the two indices. The callers use these
lemmas and never look at the vector again.

The one branch that needs an argument is the compaction in `makeSpace`: it
is entered with `writable < len` and `len + kCheapPrepend ≤ writable +
prependable`, so `kCheapPrepend < readerIndex` and the bytes move strictly
towards the front.
-/

namespace Muduo

open Lib

namespace Buffer

/-- The invariant: the indices are ordered inside a vector that is never
smaller than the initial one. -/
structure Valid (b : Buffer) : Prop where
  reader_le : b.readerIndex ≤ b.writerIndex
  writer_le : b.writerIndex ≤ b.buffer.length
  initial_le : kCheapPrepend + kInitialSize ≤ b.buffer.length
  size_le : b.buffer.length ≤ maxSize

/-- The size the vector has once there is room for `len` more bytes. -/
def sizeFor (b : Buffer) (len : Nat) : Nat :=
  if b.writableBytes < len ∧
      b.writableBytes + b.prependableBytes < len + kCheapPrepend then
    b.writerIndex + len
  else b.buffer.length

/-- A request for `len` more bytes keeps all sizes below `2 ^ 63`. -/
def Fits (b : Buffer) (len : Nat) : Prop := len ≤ maxSize ∧ b.sizeFor len ≤ maxSize

instance (b : Buffer) (len : Nat) : Decidable (b.Fits len) :=
  inferInstanceAs (Decidable (_ ∧ _))

theorem valid_new : new.Valid := by
  have hlen : new.buffer.length = kCheapPrepend + kInitialSize := List.length_replicate
  refine ⟨le_rfl, ?_, ?_, ?_⟩ <;> rw [hlen]
  · exact Nat.le_add_right _ _
  · simp only [kCheapPrepend, kInitialSize, maxSize]; omega

theorem content_new : new.content = [] := slice_self _ _

variable {b : Buffer}

/-! ## Observers -/

theorem readableBytes_eq (h : b.Valid) :
    b.readableBytes = b.writerIndex - b.readerIndex := by
  have := h.writer_le
  have := h.size_le
  exact szSub_eq h.reader_le (by simp only [maxSize] at *; omega)

theorem writableBytes_eq (h : b.Valid) :
    b.writableBytes = b.buffer.length - b.writerIndex := by
  have := h.size_le
  exact szSub_eq h.writer_le (by simp only [maxSize] at *; omega)

theorem length_content (h : b.Valid) : b.content.length = b.readableBytes := by
  rw [readableBytes_eq h]
  exact length_slice h.writer_le

/-- `findCRLF` returns the first CRLF of the content, as a pointer. -/
theorem findCRLF_eq (b : Buffer) :
    b.findCRLF = (search kCRLF b.content).map (b.readerIndex + ·) := rfl

/-! ## Draining -/

/-- `b'` is what draining `b` down to the content `s` leaves: a valid buffer
with that content, whose front gap did not shrink below the cheap one. -/
structure DrainedTo (b b' : Buffer) (s : Bytes) : Prop where
  valid : b'.Valid
  content : b'.content = s
  front : kCheapPrepend ≤ b.prependableBytes → kCheapPrepend ≤ b'.prependableBytes

theorem retrieveAll_spec (h : b.Valid) : b.DrainedTo b.retrieveAll [] where
  valid :=
    { h with
      reader_le := le_rfl
      writer_le := by
        have := h.initial_le
        simp only [retrieveAll] at *
        omega }
  content := slice_self _ _
  front _ := le_rfl

theorem retrieve_spec (h : b.Valid) {len : Nat} (hlen : len ≤ b.readableBytes) :
    ∃ b', b.retrieve len = .ok b' ∧ b.DrainedTo b' (b.content.drop len) := by
  unfold retrieve
  rw [check_of hlen, ok_bind]
  split
  · rename_i hlt
    have hrw := h.reader_le
    have hwl := h.writer_le
    have hsz := h.size_le
    rw [readableBytes_eq h] at hlt
    have hadd : szAdd b.readerIndex len = b.readerIndex + len :=
      szAdd_eq (by simp only [maxSize] at hsz; omega)
    refine ⟨_, rfl, ⟨⟨?_, hwl, h.initial_le, hsz⟩, ?_, ?_⟩⟩
    · simp only [hadd]; omega
    · simp only [content, peek, beginWrite, hadd, drop_slice]
    · intro hf
      simp only [prependableBytes, hadd] at hf ⊢
      omega
  · have hall : b.content.drop len = [] := by
      rw [List.drop_eq_nil_iff, length_content h]
      omega
    rw [hall]
    exact ⟨_, rfl, retrieveAll_spec h⟩

theorem retrieveUntil_spec (h : b.Valid) {len : Nat} (hlen : len ≤ b.readableBytes) :
    ∃ b', b.retrieveUntil (b.peek + len) = .ok b' ∧
      b.DrainedTo b' (b.content.drop len) := by
  have hstop : b.peek + len ≤ b.beginWrite := by
    have := h.reader_le
    rw [readableBytes_eq h] at hlen
    simp only [peek, beginWrite]
    omega
  unfold retrieveUntil
  rw [check_of (Nat.le_add_right _ _), ok_bind, check_of hstop, ok_bind,
    Nat.add_sub_cancel_left]
  exact retrieve_spec h hlen

theorem take_content (h : b.Valid) {len : Nat} (hlen : len ≤ b.readableBytes) :
    slice b.buffer b.peek (b.peek + len) = b.content.take len := by
  have := h.reader_le
  rw [readableBytes_eq h] at hlen
  refine (take_slice _ ?_).symm
  simp only [peek, beginWrite]
  omega

theorem retrieveAsString_spec (h : b.Valid) {len : Nat} (hlen : len ≤ b.readableBytes) :
    ∃ b', b.retrieveAsString len = .ok (b.content.take len, b') ∧
      b.DrainedTo b' (b.content.drop len) := by
  obtain ⟨b', hb', hd⟩ := retrieve_spec h hlen
  refine ⟨b', ?_, hd⟩
  unfold retrieveAsString
  rw [check_of hlen, ok_bind, hb', ok_bind, take_content h hlen]
  rfl

/-! ## Making room -/

theorem length_resized {v : Bytes} {n : Nat} (h : v.length ≤ n) :
    (resized v n).length = n := by
  simp only [resized, List.length_append, List.length_take, List.length_replicate]
  omega

/-- Growing the vector at its end leaves the content alone. -/
theorem resize_spec (h : b.Valid) {len : Nat} (hlt : b.writableBytes < len)
    (hmax : b.writerIndex + len ≤ maxSize) :
    ∃ b', b.resize (b.writerIndex + len) = .ok b' ∧ b.DrainedTo b' b.content ∧
      len ≤ b'.writableBytes := by
  have hwl := h.writer_le
  have hin := h.initial_le
  rw [writableBytes_eq h] at hlt
  have hlen : (resized b.buffer (b.writerIndex + len)).length = b.writerIndex + len :=
    length_resized (by omega)
  have hv : Valid { b with buffer := resized b.buffer (b.writerIndex + len) } := by
    refine ⟨h.reader_le, ?_, ?_, ?_⟩ <;> simp only [hlen]
    · omega
    · omega
    · exact hmax
  unfold resize
  rw [check_of hmax, ok_bind]
  refine ⟨_, rfl, ⟨hv, ?_, id⟩, ?_⟩
  · simp only [content, peek, beginWrite, resized]
    rw [List.take_of_length_le (by omega)]
    exact slice_append_left hwl
  · rw [writableBytes_eq hv]
    simp only [hlen]
    omega

/-- The readable bytes move strictly towards the front, so the copy does not
read what it has written. -/
theorem compacted_buffer (h : b.Valid) (hgap : kCheapPrepend < b.readerIndex) :
    b.compacted.buffer = splice b.buffer kCheapPrepend b.content := by
  have hrw := h.reader_le
  have hwl := h.writer_le
  unfold compacted
  simp only
  rw [moveDown_eq_splice (by omega) (by omega), Nat.add_sub_cancel' hrw]
  rfl

theorem compacted_writer (h : b.Valid) (hgap : kCheapPrepend < b.readerIndex) :
    b.compacted.writerIndex = kCheapPrepend + b.readableBytes := by
  have hrw := h.reader_le
  have hwl := h.writer_le
  have hsz := h.size_le
  have hread := readableBytes_eq h
  exact szAdd_eq (by simp only [maxSize] at hsz; omega)

theorem compacted_spec (h : b.Valid) (hgap : kCheapPrepend < b.readerIndex) :
    b.DrainedTo b.compacted b.content ∧
      b.compacted.readableBytes = b.readableBytes ∧
      b.compacted.writableBytes + kCheapPrepend = b.writableBytes + b.prependableBytes := by
  have hrw := h.reader_le
  have hwl := h.writer_le
  have hread := readableBytes_eq h
  have hwrite := writableBytes_eq h
  have hlen := length_content h
  have hroom : kCheapPrepend + b.content.length ≤ b.buffer.length := by omega
  have hbuf := compacted_buffer h hgap
  have hwr := compacted_writer h hgap
  have hsize : b.compacted.buffer.length = b.buffer.length := by
    rw [hbuf, length_splice hroom]
  have hv : b.compacted.Valid := by
    refine ⟨?_, ?_, ?_, ?_⟩
    · rw [hwr]; exact Nat.le_add_right _ _
    · rw [hwr, hsize]; omega
    · rw [hsize]; exact h.initial_le
    · rw [hsize]; exact h.size_le
  refine ⟨⟨hv, ?_, fun _ => le_rfl⟩, ?_, ?_⟩
  · show slice b.compacted.buffer kCheapPrepend b.compacted.writerIndex = _
    rw [hbuf, hwr, ← hlen]
    exact slice_splice_self hroom
  · rw [readableBytes_eq hv, hwr]
    exact Nat.add_sub_cancel_left _ _
  · rw [writableBytes_eq hv, hsize, hwr]
    simp only [prependableBytes]
    omega

theorem makeSpace_spec (h : b.Valid) {len : Nat} (hlt : b.writableBytes < len)
    (hfit : b.Fits len) :
    ∃ b', b.makeSpace len = .ok b' ∧ b.DrainedTo b' b.content ∧ len ≤ b'.writableBytes := by
  obtain ⟨hlen, hsize⟩ := hfit
  have hrw := h.reader_le
  have hwl := h.writer_le
  have hsz := h.size_le
  have hwr := writableBytes_eq h
  have hsum : szAdd b.writableBytes b.prependableBytes =
      b.writableBytes + b.prependableBytes :=
    szAdd_eq (by simp only [maxSize, prependableBytes] at *; omega)
  have hneed : szAdd len kCheapPrepend = len + kCheapPrepend :=
    szAdd_eq (by simp only [maxSize, kCheapPrepend] at *; omega)
  unfold makeSpace
  rw [hsum, hneed]
  split
  · rename_i hgrow
    rw [sizeFor, if_pos ⟨hlt, hgrow⟩] at hsize
    rw [szAdd_eq (by simp only [maxSize] at hsize; omega)]
    exact resize_spec h hlt hsize
  · rename_i hcompact
    -- `writable < len` turns the failed test into a front gap to move into.
    have hgap : kCheapPrepend < b.readerIndex := by
      simp only [prependableBytes] at hcompact
      omega
    obtain ⟨hd, hread, hwrite⟩ := compacted_spec h hgap
    rw [check_of hgap, ok_bind, check_of hread.symm, ok_bind]
    exact ⟨_, rfl, hd, by omega⟩

theorem ensureWritableBytes_spec (h : b.Valid) {len : Nat} (hfit : b.Fits len) :
    ∃ b', b.ensureWritableBytes len = .ok b' ∧ b.DrainedTo b' b.content ∧
      len ≤ b'.writableBytes := by
  unfold ensureWritableBytes
  by_cases hlt : b.writableBytes < len
  · obtain ⟨b', hb', hd, hw⟩ := makeSpace_spec h hlt hfit
    rw [if_pos hlt, hb', ok_bind]
    dsimp only
    rw [check_of hw]
    exact ⟨b', rfl, hd, hw⟩
  · have hw : len ≤ b.writableBytes := Nat.le_of_not_lt hlt
    rw [if_neg hlt, pure_bind]
    dsimp only
    rw [check_of hw]
    exact ⟨b, rfl, ⟨h, rfl, id⟩, hw⟩

/-! ## Adding bytes -/

theorem copyTo_eq (b : Buffer) {i : Nat} {data : Bytes} (h : i + data.length ≤ b.buffer.length) :
    b.copyTo i data = .ok { b with buffer := splice b.buffer i data } := by
  unfold copyTo
  rw [check_of h]
  rfl

/-- Writing at `beginWrite()` after room was made extends the content. -/
theorem copyTo_hasWritten (h : b.Valid) {data : Bytes} (hw : data.length ≤ b.writableBytes) :
    ∃ b', b.copyTo b.beginWrite data = .ok b' ∧
      b.DrainedTo (b'.hasWritten data.length) (b.content ++ data) := by
  have hrw := h.reader_le
  have hwl := h.writer_le
  have hsz := h.size_le
  rw [writableBytes_eq h] at hw
  have hroom : b.writerIndex + data.length ≤ b.buffer.length := by omega
  have hadd : szAdd b.writerIndex data.length = b.writerIndex + data.length :=
    szAdd_eq (by simp only [maxSize] at hsz; omega)
  have hlen := length_splice hroom
  refine ⟨_, copyTo_eq b hroom, ⟨⟨?_, ?_, ?_, ?_⟩, ?_, id⟩⟩
  · simp only [hasWritten, beginWrite, hadd]; omega
  · simp only [hasWritten, beginWrite, hadd, hlen]; omega
  · simp only [hasWritten, beginWrite, hlen]; exact h.initial_le
  · simp only [hasWritten, beginWrite, hlen]; exact hsz
  · simp only [content, hasWritten, peek, beginWrite, hadd]
    rw [← slice_append_slice _ hrw (Nat.le_add_right _ _),
      slice_splice_before hroom le_rfl, slice_splice_self hroom]

theorem append_spec (h : b.Valid) {data : Bytes} (hfit : b.Fits data.length) :
    ∃ b', b.append data = .ok b' ∧ b.DrainedTo b' (b.content ++ data) := by
  obtain ⟨b₁, hb₁, hd₁, hw⟩ := ensureWritableBytes_spec h hfit
  obtain ⟨b₂, hb₂, hd₂⟩ := copyTo_hasWritten hd₁.valid hw
  refine ⟨_, by unfold append; rw [hb₁, ok_bind, hb₂, ok_bind]; rfl, hd₂.valid, ?_, ?_⟩
  · rw [hd₂.content, hd₁.content]
  · exact hd₂.front ∘ hd₁.front

/-! ## Running out of room

The vector grows by the bytes asked for at most, and the one fault left in a
valid buffer is the `std::length_error` of a vector that would be larger than
`max_size()`. -/

theorem makeSpace_total (h : b.Valid) {len : Nat} (hlt : b.writableBytes < len)
    (hlen : len ≤ maxSize) (hfit : ¬b.Fits len) :
    b.makeSpace len = .error .lengthError ∧ maxSize < b.writerIndex + len := by
  have hwl := h.writer_le
  have hsz := h.size_le
  have hwr := writableBytes_eq h
  have hsum : szAdd b.writableBytes b.prependableBytes =
      b.writableBytes + b.prependableBytes :=
    szAdd_eq (by have := h.reader_le; simp only [maxSize, prependableBytes] at *; omega)
  have hneed : szAdd len kCheapPrepend = len + kCheapPrepend :=
    szAdd_eq (by simp only [maxSize, kCheapPrepend] at *; omega)
  have hsize : ¬b.sizeFor len ≤ maxSize := fun hle => hfit ⟨hlen, hle⟩
  unfold sizeFor at hsize
  by_cases hgrow : b.writableBytes + b.prependableBytes < len + kCheapPrepend
  · rw [if_pos ⟨hlt, hgrow⟩] at hsize
    have hadd : szAdd b.writerIndex len = b.writerIndex + len :=
      szAdd_eq (by simp only [maxSize] at *; omega)
    refine ⟨?_, Nat.lt_of_not_le hsize⟩
    unfold makeSpace resize
    rw [hsum, hneed, if_pos hgrow, hadd, check_not hsize]
    rfl
  · rw [if_neg fun hboth => hgrow hboth.2] at hsize
    exact absurd hsz hsize

theorem makeSpace_size {b' : Buffer} {len : Nat} (hw : b.writerIndex ≤ b.buffer.length)
    (hb' : b.makeSpace len = .ok b') : b'.buffer.length ≤ b.buffer.length + len := by
  unfold makeSpace at hb'
  split at hb'
  · obtain ⟨-, -, hb'⟩ := bind_eq_ok hb'
    cases hb'
    have hadd : szAdd b.writerIndex len ≤ b.writerIndex + len := Nat.mod_le _ _
    simp only [resized, List.length_append, List.length_take, List.length_replicate]
    omega
  · obtain ⟨-, -, hb'⟩ := bind_eq_ok hb'
    obtain ⟨-, -, hb'⟩ := bind_eq_ok hb'
    cases hb'
    rw [compacted, length_moveDown]
    exact Nat.le_add_right _ _

theorem ensureWritableBytes_size {b' : Buffer} {len : Nat}
    (hw : b.writerIndex ≤ b.buffer.length) (hb' : b.ensureWritableBytes len = .ok b') :
    b'.buffer.length ≤ b.buffer.length + len := by
  unfold ensureWritableBytes at hb'
  by_cases hlt : b.writableBytes < len
  · rw [if_pos hlt] at hb'
    obtain ⟨b₁, hb₁, hb'⟩ := bind_eq_ok hb'
    obtain ⟨-, -, hb'⟩ := bind_eq_ok hb'
    cases hb'
    exact makeSpace_size hw hb₁
  · rw [if_neg hlt, pure_bind] at hb'
    obtain ⟨-, -, hb'⟩ := bind_eq_ok hb'
    cases hb'
    exact Nat.le_add_right _ _

/-- An append ends in the content extended, in a vector that grew by the new
bytes at most, or the vector would have had to be larger than `max_size()`. -/
theorem append_total (h : b.Valid) {data : Bytes} (hlen : data.length ≤ maxSize) :
    (∃ b', b.append data = .ok b' ∧ b.DrainedTo b' (b.content ++ data) ∧
      b'.buffer.length ≤ b.buffer.length + data.length) ∨
    (b.append data = .error .lengthError ∧ maxSize < b.writerIndex + data.length) := by
  by_cases hfit : b.Fits data.length
  · left
    obtain ⟨b', hb', hd⟩ := append_spec h hfit
    refine ⟨b', hb', hd, ?_⟩
    unfold append at hb'
    obtain ⟨b₁, hb₁, hb'⟩ := bind_eq_ok hb'
    obtain ⟨b₂, hb₂, hb'⟩ := bind_eq_ok hb'
    cases hb'
    have hcopy : b₁.copyTo b₁.beginWrite data = .ok b₂ := hb₂
    unfold copyTo at hcopy
    obtain ⟨u, hroom, hcopy⟩ := bind_eq_ok hcopy
    have hle := of_check hroom
    cases hcopy
    have hsize := ensureWritableBytes_size h.writer_le hb₁
    rwa [hasWritten, length_splice hle]
  · right
    have hlt : b.writableBytes < data.length := by
      by_contra hge
      have hsize : b.sizeFor data.length = b.buffer.length :=
        if_neg fun hboth => hge hboth.1
      exact hfit ⟨hlen, hsize ▸ h.size_le⟩
    obtain ⟨herr, hmax⟩ := makeSpace_total h hlt hlen hfit
    refine ⟨?_, hmax⟩
    unfold append ensureWritableBytes
    rw [if_pos hlt, herr]
    rfl

/-! ## Prepending -/

theorem prepend_spec (h : b.Valid) {data : Bytes} (hlen : data.length ≤ b.prependableBytes) :
    ∃ b', b.prepend data = .ok b' ∧ b'.Valid ∧ b'.content = data ++ b.content := by
  have hrw := h.reader_le
  have hwl := h.writer_le
  have hsz := h.size_le
  have hle : data.length ≤ b.readerIndex := hlen
  have hsub : szSub b.readerIndex data.length = b.readerIndex - data.length :=
    szSub_eq hle (by simp only [maxSize] at hsz; omega)
  have hroom : b.readerIndex - data.length + data.length ≤ b.buffer.length := by omega
  have hsize := length_splice hroom
  have hself := slice_splice_self hroom
  rw [Nat.sub_add_cancel hle] at hself
  unfold prepend
  rw [check_of hlen, ok_bind]
  dsimp only
  rw [hsub]
  refine ⟨_, copyTo_eq _ hroom, ⟨?_, ?_, ?_, ?_⟩, ?_⟩
  · simp only; omega
  · simp only [hsize]; exact hwl
  · simp only [hsize]; exact h.initial_le
  · simp only [hsize]; exact hsz
  · simp only [content, peek, beginWrite]
    rw [← slice_append_slice _ (Nat.sub_le _ _) hrw, hself,
      slice_splice_after hroom (by omega)]

end Buffer

end Muduo
