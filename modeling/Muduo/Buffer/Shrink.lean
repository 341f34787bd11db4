import Muduo.Buffer.Spec

/-!
# `shrink`

`Buffer::shrink`: the readable bytes are appended to a fresh buffer with
room for the reserve, and the two are swapped. The bytes travel as a
`StringPiece`, whose length is an `int`, and `append` makes a `size_t` of
that length again. From `2 ^ 31` readable bytes on the round trip through
`int` loses the length: what comes back is either too short, and the content
is cut, or so large that no vector has room for it.
-/

namespace Muduo

open Lib

/-- `StringPiece`: a pointer, as an offset from `begin()`, and `int length_`. -/
structure StringPiece where
  ptr : Nat
  length : Int
deriving DecidableEq, Repr

namespace Buffer

def toStringPiece (b : Buffer) : StringPiece where
  ptr := b.peek
  length := toInt b.readableBytes

/-- `append(data, len)` where `data` points into the vector `src`. -/
def appendFrom (b : Buffer) (src : Bytes) (data len : Nat) : Except BufferFault Buffer := do
  let b ← b.ensureWritableBytes len
  check (data + len ≤ src.length) .outOfRange
  let b ← b.copyTo b.beginWrite (slice src data (data + len))
  return b.hasWritten len

/-- `append(str)` for a piece of the vector `src`. -/
def appendPiece (b : Buffer) (src : Bytes) (str : StringPiece) : Except BufferFault Buffer :=
  b.appendFrom src str.ptr (toSize str.length)

def shrink (b : Buffer) (reserve : Nat) : Except BufferFault Buffer := do
  let other := new
  let other ← other.ensureWritableBytes (szAdd b.readableBytes reserve)
  let other ← other.appendPiece b.buffer b.toStringPiece
  return (b.swap other).1

/-- The law of `shrink(reserve)`: it returns, with the content it found and
the room it was asked for. -/
def Shrinks (b : Buffer) (reserve : Nat) : Prop :=
  ∃ b', b.shrink reserve = .ok b' ∧ b'.content = b.content ∧
    reserve ≤ b'.writableBytes ∧ b'.prependableBytes = kCheapPrepend

variable {b : Buffer} {reserve : Nat}

/-! ## Appending a range -/

theorem appendFrom_eq (b : Buffer) {src : Bytes} {data len : Nat}
    (h : data + len ≤ src.length) :
    b.appendFrom src data len = b.append (slice src data (data + len)) := by
  have hlen : (slice src data (data + len)).length = len := by
    rw [length_slice h, Nat.add_sub_cancel_left]
  unfold appendFrom append
  rw [hlen]
  simp only [check_of h, ok_bind]

/-- With room for the bytes the vector does not move and neither does the
reader. -/
theorem append_in_place (h : b.Valid) {data : Bytes} (hw : data.length ≤ b.writableBytes) :
    ∃ b', b.append data = .ok b' ∧ b'.Valid ∧ b'.content = b.content ++ data ∧
      b'.readerIndex = b.readerIndex ∧
      b'.writableBytes = b.writableBytes - data.length := by
  have hwr := writableBytes_eq h
  have hwl := h.writer_le
  have hsz := h.size_le
  have hroom : b.beginWrite + data.length ≤ b.buffer.length := by
    simp only [beginWrite]
    omega
  have hstay : b.ensureWritableBytes data.length = .ok b := by
    unfold ensureWritableBytes
    rw [if_neg (Nat.not_lt.mpr hw), pure_bind]
    dsimp only
    rw [check_of hw]
    rfl
  obtain ⟨b₁, hcopy, hd⟩ := copyTo_hasWritten h hw
  obtain rfl := Except.ok.inj ((copyTo_eq b hroom).symm.trans hcopy)
  refine ⟨_, ?_, hd.valid, hd.content, rfl, ?_⟩
  · unfold append
    rw [hstay, ok_bind, hcopy, ok_bind]
    rfl
  · rw [writableBytes_eq hd.valid, hwr]
    simp only [hasWritten, length_splice hroom]
    rw [szAdd_eq (by simp only [maxSize] at hsz; omega)]
    omega

/-! ## The fresh buffer -/

/-- An empty buffer with room for `n` bytes, and for no fewer than a new one
has. -/
def roomy (n : Nat) : Buffer where
  buffer := List.replicate (kCheapPrepend + max kInitialSize n) 0
  readerIndex := kCheapPrepend
  writerIndex := kCheapPrepend

theorem roomy_valid {n : Nat} (h : n + kCheapPrepend ≤ maxSize) : (roomy n).Valid := by
  have hlen : (roomy n).buffer.length = kCheapPrepend + max kInitialSize n :=
    List.length_replicate
  refine ⟨le_rfl, ?_, ?_, ?_⟩ <;> rw [hlen]
  · exact Nat.le_add_right _ _
  · exact Nat.add_le_add_left (Nat.le_max_left _ _) _
  · simp only [kCheapPrepend, kInitialSize, maxSize] at *
    omega

theorem writableBytes_roomy {n : Nat} (h : n + kCheapPrepend ≤ maxSize) :
    (roomy n).writableBytes = max kInitialSize n := by
  rw [writableBytes_eq (roomy_valid h)]
  simp only [roomy, List.length_replicate, Nat.add_sub_cancel_left]

theorem new_eq_roomy {n : Nat} (h : n ≤ kInitialSize) : new = roomy n := by
  rw [roomy, Nat.max_eq_left h]
  rfl

theorem resized_new {n : Nat} (h : kInitialSize ≤ n) :
    resized new.buffer (kCheapPrepend + n) = (roomy n).buffer := by
  have hmin : min (kCheapPrepend + n) (kCheapPrepend + kInitialSize) +
      (kCheapPrepend + n - (kCheapPrepend + kInitialSize)) = kCheapPrepend + n := by
    omega
  simp only [resized, roomy, new, List.length_replicate, List.take_replicate,
    List.replicate_append_replicate, hmin, Nat.max_eq_right h]

/-- No room is needed, or the vector grows at its end: there is no front gap
to compact into. -/
theorem ensureWritableBytes_new {n : Nat} (h : n + kCheapPrepend ≤ maxSize) :
    new.ensureWritableBytes n = .ok (roomy n) := by
  have hwr : new.writableBytes = kInitialSize := writableBytes_roomy (n := 0) (by decide)
  have hroomy := writableBytes_roomy h
  unfold ensureWritableBytes
  by_cases hfit : n ≤ kInitialSize
  · rw [hwr, if_neg (Nat.not_lt.mpr hfit), pure_bind]
    dsimp only
    rw [hwr, check_of hfit, new_eq_roomy hfit]
    rfl
  · have hgrow : new.makeSpace n = .ok (roomy n) := by
      have hneed : szAdd n kCheapPrepend = n + kCheapPrepend :=
        szAdd_eq (by simp only [maxSize] at h; omega)
      have hsize : szAdd new.writerIndex n = kCheapPrepend + n :=
        szAdd_eq (by simp only [new, maxSize] at *; omega)
      have hsum : szAdd new.writableBytes new.prependableBytes =
          kInitialSize + kCheapPrepend := by
        rw [hwr]
        rfl
      unfold makeSpace resize
      rw [hsum, hneed, if_pos (by omega), hsize, check_of (by omega), ok_bind]
      rw [resized_new (by omega)]
      rfl
    rw [hwr, if_pos (by omega), hgrow, ok_bind]
    dsimp only
    rw [hroomy, check_of (Nat.le_max_right _ _)]
    rfl

/-- A request no vector has room for fails, whichever way the sums wrap. -/
theorem ensureWritableBytes_huge (h : b.Valid) (hr : b.readerIndex = kCheapPrepend)
    (hw : b.writerIndex = kCheapPrepend) {n : Nat} (hlt : b.writableBytes < n)
    (hhuge : maxSize < n + kCheapPrepend) (hn : n < 2 ^ 64) :
    ∃ e, b.ensureWritableBytes n = .error e := by
  have hwr := writableBytes_eq h
  have hsz := h.size_le
  have hwl := h.writer_le
  have hsum : szAdd b.writableBytes b.prependableBytes =
      b.writableBytes + kCheapPrepend := by
    simp only [prependableBytes, hr]
    exact szAdd_eq (by simp only [maxSize] at *; omega)
  suffices hspace : ∃ e, b.makeSpace n = .error e by
    obtain ⟨e, he⟩ := hspace
    refine ⟨e, ?_⟩
    unfold ensureWritableBytes
    rw [if_pos hlt, he]
    rfl
  unfold makeSpace resize
  rw [hsum, hw, hr]
  by_cases hwrap : n + kCheapPrepend < 2 ^ 64
  · have hneed : szAdd n kCheapPrepend = n + kCheapPrepend := szAdd_eq hwrap
    have hsize : szAdd kCheapPrepend n = kCheapPrepend + n := szAdd_eq (by omega)
    rw [hneed, if_pos (by omega), hsize, check_not (by omega)]
    exact ⟨_, rfl⟩
  · -- `len + kCheapPrepend` wraps to less than the front gap
    have hneed : szAdd n kCheapPrepend < kCheapPrepend := by
      simp only [szAdd, sizeMod, kCheapPrepend] at *
      omega
    rw [if_neg (by omega), check_not (Nat.lt_irrefl _)]
    exact ⟨_, rfl⟩

/-- A buffer filled with `n` readable bytes. -/
def filled (n : Nat) : Buffer := { roomy n with writerIndex := kCheapPrepend + n }

theorem filled_valid {n : Nat} (h : n + kCheapPrepend ≤ maxSize) : (filled n).Valid := by
  have hv := roomy_valid h
  have hlen : (filled n).buffer.length = kCheapPrepend + max kInitialSize n :=
    List.length_replicate
  refine ⟨Nat.le_add_right _ _, ?_, hv.initial_le, hv.size_le⟩
  rw [hlen]
  exact Nat.add_le_add_left (Nat.le_max_right _ _) _

theorem readableBytes_filled {n : Nat} (h : n + kCheapPrepend ≤ maxSize) :
    (filled n).readableBytes = n := by
  rw [readableBytes_eq (filled_valid h)]
  exact Nat.add_sub_cancel_left _ _

/-! ## Shrinking -/

theorem shrink_of (b : Buffer) (hroom : b.readableBytes + reserve + kCheapPrepend ≤ maxSize) :
    b.shrink reserve =
      (roomy (b.readableBytes + reserve)).appendPiece b.buffer b.toStringPiece := by
  have hsum : szAdd b.readableBytes reserve = b.readableBytes + reserve :=
    szAdd_eq (by simp only [maxSize] at hroom; omega)
  unfold shrink
  dsimp only
  rw [hsum, ensureWritableBytes_new hroom, ok_bind]
  cases (roomy (b.readableBytes + reserve)).appendPiece b.buffer b.toStringPiece <;> rfl

theorem shrink_too_large (hsum : b.readableBytes + reserve < 2 ^ 64)
    (hhuge : maxSize < b.readableBytes + reserve + kCheapPrepend) :
    ∃ e, b.shrink reserve = .error e := by
  have hlt : new.writableBytes < b.readableBytes + reserve := by
    rw [writableBytes_eq valid_new]
    simp only [new, List.length_replicate, kCheapPrepend, kInitialSize, maxSize] at *
    omega
  obtain ⟨e, he⟩ := ensureWritableBytes_huge valid_new rfl rfl hlt hhuge hsum
  refine ⟨e, ?_⟩
  unfold shrink
  rw [szAdd_eq hsum]
  simp only [he]
  rfl

/-- As long as the narrowed length is not negative, that many of the readable
bytes survive. -/
theorem shrink_takes (h : b.Valid) (hroom : b.readableBytes + reserve + kCheapPrepend ≤ maxSize)
    (hpos : b.readableBytes % intMod < 2 ^ 31) :
    ∃ b', b.shrink reserve = .ok b' ∧ b'.Valid ∧
      b'.content = b.content.take (b.readableBytes % intMod) ∧
      reserve ≤ b'.writableBytes ∧ b'.prependableBytes = kCheapPrepend := by
  have hle : b.readableBytes % intMod ≤ b.readableBytes := Nat.mod_le _ _
  have hrd := readableBytes_eq h
  have hin : b.peek + b.readableBytes % intMod ≤ b.buffer.length := by
    have := h.writer_le
    have := h.reader_le
    simp only [peek]
    omega
  have hlen : (b.content.take (b.readableBytes % intMod)).length =
      b.readableBytes % intMod := by
    rw [List.length_take, length_content h]
    omega
  have hwr := writableBytes_roomy hroom
  have hmax : b.readableBytes + reserve ≤ max kInitialSize (b.readableBytes + reserve) :=
    Nat.le_max_right _ _
  have hfits : (b.content.take (b.readableBytes % intMod)).length ≤
      (roomy (b.readableBytes + reserve)).writableBytes := by
    rw [hlen, hwr]
    omega
  obtain ⟨b', hb', hv, hc, hr, hw⟩ := append_in_place (roomy_valid hroom) hfits
  refine ⟨b', ?_, hv, ?_, ?_, hr⟩
  · rw [shrink_of b hroom, appendPiece, toStringPiece, toSize_toInt hpos, appendFrom_eq _ hin,
      take_content h hle]
    exact hb'
  · rw [hc]
    exact congrArg (· ++ _) (slice_self _ _)
  · rw [hw, hwr, hlen]
    omega

/-- A negative length asks for more room than there is. -/
theorem shrink_negative (hroom : b.readableBytes + reserve + kCheapPrepend ≤ maxSize)
    (hneg : 2 ^ 31 ≤ b.readableBytes % intMod) : ∃ e, b.shrink reserve = .error e := by
  have hwr := writableBytes_roomy hroom
  have hmod : b.readableBytes % intMod < 2 ^ 32 := Nat.mod_lt _ (by decide)
  have hlt : (roomy (b.readableBytes + reserve)).writableBytes <
      2 ^ 64 - 2 ^ 32 + b.readableBytes % intMod := by
    rw [hwr]
    simp only [kInitialSize, kCheapPrepend, maxSize] at *
    omega
  obtain ⟨e, he⟩ := ensureWritableBytes_huge (roomy_valid hroom) rfl rfl hlt
    (by simp only [maxSize]; omega) (by omega)
  refine ⟨e, ?_⟩
  rw [shrink_of b hroom, appendPiece, toStringPiece, toSize_toInt_neg hneg]
  unfold appendFrom
  rw [he]
  rfl

/-- From `2 ^ 31` readable bytes on the length does not survive the `int`. -/
theorem not_shrinks_of_long (h : b.Valid) (hlong : 2 ^ 31 ≤ b.readableBytes)
    (hroom : b.readableBytes + reserve + kCheapPrepend ≤ maxSize) : ¬b.Shrinks reserve := by
  rintro ⟨b', hb', hc, -⟩
  by_cases hpos : b.readableBytes % intMod < 2 ^ 31
  · obtain ⟨b'', hb'', -, hcut, -⟩ := shrink_takes h hroom hpos
    obtain rfl := Except.ok.inj (hb'.symm.trans hb'')
    have hlen := congrArg List.length (hc.symm.trans hcut)
    rw [List.length_take, length_content h] at hlen
    omega
  · obtain ⟨e, he⟩ := shrink_negative hroom (Nat.not_lt.mp hpos)
    cases hb'.symm.trans he

/-- `shrink` keeps the content and the reserve exactly when the length of the
content is an `int` and a vector of the new size exists. -/
theorem shrink_preserves_iff (h : b.Valid) (hsum : b.readableBytes + reserve < 2 ^ 64) :
    b.Shrinks reserve ↔
      b.readableBytes < 2 ^ 31 ∧ b.readableBytes + reserve + kCheapPrepend ≤ maxSize := by
  constructor
  · intro hs
    have hroom : b.readableBytes + reserve + kCheapPrepend ≤ maxSize := by
      by_contra hhuge
      obtain ⟨e, he⟩ := shrink_too_large hsum (Nat.not_le.mp hhuge)
      obtain ⟨b', hb', -⟩ := hs
      cases hb'.symm.trans he
    exact ⟨Nat.not_le.mp fun hlong => not_shrinks_of_long h hlong hroom hs, hroom⟩
  · rintro ⟨hint, hroom⟩
    have hmod : b.readableBytes % intMod = b.readableBytes :=
      Nat.mod_eq_of_lt (Nat.lt_trans hint (by decide))
    obtain ⟨b', hb', -, hc, hw, hp⟩ := shrink_takes h hroom (by rwa [hmod])
    refine ⟨b', hb', ?_, hw, hp⟩
    rw [hc, hmod, List.take_of_length_le (length_content h).le]

/-- Three readable bytes, and a reserve beyond the initial size. -/
theorem shrink_preserves_three : (filled 3).Shrinks 2000 := by
  have hread := readableBytes_filled (n := 3) (by decide)
  exact (shrink_preserves_iff (filled_valid (by decide)) (by rw [hread]; decide)).mpr
    (by rw [hread]; decide)

/-- With `2 ^ 31` readable bytes the length is negative: `shrink` ends in a
fault, whatever the reserve. -/
theorem shrink_preserves_not_two_gib :
    ¬∀ (b : Buffer) (reserve : Nat), b.Valid → b.readableBytes + reserve < 2 ^ 64 →
      b.Shrinks reserve := by
  intro hall
  have hmax : 2 ^ 31 + kCheapPrepend ≤ maxSize := by decide
  have hv := filled_valid hmax
  have hread := readableBytes_filled hmax
  refine not_shrinks_of_long hv (by rw [hread]) ?_ (hall _ 0 hv ?_)
  · rw [hread]
    exact hmax
  · rw [hread]
    decide

end Buffer

end Muduo
