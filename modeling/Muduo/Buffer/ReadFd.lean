import Muduo.Buffer.Spec

/-!
# `readFd`

`Buffer::readFd` of `Buffer.cc`. The kernel is a result of `readv`: its
return value, `errno`, and the bytes it stored, which fill the writable tail
first and a buffer on the stack after it. Whichever of the two paths is
taken, the content grows by those bytes (`readFd_appends`): the fast path is
the second half of an `append` (`readFd_tail`), the slow one that half for the
tail and a whole `append` for the rest (`readFd_spill`).
-/

namespace Muduo

open Lib

/-- A result of `readv`; nothing is stored when it fails. -/
structure Readv where
  n : Int
  errno : Int
  data : Bytes
  stored : data.length = n.toNat

namespace Buffer

/-- `sizeof extrabuf` -/
def extrabufSize : Nat := 65536

/-- The return value, the new `*savedErrno` and the buffer. -/
def readFd (b : Buffer) (savedErrno : Int) (readv : Readv) :
    Except BufferFault (Int × Int × Buffer) := do
  let writable := b.writableBytes
  -- what `readv` puts into `vec[0]` and `vec[1]`
  let b := { b with buffer := splice b.buffer b.writerIndex (readv.data.take writable) }
  let extrabuf := readv.data.drop writable
  let n := readv.n
  if n < 0 then
    return (n, readv.errno, b)
  else if n.toNat ≤ writable then
    return (n, savedErrno, { b with writerIndex := szAdd b.writerIndex n.toNat })
  else
    let b := { b with writerIndex := b.buffer.length }
    let b ← b.append (extrabuf.take (szSub n.toNat writable))
    return (n, savedErrno, b)

variable {b : Buffer} {savedErrno : Int} {readv : Readv}

theorem readFd_failed (b : Buffer) (savedErrno : Int) (hn : readv.n < 0) :
    b.readFd savedErrno readv = .ok (readv.n, readv.errno, b) := by
  have hdata : readv.data = [] := by
    apply List.eq_nil_of_length_eq_zero
    rw [readv.stored]
    omega
  have hsame : splice b.buffer b.writerIndex (readv.data.take b.writableBytes) = b.buffer := by
    rw [hdata, List.take_nil]
    simp only [splice, List.append_nil, List.length_nil, Nat.add_zero, List.take_append_drop]
  unfold readFd
  simp only [if_pos hn, hsame]
  rfl

/-- The bytes fit in the tail. -/
theorem readFd_tail (h : b.Valid) (savedErrno : Int) (hn : 0 ≤ readv.n)
    (hfit : readv.data.length ≤ b.writableBytes) :
    ∃ b', b.readFd savedErrno readv = .ok (readv.n, savedErrno, b') ∧
      b.DrainedTo b' (b.content ++ readv.data) := by
  obtain ⟨b₁, hcopy, hd⟩ := copyTo_hasWritten h hfit
  have hroom : b.writerIndex + readv.data.length ≤ b.buffer.length := by
    have := h.writer_le
    rw [writableBytes_eq h] at hfit
    omega
  obtain rfl := Except.ok.inj ((copyTo_eq b hroom).symm.trans hcopy)
  have htake : readv.data.take b.writableBytes = readv.data := List.take_of_length_le hfit
  refine ⟨_, ?_, hd⟩
  rw [readv.stored] at hfit ⊢
  unfold readFd
  simp only [if_neg (Int.not_lt.mpr hn), if_pos hfit, htake]
  rfl

/-- The buffer with its tail filled, as `append` finds it. -/
theorem filled_spec (h : b.Valid) (hspill : b.writableBytes ≤ readv.data.length) :
    b.DrainedTo ⟨splice b.buffer b.writerIndex (readv.data.take b.writableBytes),
        b.readerIndex, b.buffer.length⟩
      (b.content ++ readv.data.take b.writableBytes) := by
  have hlen : (readv.data.take b.writableBytes).length = b.writableBytes := by
    rw [List.length_take]
    omega
  obtain ⟨b₁, hcopy, hd⟩ := copyTo_hasWritten h hlen.le
  have hwl := h.writer_le
  have hsz := h.size_le
  have hwr := writableBytes_eq h
  have hroom : b.writerIndex + (readv.data.take b.writableBytes).length ≤ b.buffer.length := by
    omega
  obtain rfl := Except.ok.inj ((copyTo_eq b hroom).symm.trans hcopy)
  have hwriter : szAdd b.writerIndex (readv.data.take b.writableBytes).length =
      b.buffer.length := by
    rw [szAdd_eq (by simp only [maxSize] at hsz; omega)]
    omega
  rw [← hwriter]
  exact hd

/-- The bytes do not fit in the tail: it is filled, and the rest is appended. -/
theorem readFd_spill (h : b.Valid) (savedErrno : Int) (hn : 0 ≤ readv.n)
    (hspill : b.writableBytes < readv.data.length)
    (hmax : readv.data.length ≤ b.writableBytes + extrabufSize) :
    (∃ b', b.readFd savedErrno readv = .ok (readv.n, savedErrno, b') ∧
      b.DrainedTo b' (b.content ++ readv.data)) ∨
    (b.readFd savedErrno readv = .error .lengthError ∧
      maxSize < b.buffer.length + (readv.data.length - b.writableBytes)) := by
  have hfilled := filled_spec h hspill.le
  have hwr := writableBytes_eq h
  have hsz := h.size_le
  have hroom : b.writerIndex + (readv.data.take b.writableBytes).length ≤ b.buffer.length := by
    have := h.writer_le
    rw [List.length_take]
    omega
  have hsize := length_splice hroom
  have hrest : (readv.data.drop b.writableBytes).take
      (szSub readv.n.toNat b.writableBytes) = readv.data.drop b.writableBytes := by
    rw [← readv.stored, szSub_eq hspill.le (by simp only [extrabufSize, maxSize] at *; omega)]
    exact List.take_of_length_le (List.length_drop ..).le
  have hread : b.readFd savedErrno readv =
      (append ⟨splice b.buffer b.writerIndex (readv.data.take b.writableBytes),
        b.readerIndex, b.buffer.length⟩ (readv.data.drop b.writableBytes) >>= fun b =>
          .ok (readv.n, savedErrno, b)) := by
    have hnot : ¬readv.n.toNat ≤ b.writableBytes := by
      rw [← readv.stored]
      omega
    unfold readFd
    simp only [if_neg (Int.not_lt.mpr hn), if_neg hnot, hrest, hsize]
    rfl
  have hlen : (readv.data.drop b.writableBytes).length ≤ maxSize := by
    rw [List.length_drop]
    simp only [extrabufSize, maxSize] at *
    omega
  rw [hread]
  obtain ⟨b', hb', hd, -⟩ | ⟨herr, hover⟩ := append_total hfilled.valid hlen
  · left
    refine ⟨b', by rw [hb']; rfl, hd.valid, ?_, hd.front ∘ hfilled.front⟩
    rw [hd.content, hfilled.content, List.append_assoc, List.take_append_drop]
  · right
    rw [List.length_drop] at hover
    exact ⟨by rw [herr]; rfl, hover⟩

/-- **`readFd` appends exactly what was read, on both paths**, and keeps the
index invariant; the exception is that of a vector which would be larger than
`max_size()`. A failed `readv` leaves the buffer as it was and stores
`errno`. -/
theorem readFd_appends (h : b.Valid) (savedErrno : Int) (readv : Readv) :
    (0 ≤ readv.n → readv.n ≤ b.writableBytes + extrabufSize →
      (∃ b', b.readFd savedErrno readv = .ok (readv.n, savedErrno, b') ∧ b'.Valid ∧
        b'.content = b.content ++ readv.data) ∨
      (b.readFd savedErrno readv = .error .lengthError ∧
        maxSize < b.buffer.length + (readv.data.length - b.writableBytes))) ∧
    (readv.n < 0 → b.readFd savedErrno readv = .ok (readv.n, readv.errno, b)) := by
  refine ⟨fun hn hmax => ?_, readFd_failed b savedErrno⟩
  by_cases hfit : readv.data.length ≤ b.writableBytes
  · obtain ⟨b', hb', hd⟩ := readFd_tail h savedErrno hn hfit
    exact Or.inl ⟨b', hb', hd.valid, hd.content⟩
  · have hlen : readv.data.length ≤ b.writableBytes + extrabufSize := by
      rw [readv.stored]
      omega
    obtain ⟨b', hb', hd⟩ | herr := readFd_spill h savedErrno hn (Nat.lt_of_not_le hfit) hlen
    · exact Or.inl ⟨b', hb', hd.valid, hd.content⟩
    · exact Or.inr herr

/-- 1500 bytes, for a buffer with room for 1024. -/
def oneRead : Readv := ⟨1500, 0, List.replicate 1500 7, List.length_replicate⟩

theorem readFd_appends_new : ∃ b', new.readFd 0 oneRead = .ok (oneRead.n, 0, b') ∧
    b'.content = oneRead.data := by
  have hwr : new.writableBytes = 1024 := by decide +kernel
  obtain ⟨b', hb', -, hcontent⟩ | ⟨-, hover⟩ :=
    (readFd_appends valid_new 0 oneRead).1 (by decide) (by rw [hwr]; decide)
  · rw [content_new, List.nil_append] at hcontent
    exact ⟨b', hb', hcontent⟩
  · have hlen : new.buffer.length = 1032 := List.length_replicate
    have hdata : oneRead.data.length = 1500 := List.length_replicate
    rw [hlen, hdata, hwr] at hover
    exact absurd hover (by decide)

end Buffer

end Muduo
