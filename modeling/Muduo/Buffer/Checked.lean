import Muduo.Buffer.ReadFd

/-!
# Buffers that carry their invariant

`append` and `readFd` on a `Buffer` with its invariant, for code that keeps
one buffer over many calls: the result is again such a buffer, with the
content extended, in a vector that grew by the new bytes at most. The one
fault is the `std::length_error` of a vector past `max_size()`.
-/

namespace Muduo

open Lib

namespace Buffer

variable {b b' : Buffer} {data : Bytes} {readv : Readv}

/-! ## How far the vector grows -/

theorem append_size (hw : b.writerIndex ≤ b.buffer.length) (hb : b.append data = .ok b') :
    b'.buffer.length ≤ b.buffer.length + data.length := by
  unfold append at hb
  obtain ⟨b₁, hb₁, hb⟩ := bind_eq_ok hb
  obtain ⟨b₂, hb₂, hb⟩ := bind_eq_ok hb
  obtain rfl := Except.ok.inj hb
  have hsize := ensureWritableBytes_size hw hb₁
  unfold copyTo at hb₂
  obtain ⟨_, hroom, hb₂⟩ := bind_eq_ok hb₂
  obtain rfl := Except.ok.inj hb₂
  rwa [hasWritten, length_splice (of_check hroom)]

theorem readFd_size (h : b.Valid) {savedErrno n errno : Int}
    (hb : b.readFd savedErrno readv = .ok (n, errno, b')) :
    b'.buffer.length ≤ b.buffer.length + readv.data.length := by
  have hwl := h.writer_le
  have hwr := writableBytes_eq h
  have hlen : (splice b.buffer b.writerIndex (readv.data.take b.writableBytes)).length =
      b.buffer.length := by
    refine length_splice ?_
    rw [List.length_take]
    omega
  unfold readFd at hb
  dsimp only at hb
  split at hb
  · cases hb
    exact hlen.le.trans (Nat.le_add_right _ _)
  · split at hb
    · cases hb
      exact hlen.le.trans (Nat.le_add_right _ _)
    · obtain ⟨b₁, hb₁, hb⟩ := bind_eq_ok hb
      cases hb
      have hgrown := append_size (le_refl _) hb₁
      simp only [hlen, List.length_take, List.length_drop] at hgrown
      omega

/-- A read ends in the content extended by the bytes read; or in a failure
that changes nothing; or the vector would be too large. -/
theorem readFd_total (h : b.Valid) (savedErrno : Int)
    (hmax : readv.n ≤ b.writableBytes + extrabufSize) :
    (∃ errno b', b.readFd savedErrno readv = .ok (readv.n, errno, b') ∧ b'.Valid ∧
      b'.content = b.content ++ readv.data ∧
      b'.buffer.length ≤ b.buffer.length + readv.data.length) ∨
    (b.readFd savedErrno readv = .error .lengthError ∧ 0 < readv.n ∧
      maxSize < b.buffer.length + readv.data.length) := by
  by_cases hn : readv.n < 0
  · have hfailed := readFd_failed (b := b) savedErrno hn
    have hdata : readv.data = [] := by
      apply List.eq_nil_of_length_eq_zero
      rw [readv.stored]
      omega
    exact Or.inl ⟨_, _, hfailed, h, by rw [hdata, List.append_nil], readFd_size h hfailed⟩
  · have hn := Int.not_lt.mp hn
    by_cases hfit : readv.data.length ≤ b.writableBytes
    · obtain ⟨b', hb', hd⟩ := readFd_tail h savedErrno hn hfit
      exact Or.inl ⟨_, b', hb', hd.valid, hd.content, readFd_size h hb'⟩
    · have hspill : b.writableBytes < readv.data.length := Nat.lt_of_not_le hfit
      have hle : readv.data.length ≤ b.writableBytes + extrabufSize := by
        rw [readv.stored]
        omega
      rcases readFd_spill h savedErrno hn hspill hle with ⟨b', hb', hd⟩ | ⟨herr, hover⟩
      · exact Or.inl ⟨_, b', hb', hd.valid, hd.content, readFd_size h hb'⟩
      · refine Or.inr ⟨herr, ?_, by omega⟩
        have := readv.stored
        omega

/-- At the end of the stream, and on an error, the buffer stays as it is. -/
theorem readFd_nothing (h : b.Valid) (savedErrno : Int) (hn : readv.n ≤ 0) :
    ∃ errno, b.readFd savedErrno readv = .ok (readv.n, errno, b) := by
  rcases Int.lt_or_eq_of_le hn with hneg | hzero
  · exact ⟨_, readFd_failed b savedErrno hneg⟩
  · have hdata : readv.data = [] := by
      apply List.eq_nil_of_length_eq_zero
      rw [readv.stored, hzero]
      rfl
    have hsame : splice b.buffer b.writerIndex ([].take b.writableBytes) = b.buffer := by
      rw [List.take_nil]
      simp only [splice, List.append_nil, List.length_nil, Nat.add_zero, List.take_append_drop]
    have hwl := h.writer_le
    have hsz := h.size_le
    have hadd : szAdd b.writerIndex 0 = b.writerIndex :=
      szAdd_eq (by simp only [maxSize] at hsz; omega)
    refine ⟨savedErrno, ?_⟩
    unfold readFd
    simp only [hdata, hzero, hsame, Int.toNat_zero, hadd]
    rfl

/-- The whole content, from a buffer that is then as good as new. -/
theorem retrieveAllAsString_eq (h : b.Valid) :
    b.retrieveAllAsString = .ok (b.content, b.retrieveAll) := by
  have hall : b.retrieve b.readableBytes = .ok b.retrieveAll := by
    unfold retrieve
    rw [check_of (le_refl _), ok_bind, if_neg (Nat.lt_irrefl _)]
    rfl
  unfold retrieveAllAsString retrieveAsString
  rw [check_of (le_refl _), ok_bind, hall, ok_bind, take_content h (le_refl _),
    List.take_of_length_le (length_content h).le]
  rfl

end Buffer

/-- A `Buffer` with its invariant. -/
abbrev CheckedBuffer := { b : Buffer // b.Valid }

namespace CheckedBuffer

open Buffer

variable {b : CheckedBuffer} {data : Bytes}

def new : CheckedBuffer := ⟨.new, valid_new⟩

/-- `buffer_.size()` -/
def size (b : CheckedBuffer) : Nat := b.1.buffer.length

theorem size_new : new.size = kCheapPrepend + kInitialSize := List.length_replicate

/-- A read that stores no more than the two vectors hold. -/
def readFd (b : CheckedBuffer) (savedErrno : Int) (readv : Readv)
    (hfit : readv.n ≤ b.1.writableBytes + extrabufSize) :
    Except BufferFault (Int × Int × CheckedBuffer) :=
  match h : b.1.readFd savedErrno readv with
  | .ok (n, errno, b') => .ok (n, errno, ⟨b', by
      obtain ⟨_, b₁, hb₁, hvalid, -⟩ | ⟨herr, -⟩ := readFd_total b.2 savedErrno hfit
      · cases hb₁.symm.trans h
        exact hvalid
      · rw [h] at herr
        cases herr⟩)
  | .error e => .error e

theorem readFd_cases (b : CheckedBuffer) (savedErrno : Int) (readv : Readv)
    (hfit : readv.n ≤ b.1.writableBytes + extrabufSize) :
    (∃ errno b', b.readFd savedErrno readv hfit = .ok (readv.n, errno, b') ∧
      b'.1.content = b.1.content ++ readv.data ∧ b'.size ≤ b.size + readv.data.length) ∨
    (b.readFd savedErrno readv hfit = .error .lengthError ∧ 0 < readv.n ∧
      maxSize < b.size + readv.data.length) := by
  unfold readFd
  obtain ⟨errno, b₁, hb₁, -, hcontent, hsize⟩ | ⟨herr, hn, hover⟩ :=
    readFd_total b.2 savedErrno hfit
  · left
    split
    · rename_i n' errno' b' h
      cases hb₁.symm.trans h
      exact ⟨_, _, rfl, hcontent, hsize⟩
    · rename_i e h
      rw [hb₁] at h
      cases h
  · right
    refine ⟨?_, hn, hover⟩
    split
    · rename_i n' errno' b' h
      rw [herr] at h
      cases h
    · rename_i e h
      rw [← Except.error.inj (herr.symm.trans h)]

theorem readFd_nothing (b : CheckedBuffer) (savedErrno : Int) {readv : Readv}
    (hfit : readv.n ≤ b.1.writableBytes + extrabufSize) (hn : readv.n ≤ 0) :
    ∃ errno, b.readFd savedErrno readv hfit = .ok (readv.n, errno, b) := by
  obtain ⟨errno, hb⟩ := Buffer.readFd_nothing b.2 savedErrno hn
  refine ⟨errno, ?_⟩
  unfold readFd
  split
  · rename_i n' errno' b' h
    cases hb.symm.trans h
    rfl
  · rename_i e h
    rw [hb] at h
    cases h

/-- Bytes that fit behind the content do not make the vector grow. -/
theorem readFd_fits (b : CheckedBuffer) (savedErrno : Int) {readv : Readv}
    (hfit : readv.n ≤ b.1.writableBytes + extrabufSize)
    (hroom : readv.data.length ≤ b.1.writableBytes) :
    ∃ errno b', b.readFd savedErrno readv hfit = .ok (readv.n, errno, b') := by
  rcases b.readFd_cases savedErrno readv hfit with ⟨errno, b', hb', -⟩ | ⟨herr, hn, -⟩
  · exact ⟨errno, b', hb'⟩
  · obtain ⟨b₁, hb₁, -⟩ := readFd_tail b.2 savedErrno hn.le hroom
    unfold readFd at herr
    split at herr
    · cases herr
    · rename_i e h
      rw [hb₁] at h
      cases h

def retrieveAllAsString (b : CheckedBuffer) : Except BufferFault (Bytes × CheckedBuffer) :=
  match h : b.1.retrieveAllAsString with
  | .ok (result, b') => .ok (result, ⟨b', by
      cases (retrieveAllAsString_eq b.2).symm.trans h
      exact (retrieveAll_spec b.2).valid⟩)
  | .error e => .error e

/-- Nothing to read, and room to write. -/
structure Drained (b : CheckedBuffer) : Prop where
  content : b.1.content = []
  room : 0 < b.1.writableBytes

theorem retrieveAllAsString_spec (b : CheckedBuffer) :
    ∃ b', b.retrieveAllAsString = .ok (b.1.content, b') ∧ b'.Drained ∧ b'.size = b.size := by
  have hb := retrieveAllAsString_eq b.2
  have hd := retrieveAll_spec b.2
  refine ⟨⟨b.1.retrieveAll, hd.valid⟩, ?_, ⟨hd.content, ?_⟩, rfl⟩
  · unfold retrieveAllAsString
    split
    · rename_i result b' h
      cases hb.symm.trans h
      rfl
    · rename_i e h
      rw [hb] at h
      cases h
  · have hinit : 0 < kInitialSize := Nat.zero_lt_succ 1023
    have hle : kCheapPrepend + kInitialSize ≤ b.1.retrieveAll.buffer.length := b.2.initial_le
    have hwriter : b.1.retrieveAll.writerIndex = kCheapPrepend := rfl
    rw [writableBytes_eq hd.valid, hwriter]
    omega

theorem drained_new : new.Drained where
  content := content_new
  room := by
    have hwriter : new.1.writerIndex = kCheapPrepend := rfl
    have hinit : 0 < kInitialSize := Nat.zero_lt_succ 1023
    have hsize : new.1.buffer.length = kCheapPrepend + kInitialSize := size_new
    rw [writableBytes_eq new.2, hwriter, hsize]
    omega

end CheckedBuffer

end Muduo
