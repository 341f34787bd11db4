import Mathlib.Data.List.DropRight
import Muduo.Base

/-!
# Answering a client

The two echo servers answer a client in the same way: `read` into a cleared
array of 1024 bytes, then `write` what the array holds up to its first NUL. A
NUL in the middle ends the answer early; an array filled to its end has no NUL
at all, and the answer goes on into the memory behind it.

The servers keep a record of their system calls (`Call`), in which every chunk
is followed by its answer (`Paired`). A client's traffic is what the record has
for its descriptor since `accept4` returned that (`session`).
-/

namespace Muduo

namespace Echo

/-- `sizeof buf` -/
def bufSize : Nat := 1024

/-- The bytes a `read` returns, and the memory behind `buf` as far as its first
NUL. -/
structure Chunk where
  bytes : Bytes
  beyond : Bytes
deriving DecidableEq, Repr

/-- `read(connfd, buf, 1024)`; no bytes are the end of the stream. -/
inductive ReadResult where
  | failed
  | data (chunk : Chunk)
deriving DecidableEq, Repr

def ReadResult.fits : ReadResult → Bool
  | failed => true
  | data chunk => chunk.bytes.length ≤ bufSize

/-- `strlen` -/
def strlen (memory : Bytes) : Nat := (memory.takeWhile (· ≠ 0)).length

namespace Chunk

/-- The memory from `buf` on, after the `read`. -/
def memory (chunk : Chunk) : Bytes :=
  chunk.bytes ++ List.replicate (bufSize - chunk.bytes.length) 0 ++ chunk.beyond

/-- `strlen(buf)` bytes from `buf`. -/
def reply (chunk : Chunk) : Bytes := chunk.memory.take (strlen chunk.memory)

/-- No NUL among the bytes, and one right behind them. -/
def Clean (chunk : Chunk) : Prop :=
  0 ∉ chunk.bytes ∧ (chunk.bytes.length < bufSize ∨ chunk.beyond.headD 0 = 0)

instance (chunk : Chunk) : Decidable chunk.Clean := inferInstanceAs (Decidable (_ ∧ _))

end Chunk

/-- System calls, with what they returned. -/
inductive Call where
  | accept4 (connfd : Int)
  | read (fd : Int) (result : ReadResult)
  | write (fd : Int) (data : Bytes)
  | close (fd : Int)
  | epollAdd (fd : Int)
  | epollDel (fd : Int)
  /-- `accept(listenfd, NULL, NULL)` -/
  | accept (fd : Int)
  /-- `open("/dev/null", O_RDONLY | O_CLOEXEC)` -/
  | openNull (fd : Int)
deriving DecidableEq, Repr

namespace Call

/-- Does it carry bytes from or to a client? -/
def isTraffic : Call → Bool
  | read _ (.data chunk) => chunk.bytes ≠ []
  | write _ _ => true
  | _ => false

/-- The chunk read from `fd`. -/
def chunkFrom (fd : Int) : Call → Option Chunk
  | read fd' (.data chunk) => if fd' = fd ∧ chunk.bytes ≠ [] then some chunk else none
  | _ => none

def readOn : Call → Option Int
  | read fd _ => some fd
  | _ => none

def closeOf : Call → Option Int
  | close fd => some fd
  | _ => none

/-- The bytes written to `fd`. -/
def dataTo (fd : Int) : Call → Option Bytes
  | write fd' data => if fd' = fd then some data else none
  | _ => none

end Call

/-- The calls since `accept4` last returned `fd`. -/
def session (fd : Int) (calls : List Call) : List Call := calls.rtakeWhile (· ≠ .accept4 fd)

def chunks (fd : Int) (calls : List Call) : List Chunk := calls.filterMap (Call.chunkFrom fd)

/-- The bytes read from `fd`, `read` by `read`. -/
def reads (fd : Int) (calls : List Call) : List Bytes := (chunks fd calls).map Chunk.bytes

/-- The bytes passed to `write`, call by call. -/
def writes (fd : Int) (calls : List Call) : List Bytes := calls.filterMap (Call.dataTo fd)

/-! ## One answer -/

namespace Chunk

variable {chunk : Chunk}

theorem reply_eq (chunk : Chunk) : chunk.reply = chunk.memory.takeWhile (· ≠ 0) :=
  (List.prefix_iff_eq_take.mp (List.takeWhile_prefix _)).symm

theorem zero_notMem_reply (chunk : Chunk) : 0 ∉ chunk.reply := by
  intro hmem
  rw [reply_eq] at hmem
  have hne := List.mem_takeWhile_imp hmem
  exact of_decide_eq_true hne rfl

/-- Without a NUL among the bytes, the answer does not stop before their end. -/
theorem reply_of_notMem (h : 0 ∉ chunk.bytes) : chunk.reply = chunk.bytes ++
    (List.replicate (bufSize - chunk.bytes.length) 0 ++ chunk.beyond).takeWhile (· ≠ 0) := by
  rw [reply_eq, memory, List.append_assoc]
  refine List.takeWhile_append_of_pos fun b hb => decide_eq_true ?_
  rintro rfl
  exact h hb

theorem reply_eq_bytes_iff (chunk : Chunk) : chunk.reply = chunk.bytes ↔ chunk.Clean := by
  constructor
  · intro h
    have hnul : 0 ∉ chunk.bytes := h ▸ chunk.zero_notMem_reply
    refine ⟨hnul, ?_⟩
    rw [reply_of_notMem hnul, List.append_right_eq_self] at h
    by_contra hnot
    obtain ⟨hfull, hhead⟩ := not_or.mp hnot
    rw [Nat.sub_eq_zero_of_le (Nat.not_lt.mp hfull), List.replicate_zero, List.nil_append] at h
    cases hb : chunk.beyond with
    | nil =>
        rw [hb] at hhead
        exact hhead rfl
    | cons b beyond =>
        rw [hb] at h hhead
        have hne : b ≠ 0 := hhead
        simp [hne] at h
  · rintro ⟨hnul, hend⟩
    rw [reply_of_notMem hnul, List.append_right_eq_self]
    rcases hend with hshort | hhead
    · obtain ⟨n, hn⟩ := Nat.exists_eq_succ_of_ne_zero (Nat.sub_pos_of_lt hshort).ne'
      rw [hn, List.replicate_succ]
      rfl
    · cases hrep : bufSize - chunk.bytes.length with
      | succ n => rfl
      | zero =>
          cases hb : chunk.beyond with
          | nil => rfl
          | cons b beyond =>
              rw [hb] at hhead
              obtain rfl : b = 0 := hhead
              rfl

theorem bytes_prefix_reply (h : 0 ∉ chunk.bytes) : chunk.bytes <+: chunk.reply :=
  ⟨_, (reply_of_notMem h).symm⟩

end Chunk

/-! ## All the answers to a client -/

theorem length_flatten_le {cs : List Chunk} (h : ∀ c ∈ cs, 0 ∉ c.bytes) :
    (cs.map Chunk.bytes).flatten.length ≤ (cs.map Chunk.reply).flatten.length := by
  induction cs with
  | nil => exact Nat.le_refl _
  | cons c cs ih =>
      have hc := (Chunk.bytes_prefix_reply (h c List.mem_cons_self)).length_le
      have hcs := ih fun c' hc' => h c' (List.mem_cons_of_mem c hc')
      simp only [List.map_cons, List.flatten_cons, List.length_append]
      omega

/-- An answer that is too long cannot be made up for by a later one. -/
theorem clean_of_flatten_eq {cs : List Chunk} (hnul : ∀ c ∈ cs, 0 ∉ c.bytes)
    (h : (cs.map Chunk.reply).flatten = (cs.map Chunk.bytes).flatten) : ∀ c ∈ cs, c.Clean := by
  induction cs with
  | nil =>
      intro c hc
      cases hc
  | cons c cs ih =>
      have hnul' : ∀ c' ∈ cs, 0 ∉ c'.bytes := fun c' hc' => hnul c' (List.mem_cons_of_mem c hc')
      obtain ⟨extra, hextra⟩ := Chunk.bytes_prefix_reply (hnul c List.mem_cons_self)
      simp only [List.map_cons, List.flatten_cons, ← hextra, List.append_assoc,
        List.append_cancel_left_eq] at h
      have hle := length_flatten_le hnul'
      have hlen := congrArg List.length h
      rw [List.length_append] at hlen
      obtain rfl : extra = [] := List.eq_nil_of_length_eq_zero (by omega)
      rw [List.append_nil] at hextra
      intro c' hc'
      rcases List.mem_cons.mp hc' with rfl | hc'
      · exact (Chunk.reply_eq_bytes_iff c').mp hextra.symm
      · exact ih hnul' h c' hc'

theorem flatten_eq_iff (cs : List Chunk) :
    (cs.map Chunk.reply).flatten = (cs.map Chunk.bytes).flatten ↔ ∀ c ∈ cs, c.Clean := by
  constructor
  · intro h
    refine clean_of_flatten_eq (fun c hc hzero => ?_) h
    have hmem : 0 ∈ (cs.map Chunk.reply).flatten := by
      rw [h]
      exact List.mem_flatten.mpr ⟨_, List.mem_map_of_mem hc, hzero⟩
    obtain ⟨data, hdata, hzero⟩ := List.mem_flatten.mp hmem
    obtain ⟨c', -, rfl⟩ := List.mem_map.mp hdata
    exact c'.zero_notMem_reply hzero
  · intro h
    rw [List.map_congr_left fun c hc => c.reply_eq_bytes_iff.mpr (h c hc)]

/-! ## Records -/

/-- Every chunk is followed by the write of its answer, and nothing else is
written. -/
inductive Paired : List Call → Prop
  | nil : Paired []
  | other {c : Call} {calls : List Call} (hc : c.isTraffic = false) (h : Paired calls) :
      Paired (c :: calls)
  | answer {fd : Int} {chunk : Chunk} {calls : List Call} (hc : chunk.bytes ≠ [])
      (h : Paired calls) : Paired (.read fd (.data chunk) :: .write fd chunk.reply :: calls)

namespace Paired

variable {calls : List Call}

theorem append {calls' : List Call} (h : Paired calls) (h' : Paired calls') :
    Paired (calls ++ calls') := by
  induction h with
  | nil => exact h'
  | other hc _ ih => exact ih.other hc
  | answer hc _ ih => exact ih.answer hc

theorem of_quiet (h : ∀ c ∈ calls, c.isTraffic = false) : Paired calls := by
  induction calls with
  | nil => exact .nil
  | cons c calls ih =>
      exact (ih fun c' hc' => h c' (List.mem_cons_of_mem c hc')).other (h c List.mem_cons_self)

/-- No call between a chunk and its answer. -/
theorem after {before after : List Call} {c : Call} (hc : c.isTraffic = false)
    (h : Paired (before ++ c :: after)) : Paired after := by
  generalize hcalls : before ++ c :: after = calls at h
  induction h generalizing before with
  | nil => cases before <;> cases hcalls
  | other _ h ih =>
      cases before with
      | nil =>
          cases hcalls
          exact h
      | cons _ before =>
          cases hcalls
          exact ih rfl
  | answer hchunk _ ih =>
      match before with
      | [] =>
          cases hcalls
          exact absurd (of_decide_eq_false hc) (not_not_intro hchunk)
      | [_] =>
          cases hcalls
          cases hc
      | _ :: _ :: before =>
          cases hcalls
          exact ih rfl

theorem session (h : Paired calls) (fd : Int) : Paired (session fd calls) := by
  have hsplit : calls.rdropWhile (· ≠ Call.accept4 fd) ++ Echo.session fd calls = calls :=
    List.rdropWhile_append_rtakeWhile
  by_cases hnil : calls.rdropWhile (· ≠ Call.accept4 fd) = []
  · rw [hnil, List.nil_append] at hsplit
    rwa [hsplit]
  · have hlast := List.rdropWhile_last_not _ _ hnil
    rw [← List.dropLast_append_getLast hnil, List.append_assoc] at hsplit
    rw [← hsplit] at h
    refine Paired.after ?_ h
    rw [of_not_not (mt decide_eq_true hlast)]
    rfl

theorem writes_eq (h : Paired calls) (fd : Int) :
    writes fd calls = (chunks fd calls).map Chunk.reply := by
  induction h with
  | nil => rfl
  | @other c calls hc _ ih =>
      have hchunk : c.chunkFrom fd = none := by
        unfold Call.chunkFrom
        split
        · exact if_neg fun h => of_decide_eq_false hc h.2
        · rfl
      have hdata : c.dataTo fd = none := by
        unfold Call.dataTo
        split
        · cases hc
        · rfl
      simp only [writes, chunks, List.filterMap_cons_none hchunk, List.filterMap_cons_none hdata]
      exact ih
  | @answer fd' chunk calls hc _ ih =>
      by_cases hfd : fd' = fd
      · subst hfd
        have hread : (Call.read fd' (.data chunk)).chunkFrom fd' = some chunk := if_pos ⟨rfl, hc⟩
        have hwrite : (Call.write fd' chunk.reply).dataTo fd' = some chunk.reply := if_pos rfl
        rw [chunks, List.filterMap_cons_some hread, List.filterMap_cons_none rfl, writes,
          List.filterMap_cons_none rfl, List.filterMap_cons_some hwrite, List.map_cons]
        exact congrArg _ ih
      · have hread : (Call.read fd' (.data chunk)).chunkFrom fd = none :=
          if_neg fun h => hfd h.1
        have hwrite : (Call.write fd' chunk.reply).dataTo fd = none := if_neg hfd
        rw [chunks, List.filterMap_cons_none hread, List.filterMap_cons_none rfl, writes,
          List.filterMap_cons_none rfl, List.filterMap_cons_none hwrite]
        exact ih

/-- A client is sent the bytes it sent exactly if its chunks are clean. -/
theorem echo_iff (h : Paired calls) (fd : Int) :
    (writes fd calls).flatten = (reads fd calls).flatten ↔
      ∀ chunk ∈ chunks fd calls, chunk.Clean := by
  rw [h.writes_eq]
  exact flatten_eq_iff _

/-- And then every `write` is of the bytes of one `read`. -/
theorem writes_eq_reads_iff (h : Paired calls) (fd : Int) :
    writes fd calls = reads fd calls ↔ ∀ chunk ∈ chunks fd calls, chunk.Clean := by
  constructor
  · intro heq
    exact (h.echo_iff fd).mp (congrArg List.flatten heq)
  · intro hclean
    rw [h.writes_eq]
    exact List.map_congr_left fun c hc => c.reply_eq_bytes_iff.mpr (hclean c hc)

end Paired

end Echo

end Muduo
