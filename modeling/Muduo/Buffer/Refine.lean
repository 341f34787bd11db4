import Muduo.Buffer.Spec
import Muduo.Lib.Lts
import Mathlib.Logic.Function.Basic

/-!
# `Buffer` refines a byte string

The abstract `Buffer` is a plain byte string: appending, prepending and
dropping, with no vector and no indices (`BufferOp.onBytes`). The callers
of a program own any number of buffers, call their member functions in any
order and swap them; `fleet` is that system over the code, and the same
calls on byte strings are a fold of `Strings.step`.

One lemma per operation (`exec_refines`) says that under the asserted
preconditions the code does not fault and does to the content what the
abstract operation does to the string; `fleet_run` carries it along runs.
-/

namespace Muduo

open Lib

/-! ## The public operations -/

inductive BufferOp where
  | append (data : Bytes)
  | appendInt (k : IntSize) (x : BitVec k.bits)
  | prepend (data : Bytes)
  | prependInt (k : IntSize) (x : BitVec k.bits)
  | retrieve (len : Nat)
  /-- `retrieveUntil(peek() + len)` -/
  | retrieveUntil (len : Nat)
  | retrieveAll
  | retrieveAsString (len : Nat)
  | retrieveAllAsString
  | peekInt (k : IntSize)
  | readInt (k : IntSize)
  | findCRLF
  | ensureWritableBytes (len : Nat)

/-- What a call returns. -/
inductive Returned where
  | void
  | string (s : Bytes)
  | int (k : IntSize) (x : BitVec k.bits)
  /-- a pointer, relative to `peek()` -/
  | pointer (p : Option Nat)

namespace BufferOp

/-- The call on the code's buffer. -/
def exec (E : Endian) (b : Buffer) : BufferOp → Except BufferFault (Returned × Buffer)
  | append data => (b.append data).map (.void, ·)
  | appendInt k x => (b.appendInt E k x).map (.void, ·)
  | prepend data => (b.prepend data).map (.void, ·)
  | prependInt k x => (b.prependInt E k x).map (.void, ·)
  | retrieve len => (b.retrieve len).map (.void, ·)
  | retrieveUntil len => (b.retrieveUntil (b.peek + len)).map (.void, ·)
  | retrieveAll => .ok (.void, b.retrieveAll)
  | retrieveAsString len => (b.retrieveAsString len).map fun r => (.string r.1, r.2)
  | retrieveAllAsString => b.retrieveAllAsString.map fun r => (.string r.1, r.2)
  | peekInt k => (b.peekInt E k).map fun x => (.int k x, b)
  | readInt k => (b.readInt E k).map fun r => (.int k r.1, r.2)
  | findCRLF => .ok (.pointer (b.findCRLF.map (· - b.peek)), b)
  | ensureWritableBytes len => (b.ensureWritableBytes len).map (.void, ·)

/-- The call on a byte string. -/
def onBytes (s : Bytes) : BufferOp → Returned × Bytes
  | append data => (.void, s ++ data)
  | appendInt k x => (.void, s ++ toBE k.bytes x.toNat)
  | prepend data => (.void, data ++ s)
  | prependInt k x => (.void, toBE k.bytes x.toNat ++ s)
  | retrieve len | retrieveUntil len => (.void, s.drop len)
  | retrieveAll => (.void, [])
  | retrieveAsString len => (.string (s.take len), s.drop len)
  | retrieveAllAsString => (.string s, [])
  | peekInt k => (.int k (BitVec.ofNat _ (ofBE (s.take k.bytes))), s)
  | readInt k => (.int k (BitVec.ofNat _ (ofBE (s.take k.bytes))), s.drop k.bytes)
  | findCRLF => (.pointer (search kCRLF s), s)
  | ensureWritableBytes _ => (.void, s)

/-- The preconditions asserted at the entry of `retrieve`, `peekIntN` and
`prepend`. -/
def Asserted (b : Buffer) : BufferOp → Prop
  | prepend data => data.length ≤ b.prependableBytes
  | prependInt k _ => k.bytes ≤ b.prependableBytes
  | retrieve len | retrieveUntil len | retrieveAsString len => len ≤ b.readableBytes
  | peekInt k | readInt k => k.bytes ≤ b.readableBytes
  | append _ | appendInt _ _ | retrieveAll | retrieveAllAsString | findCRLF
  | ensureWritableBytes _ => True

/-- The sizes the call asks for stay below `2 ^ 63`. -/
def Sized (b : Buffer) : BufferOp → Prop
  | append data => b.Fits data.length
  | appendInt k _ => b.Fits k.bytes
  | ensureWritableBytes len => b.Fits len
  | _ => True

def IsPrepend : BufferOp → Prop
  | prepend _ | prependInt _ _ => True
  | _ => False

instance (b : Buffer) (op : BufferOp) : Decidable (op.Asserted b) := by
  cases op <;> unfold Asserted <;> infer_instance

instance (b : Buffer) (op : BufferOp) : Decidable (op.Sized b) := by
  cases op <;> unfold Sized <;> infer_instance

end BufferOp

/-! ## Integers on the wire are big-endian -/

theorem pow_256 (n : Nat) : 256 ^ n = 2 ^ (8 * n) := by
  rw [Nat.pow_mul]

/-- The value of `n` bytes fits in `8 * n` bits, so it is not truncated. -/
theorem toBE_ofNat_ofBE {n : Nat} {bs : Bytes} (h : bs.length = n) :
    toBE n (BitVec.ofNat (8 * n) (ofBE bs)).toNat = bs := by
  have hlt := ofBE_lt bs
  rw [h, pow_256] at hlt
  rw [BitVec.toNat_ofNat, Nat.mod_eq_of_lt hlt, ← h, toBE_ofBE]

/-- The host the code is written for: a little-endian machine, where the
conversions reverse the bytes. -/
def Endian.little : Endian where
  hostToNetwork n x := BitVec.ofNat _ (ofBE (toBE n x.toNat).reverse)
  networkToHost n x := BitVec.ofNat _ (ofBE (toBE n x.toNat).reverse)
  store n x := (toBE n x.toNat).reverse
  load n bs := BitVec.ofNat _ (ofBE bs.reverse)
  load_store n x := by
    rw [List.reverse_reverse, ofBE_toBE, pow_256, Nat.mod_eq_of_lt x.isLt, BitVec.ofNat_toNat,
      BitVec.setWidth_eq]
  networkToHost_hostToNetwork n x := by
    rw [toBE_ofNat_ofBE (by simp), List.reverse_reverse, ofBE_toBE, pow_256,
      Nat.mod_eq_of_lt x.isLt,
      BitVec.ofNat_toNat, BitVec.setWidth_eq]
  store_hostToNetwork n x := by rw [toBE_ofNat_ofBE (by simp), List.reverse_reverse]

theorem wire_eq (E : Endian) : ∀ (k : IntSize) (x : BitVec k.bits),
    Buffer.wire E k x = toBE k.bytes x.toNat
  | .int8, x => by
      show [UInt8.ofBitVec x] = [UInt8.ofNat x.toNat]
      congr 1
      apply UInt8.toNat_inj.mp
      rw [UInt8.toNat_ofNat']
      exact (Nat.mod_eq_of_lt x.isLt).symm
  | .int16, x => E.store_hostToNetwork 2 x
  | .int32, x => E.store_hostToNetwork 4 x

/-- Loading the big-endian bytes and converting gives their value: they are
what storing that value would have written. -/
theorem networkToHost_load (E : Endian) {n : Nat} {bs : Bytes} (h : bs.length = n) :
    E.networkToHost n (E.load n bs) = BitVec.ofNat _ (ofBE bs) := by
  have hstore : E.store n (E.hostToNetwork n (BitVec.ofNat _ (ofBE bs))) = bs := by
    rw [E.store_hostToNetwork, toBE_ofNat_ofBE h]
  conv_lhs => rw [← hstore, E.load_store, E.networkToHost_hostToNetwork]

theorem unwire_eq (E : Endian) : ∀ (k : IntSize) {bs : Bytes}, bs.length = k.bytes →
    Buffer.unwire E k bs = BitVec.ofNat _ (ofBE bs)
  | .int8, bs, h => by
      obtain ⟨b, rfl⟩ := List.length_eq_one_iff.mp h
      show b.toBitVec = BitVec.ofNat 8 (0 * 256 + b.toNat)
      rw [Nat.zero_mul, Nat.zero_add]
      exact BitVec.eq_of_toNat_eq (Nat.mod_eq_of_lt b.toNat_lt).symm
  | .int16, _, h => networkToHost_load E h
  | .int32, _, h => networkToHost_load E h

/-! ## One call -/

namespace Buffer

variable {b : Buffer} {E : Endian}

theorem length_wire (k : IntSize) (x : BitVec k.bits) : (wire E k x).length = k.bytes := by
  rw [wire_eq, length_toBE]

theorem peekInt_spec (h : b.Valid) {k : IntSize} (hlen : k.bytes ≤ b.readableBytes) :
    b.peekInt E k = .ok (BitVec.ofNat _ (ofBE (b.content.take k.bytes))) := by
  have htake : (b.content.take k.bytes).length = k.bytes := by
    rw [List.length_take, length_content h]
    omega
  unfold peekInt
  rw [check_of hlen, ok_bind, take_content h hlen, unwire_eq E k htake]
  rfl

theorem readInt_spec (h : b.Valid) {k : IntSize} (hlen : k.bytes ≤ b.readableBytes) :
    ∃ b', b.readInt E k = .ok (BitVec.ofNat _ (ofBE (b.content.take k.bytes)), b') ∧
      b.DrainedTo b' (b.content.drop k.bytes) := by
  obtain ⟨b', hb', hd⟩ := retrieve_spec h hlen
  refine ⟨b', ?_, hd⟩
  unfold readInt retrieveInt
  rw [peekInt_spec h hlen, ok_bind, hb', ok_bind]
  rfl

/-- What a call must establish to refine its abstract counterpart. -/
structure Refines (b : Buffer) (op : BufferOp) (r : Returned) (b' : Buffer) : Prop where
  valid : b'.Valid
  returned : r = (op.onBytes b.content).1
  content : b'.content = (op.onBytes b.content).2
  front : ¬op.IsPrepend → kCheapPrepend ≤ b.prependableBytes →
    kCheapPrepend ≤ b'.prependableBytes

theorem DrainedTo.refines {b' : Buffer} {op : BufferOp} {r : Returned} {s : Bytes}
    (hd : b.DrainedTo b' s) (hr : r = (op.onBytes b.content).1)
    (hs : s = (op.onBytes b.content).2) : b.Refines op r b' :=
  ⟨hd.valid, hr, hd.content.trans hs, fun _ => hd.front⟩

theorem exec_refines (h : b.Valid) (op : BufferOp) (ha : op.Asserted b) (hs : op.Sized b) :
    ∃ r b', op.exec E b = .ok (r, b') ∧ b.Refines op r b' := by
  cases op with
  | append data =>
      obtain ⟨b', hb', hd⟩ := append_spec h hs
      exact ⟨_, b', by rw [BufferOp.exec, hb']; rfl, hd.refines rfl rfl⟩
  | appendInt k x =>
      have hfit : b.Fits (wire E k x).length := by rw [length_wire]; exact hs
      obtain ⟨b', hb', hd⟩ := append_spec h hfit
      refine ⟨_, b', by rw [BufferOp.exec, appendInt, hb']; rfl, hd.refines rfl ?_⟩
      rw [wire_eq]
      rfl
  | prepend data =>
      obtain ⟨b', hb', hv, hc⟩ := prepend_spec h ha
      exact ⟨_, b', by rw [BufferOp.exec, hb']; rfl, hv, rfl, hc, fun hn => absurd trivial hn⟩
  | prependInt k x =>
      have hlen : (wire E k x).length ≤ b.prependableBytes := by rw [length_wire]; exact ha
      obtain ⟨b', hb', hv, hc⟩ := prepend_spec h hlen
      refine ⟨_, b', by rw [BufferOp.exec, prependInt, hb']; rfl, hv, rfl, ?_,
        fun hn => absurd trivial hn⟩
      rw [hc, wire_eq]
      rfl
  | retrieve len =>
      obtain ⟨b', hb', hd⟩ := retrieve_spec h ha
      exact ⟨_, b', by rw [BufferOp.exec, hb']; rfl, hd.refines rfl rfl⟩
  | retrieveUntil len =>
      obtain ⟨b', hb', hd⟩ := retrieveUntil_spec h ha
      exact ⟨_, b', by rw [BufferOp.exec, hb']; rfl, hd.refines rfl rfl⟩
  | retrieveAll =>
      exact ⟨_, _, rfl, (retrieveAll_spec h).refines rfl rfl⟩
  | retrieveAsString len =>
      obtain ⟨b', hb', hd⟩ := retrieveAsString_spec h ha
      exact ⟨_, b', by rw [BufferOp.exec, hb']; rfl, hd.refines rfl rfl⟩
  | retrieveAllAsString =>
      obtain ⟨b', hb', hd⟩ := retrieveAsString_spec h (le_refl b.readableBytes)
      have hall := List.take_of_length_le (length_content h).le
      have hnone := List.drop_eq_nil_of_le (length_content h).le
      refine ⟨_, b', by rw [BufferOp.exec, retrieveAllAsString, hb']; rfl, hd.refines ?_ ?_⟩
      · rw [hall]; rfl
      · rw [hnone]; rfl
  | peekInt k =>
      exact ⟨_, b, by rw [BufferOp.exec, peekInt_spec h ha]; rfl, h, rfl, rfl, fun _ => id⟩
  | readInt k =>
      obtain ⟨b', hb', hd⟩ := readInt_spec h ha
      exact ⟨_, b', by rw [BufferOp.exec, hb']; rfl, hd.refines rfl rfl⟩
  | findCRLF =>
      refine ⟨_, b, rfl, h, ?_, rfl, fun _ => id⟩
      show Returned.pointer _ = .pointer _
      rw [findCRLF_eq, Option.map_map]
      congr 1
      refine (congrArg (Option.map · _) (funext fun n => ?_)).trans Option.map_id'
      exact Nat.add_sub_cancel_left b.peek n
  | ensureWritableBytes len =>
      obtain ⟨b', hb', hd, -⟩ := ensureWritableBytes_spec h hs
      exact ⟨_, b', by rw [BufferOp.exec, hb']; rfl, hd.refines rfl rfl⟩

end Buffer

/-! ## Runs over any number of buffers -/

/-- Call a member function of buffer `i`, or `i.swap(j)`. -/
inductive BufferCall (ι : Type) where
  | call (i : ι) (op : BufferOp)
  | swap (i j : ι)

/-- The buffers and what the calls returned so far. -/
structure Fleet (ι : Type) where
  bufs : ι → Buffer
  returned : List Returned

/-- The same over byte strings. -/
structure Strings (ι : Type) where
  strs : ι → Bytes
  returned : List Returned

section Fleet

variable {ι : Type} [DecidableEq ι]

def BufferCall.Prepends : BufferCall ι → Prop
  | call _ op => op.IsPrepend
  | swap _ _ => False

def Fleet.next (E : Endian) (s : Fleet ι) : BufferCall ι → Except BufferFault (Fleet ι)
  | .call i op => do
      let (r, b) ← op.exec E (s.bufs i)
      return ⟨Function.update s.bufs i b, s.returned ++ [r]⟩
  | .swap i j =>
      let (lhs, rhs) := (s.bufs i).swap (s.bufs j)
      return ⟨Function.update (Function.update s.bufs i lhs) j rhs, s.returned ++ [.void]⟩

def Strings.step (s : Strings ι) : BufferCall ι → Strings ι
  | .call i op =>
      let (r, str) := op.onBytes (s.strs i)
      ⟨Function.update s.strs i str, s.returned ++ [r]⟩
  | .swap i j =>
      ⟨Function.update (Function.update s.strs i (s.strs j)) j (s.strs i),
       s.returned ++ [.void]⟩

/-- The calls whose asserted preconditions and sizes are respected. -/
def Fleet.Respects (s : Fleet ι) : BufferCall ι → Prop
  | .call i op => op.Asserted (s.bufs i) ∧ op.Sized (s.bufs i)
  | .swap _ _ => True

instance (s : Fleet ι) (c : BufferCall ι) : Decidable (s.Respects c) := by
  cases c <;> unfold Fleet.Respects <;> infer_instance

/-- All buffers freshly constructed. -/
def Fleet.fresh : Fleet ι := ⟨fun _ => Buffer.new, []⟩

def Strings.empty : Strings ι := ⟨fun _ => [], []⟩

def Fleet.strings (s : Fleet ι) : Strings ι := ⟨fun i => (s.bufs i).content, s.returned⟩

def fleet (E : Endian) : Lts (Fleet ι) (BufferCall ι) BufferFault where
  init s := s = .fresh
  enabled := Fleet.Respects
  next := Fleet.next E

instance (E : Endian) (s : Fleet ι) (c : BufferCall ι) :
    Decidable ((fleet E).enabled s c) :=
  inferInstanceAs (Decidable (s.Respects c))

def Fleet.Valid (s : Fleet ι) : Prop := ∀ i, (s.bufs i).Valid

def Fleet.Front (s : Fleet ι) : Prop :=
  ∀ i, Buffer.kCheapPrepend ≤ (s.bufs i).prependableBytes

omit [DecidableEq ι] in
theorem Fleet.strings_fresh : (Fleet.fresh : Fleet ι).strings = .empty := by
  simp only [strings, fresh, Strings.empty, Buffer.content_new]

/-- The contents of an updated family of buffers. -/
theorem content_update (bufs : ι → Buffer) (i : ι) (b : Buffer) :
    (fun k => (Function.update bufs i b k).content) =
      Function.update (fun k => (bufs k).content) i b.content := by
  funext k
  rcases eq_or_ne k i with rfl | hk
  · rw [Function.update_self, Function.update_self]
  · rw [Function.update_of_ne hk, Function.update_of_ne hk]

/-- **One call.** It does not fault, keeps every buffer valid and does to the
strings what the abstract call does. -/
theorem Fleet.next_spec {E : Endian} {s : Fleet ι} (h : s.Valid) {c : BufferCall ι}
    (hc : s.Respects c) :
    ∃ s', s.next E c = .ok s' ∧ s'.Valid ∧ s'.strings = s.strings.step c ∧
      (¬c.Prepends → s.Front → s'.Front) := by
  cases c with
  | call i op =>
      obtain ⟨r, b', hb', href⟩ := Buffer.exec_refines (h i) op hc.1 hc.2
      refine ⟨_, by rw [next, hb', ok_bind]; rfl, ?_, ?_, ?_⟩
      · intro k
        rcases eq_or_ne k i with rfl | hk
        · simpa using href.valid
        · simpa [Function.update_of_ne hk] using h k
      · simp only [strings, Strings.step, content_update]
        rw [href.content, href.returned]
      · intro hp hf k
        rcases eq_or_ne k i with rfl | hk
        · simpa using href.front hp (hf k)
        · simpa [Function.update_of_ne hk] using hf k
  | swap i j =>
      have hpick : ∀ k, Function.update (Function.update s.bufs i (s.bufs j)) j (s.bufs i) k =
          s.bufs (if k = j then i else if k = i then j else k) := by
        intro k
        simp only [Function.update_apply]
        split
        · rfl
        · split <;> rfl
      refine ⟨⟨Function.update (Function.update s.bufs i (s.bufs j)) j (s.bufs i),
        s.returned ++ [.void]⟩, rfl, ?_, ?_, ?_⟩
      · intro k
        simp only [hpick]
        exact h _
      · simp only [strings, Strings.step, content_update]
      · intro _ hf k
        simp only [hpick]
        exact hf _

/-- Along a run the code's buffers stay valid and hold what the byte strings
hold, and the calls returned the same. -/
theorem fleet_run {E : Endian} {calls : List (BufferCall ι)} {s : Fleet ι}
    (hrun : (fleet E).Run .fresh calls s) :
    s.Valid ∧ s.strings = calls.foldl Strings.step .empty := by
  refine hrun.fold_rel (R := fun s t => s.Valid ∧ s.strings = t) ?_ ?_
  · rintro s t c s' ⟨hv, rfl⟩ hc hn
    obtain ⟨s₁, hs₁, hv₁, hstr, -⟩ := Fleet.next_spec hv hc
    obtain rfl := Except.ok.inj (hs₁.symm.trans hn)
    exact ⟨hv₁, hstr⟩
  · exact ⟨fun _ => Buffer.valid_new, Fleet.strings_fresh⟩

/-- Without a prepend the front gap never falls below the cheap one. -/
theorem fleet_front {E : Endian} {calls : List (BufferCall ι)} {s : Fleet ι}
    (hrun : (fleet E).Run .fresh calls s) (hp : ∀ c ∈ calls, ¬c.Prepends) : s.Front := by
  refine ((hrun.guarded_of_all hp).invariant (I := fun s => s.Valid ∧ s.Front) ?_ ?_).2
  · rintro s c s' ⟨hv, hf⟩ ⟨hc, hnp⟩ hn
    obtain ⟨s₁, hs₁, hv₁, -, hf₁⟩ := Fleet.next_spec hv hc
    obtain rfl := Except.ok.inj (hs₁.symm.trans hn)
    exact ⟨hv₁, hf₁ hnp hf⟩
  · exact ⟨fun _ => Buffer.valid_new, fun _ => le_rfl⟩

/-- **`Buffer` refines a byte string.** After any sequence of calls that
respects the asserted preconditions: the indices are ordered inside every
vector, no such call faults next (so no internal assertion of `makeSpace`
or `ensureWritableBytes` can fail), contents and returned values are those
of the same calls on byte strings, and without a prepend the front gap is
at least `kCheapPrepend`. -/
theorem buffer_refines_byteString (E : Endian) {calls : List (BufferCall ι)} {s : Fleet ι}
    (hrun : (fleet E).Run .fresh calls s) :
    (∀ i, (s.bufs i).readerIndex ≤ (s.bufs i).writerIndex ∧
      (s.bufs i).writerIndex ≤ (s.bufs i).buffer.length) ∧
    (∀ c, s.Respects c → ∃ s', s.next E c = .ok s') ∧
    (∀ i, (s.bufs i).content = (calls.foldl Strings.step .empty).strs i) ∧
    s.returned = (calls.foldl Strings.step .empty).returned ∧
    ((∀ c ∈ calls, ¬c.Prepends) →
      ∀ i, Buffer.kCheapPrepend ≤ (s.bufs i).prependableBytes) := by
  obtain ⟨hv, hstr⟩ := fleet_run hrun
  refine ⟨fun i => ⟨(hv i).reader_le, (hv i).writer_le⟩, ?_, ?_, ?_, fleet_front hrun⟩
  · intro c hc
    obtain ⟨s', hs', -⟩ := Fleet.next_spec (E := E) hv hc
    exact ⟨s', hs'⟩
  · intro i
    rw [← hstr]
    rfl
  · rw [← hstr]
    rfl

end Fleet

/-- Three calls on one buffer, then its content moves to another. -/
theorem buffer_refines_byteString_swapped :
    ∃ s, (fleet Endian.little).Run (.fresh : Fleet Nat)
        [.call 0 (.append [1, 2, 3]), .call 0 (.readInt .int8), .call 0 (.prepend [9]),
          .swap 0 1] s ∧
      (s.bufs 1).content = [9, 2, 3] := by
  obtain ⟨s, hs, -⟩ := Option.map_eq_some_iff.mp
    (show ((fleet Endian.little).exec (.fresh : Fleet Nat)
        [.call 0 (.append [1, 2, 3]), .call 0 (.readInt .int8), .call 0 (.prepend [9]),
          .swap 0 1]).map (fun _ => ()) = some () by decide +kernel)
  have hrun := Lts.run_of_exec hs
  exact ⟨s, hrun, (buffer_refines_byteString Endian.little hrun).2.2.1 1⟩

end Muduo
