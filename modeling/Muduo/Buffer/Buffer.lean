import Muduo.Base
import Muduo.Lib.BigEndian
import Muduo.Lib.Search
import Muduo.Lib.Splice

/-!
# `Buffer`

The class of `Buffer.h`: one `std::vector<char>` and two indices that cut
it into prependable, readable and writable bytes. Pointers into the vector
are offsets from `begin()`, `size_t` arithmetic wraps at `2 ^ 64`, and a
failed `assert`, a `std::length_error` from `vector::resize` and a copy
that leaves the vector are faults.

`Endian.h` and the memory order of the host are not part of the source:
`Endian` is what the code relies on.
-/

namespace Muduo

open Lib

/-! ## Integers on the wire -/

/-- `int8_t`, `int16_t`, `int32_t`. -/
inductive IntSize where
  | int8 | int16 | int32
deriving DecidableEq, Repr

/-- `sizeof`. -/
def IntSize.bytes : IntSize → Nat
  | .int8 => 1
  | .int16 => 2
  | .int32 => 4

abbrev IntSize.bits (k : IntSize) : Nat := 8 * k.bytes

/-- `sockets::hostToNetworkN` / `networkToHostN` and the object
representation of an `n`-byte integer (what `memcpy` copies out and in):
the conversions are inverse to each other and the bytes of a converted
integer are big-endian. -/
structure Endian where
  hostToNetwork : (n : Nat) → BitVec (8 * n) → BitVec (8 * n)
  networkToHost : (n : Nat) → BitVec (8 * n) → BitVec (8 * n)
  store : (n : Nat) → BitVec (8 * n) → Bytes
  load : (n : Nat) → Bytes → BitVec (8 * n)
  load_store : ∀ n x, load n (store n x) = x
  networkToHost_hostToNetwork : ∀ n x, networkToHost n (hostToNetwork n x) = x
  store_hostToNetwork : ∀ n x, store n (hostToNetwork n x) = toBE n x.toNat

/-! ## The class -/

/-- `kCRLF`. -/
def kCRLF : Bytes := [13, 10]

/-- What can go wrong inside `Buffer`: a failed `assert` of the named
member function, `vector::resize` past `max_size()`, or a `std::copy` that
leaves the vector. -/
inductive BufferFault where
  | retrieveLen       -- len <= readableBytes()
  | untilBeforePeek   -- peek() <= end
  | untilPastWrite    -- end <= beginWrite()
  | peekIntLen        -- readableBytes() >= sizeof(intN_t)
  | prependLen        -- len <= prependableBytes()
  | notWritable       -- writableBytes() >= len
  | noFrontGap        -- kCheapPrepend < readerIndex_
  | readableChanged   -- readable == readableBytes()
  | lengthError
  | outOfRange
deriving DecidableEq, Repr

structure Buffer where
  buffer : Bytes
  readerIndex : Nat
  writerIndex : Nat
deriving DecidableEq, Repr

namespace Buffer

def kCheapPrepend : Nat := 8
def kInitialSize : Nat := 1024

/-- `std::vector<char>::max_size()`. -/
def maxSize : Nat := 2 ^ 63 - 1

/-- The constructor. -/
def new : Buffer where
  buffer := List.replicate (kCheapPrepend + kInitialSize) 0
  readerIndex := kCheapPrepend
  writerIndex := kCheapPrepend

/-- `lhs.swap(rhs)`: the new `*this` and the new `rhs`. -/
def swap (lhs rhs : Buffer) : Buffer × Buffer :=
  (⟨rhs.buffer, rhs.readerIndex, rhs.writerIndex⟩,
   ⟨lhs.buffer, lhs.readerIndex, lhs.writerIndex⟩)

def readableBytes (b : Buffer) : Nat := szSub b.writerIndex b.readerIndex

def writableBytes (b : Buffer) : Nat := szSub b.buffer.length b.writerIndex

def prependableBytes (b : Buffer) : Nat := b.readerIndex

def peek (b : Buffer) : Nat := b.readerIndex

def beginWrite (b : Buffer) : Nat := b.writerIndex

/-- The bytes `[peek(), beginWrite())`. -/
def content (b : Buffer) : Bytes := slice b.buffer b.peek b.beginWrite

/-- `findCRLF()`; `none` is `NULL`. -/
def findCRLF (b : Buffer) : Option Nat := (search kCRLF b.content).map (b.peek + ·)

def retrieveAll (b : Buffer) : Buffer :=
  { b with readerIndex := kCheapPrepend, writerIndex := kCheapPrepend }

def retrieve (b : Buffer) (len : Nat) : Except BufferFault Buffer := do
  check (len ≤ b.readableBytes) .retrieveLen
  if len < b.readableBytes then
    return { b with readerIndex := szAdd b.readerIndex len }
  else
    return b.retrieveAll

def retrieveUntil (b : Buffer) (stop : Nat) : Except BufferFault Buffer := do
  check (b.peek ≤ stop) .untilBeforePeek
  check (stop ≤ b.beginWrite) .untilPastWrite
  b.retrieve (stop - b.peek)

def retrieveInt (b : Buffer) (k : IntSize) : Except BufferFault Buffer :=
  b.retrieve k.bytes

def retrieveInt32 (b : Buffer) : Except BufferFault Buffer := b.retrieveInt .int32
def retrieveInt16 (b : Buffer) : Except BufferFault Buffer := b.retrieveInt .int16
def retrieveInt8 (b : Buffer) : Except BufferFault Buffer := b.retrieveInt .int8

/-- `string result(peek(), len)`, then `retrieve(len)`. -/
def retrieveAsString (b : Buffer) (len : Nat) : Except BufferFault (Bytes × Buffer) := do
  check (len ≤ b.readableBytes) .retrieveLen
  let result := slice b.buffer b.peek (b.peek + len)
  let b ← b.retrieve len
  return (result, b)

def retrieveAllAsString (b : Buffer) : Except BufferFault (Bytes × Buffer) :=
  b.retrieveAsString b.readableBytes

/-- `std::vector<char>::resize`: cut, or grow with zero bytes. -/
def resized (v : Bytes) (n : Nat) : Bytes := v.take n ++ List.replicate (n - v.length) 0

/-- `buffer_.resize(n)`. -/
def resize (b : Buffer) (n : Nat) : Except BufferFault Buffer := do
  check (n ≤ maxSize) .lengthError
  return { b with buffer := resized b.buffer n }

/-- `std::copy` of outside bytes to `begin() + i`. -/
def copyTo (b : Buffer) (i : Nat) (data : Bytes) : Except BufferFault Buffer := do
  check (i + data.length ≤ b.buffer.length) .outOfRange
  return { b with buffer := splice b.buffer i data }

/-- The compaction of `makeSpace`: the readable bytes moved to the front. -/
def compacted (b : Buffer) : Buffer where
  buffer := moveDown b.buffer b.readerIndex kCheapPrepend (b.writerIndex - b.readerIndex)
  readerIndex := kCheapPrepend
  writerIndex := szAdd kCheapPrepend b.readableBytes

def makeSpace (b : Buffer) (len : Nat) : Except BufferFault Buffer := do
  if szAdd b.writableBytes b.prependableBytes < szAdd len kCheapPrepend then
    b.resize (szAdd b.writerIndex len)
  else
    -- move readable data to the front, make space inside buffer
    check (kCheapPrepend < b.readerIndex) .noFrontGap
    check (b.readableBytes = b.compacted.readableBytes) .readableChanged
    return b.compacted

def ensureWritableBytes (b : Buffer) (len : Nat) : Except BufferFault Buffer := do
  let b ← if b.writableBytes < len then b.makeSpace len else pure b
  check (len ≤ b.writableBytes) .notWritable
  return b

def hasWritten (b : Buffer) (len : Nat) : Buffer :=
  { b with writerIndex := szAdd b.writerIndex len }

def append (b : Buffer) (data : Bytes) : Except BufferFault Buffer := do
  let b ← b.ensureWritableBytes data.length
  let b ← b.copyTo b.beginWrite data
  return b.hasWritten data.length

def prepend (b : Buffer) (data : Bytes) : Except BufferFault Buffer := do
  check (data.length ≤ b.prependableBytes) .prependLen
  let b := { b with readerIndex := szSub b.readerIndex data.length }
  b.copyTo b.readerIndex data

/-! ## Integer fields -/

section Ints

variable (E : Endian)

/-- The bytes `appendIntN` and `prependIntN` copy: an `int8_t` as it is,
the others after `hostToNetworkN`. -/
def wire : (k : IntSize) → BitVec k.bits → Bytes
  | .int8, x => [UInt8.ofBitVec x]
  | .int16, x => E.store 2 (E.hostToNetwork 2 x)
  | .int32, x => E.store 4 (E.hostToNetwork 4 x)

/-- The integer `peekIntN` makes of the first bytes at `peek()`. -/
def unwire : (k : IntSize) → Bytes → BitVec k.bits
  | .int8, bs => (bs.headD 0).toBitVec
  | .int16, bs => E.networkToHost 2 (E.load 2 bs)
  | .int32, bs => E.networkToHost 4 (E.load 4 bs)

def appendInt (b : Buffer) (k : IntSize) (x : BitVec k.bits) : Except BufferFault Buffer :=
  b.append (wire E k x)

def appendInt32 (b : Buffer) (x : BitVec 32) := b.appendInt E .int32 x
def appendInt16 (b : Buffer) (x : BitVec 16) := b.appendInt E .int16 x
def appendInt8 (b : Buffer) (x : BitVec 8) := b.appendInt E .int8 x

def prependInt (b : Buffer) (k : IntSize) (x : BitVec k.bits) : Except BufferFault Buffer :=
  b.prepend (wire E k x)

def prependInt32 (b : Buffer) (x : BitVec 32) := b.prependInt E .int32 x
def prependInt16 (b : Buffer) (x : BitVec 16) := b.prependInt E .int16 x
def prependInt8 (b : Buffer) (x : BitVec 8) := b.prependInt E .int8 x

def peekInt (b : Buffer) (k : IntSize) : Except BufferFault (BitVec k.bits) := do
  check (k.bytes ≤ b.readableBytes) .peekIntLen
  return unwire E k (slice b.buffer b.peek (b.peek + k.bytes))

def peekInt32 (b : Buffer) : Except BufferFault (BitVec 32) := b.peekInt E .int32
def peekInt16 (b : Buffer) : Except BufferFault (BitVec 16) := b.peekInt E .int16
def peekInt8 (b : Buffer) : Except BufferFault (BitVec 8) := b.peekInt E .int8

def readInt (b : Buffer) (k : IntSize) : Except BufferFault (BitVec k.bits × Buffer) := do
  let result ← b.peekInt E k
  let b ← b.retrieveInt k
  return (result, b)

def readInt32 (b : Buffer) : Except BufferFault (BitVec 32 × Buffer) := b.readInt E .int32
def readInt16 (b : Buffer) : Except BufferFault (BitVec 16 × Buffer) := b.readInt E .int16
def readInt8 (b : Buffer) : Except BufferFault (BitVec 8 × Buffer) := b.readInt E .int8

end Ints

end Buffer

end Muduo
