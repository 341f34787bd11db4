import Muduo.Buffer.Spec
import Muduo.Http.Request
import Muduo.Lib.Loop

/-!
# `processRequestLine` and `parseRequest`

The parser of `HttpServer.cc` as it runs: a loop over the input buffer
whose body is one branch per parser state. Of the buffer it uses
`findCRLF`, the bytes up to the CRLF found and `retrieveUntil`, so it is
written over any representation with those (`InputBuffer`): a plain byte
string, and the code's own `Buffer` (`instInputBufferBuffer`).

The loop has no exit in the states `kExpectBody`, whose branch is empty,
and `kGotAll`, which has none. `parseRequest_diverges` says so; on the
other two states the loop is total (`parseRequest_run`).
-/

namespace Muduo

open Lib

/-! ## The input buffer -/

/-- What the parser uses of its `Buffer*`. -/
class InputBuffer (β : Type) where
  readable : β → Bytes
  retrieve : β → Nat → β
  readable_retrieve : ∀ (b : β) {n : Nat}, n ≤ (readable b).length →
    readable (retrieve b n) = (readable b).drop n

namespace InputBuffer

instance : InputBuffer Bytes where
  readable s := s
  retrieve s n := s.drop n
  readable_retrieve _ _ _ := rfl

/-- The code's buffer, with its invariant. A retrieve that would fail its
assertion leaves it alone. -/
instance instInputBufferBuffer : InputBuffer { b : Buffer // b.Valid } where
  readable b := b.1.content
  retrieve b n :=
    if h : n ≤ b.1.readableBytes then
      match hr : b.1.retrieve n with
      | .ok b' => ⟨b', by
          obtain ⟨b₁, hb₁, hd⟩ := Buffer.retrieve_spec b.2 h
          obtain rfl := Except.ok.inj (hb₁.symm.trans hr)
          exact hd.valid⟩
      | .error _ => b
    else b
  readable_retrieve b n hn := by
    have hlen : n ≤ b.1.readableBytes := by rwa [Buffer.length_content b.2] at hn
    obtain ⟨b₁, hb₁, hd⟩ := Buffer.retrieve_spec b.2 hlen
    rw [dif_pos hlen]
    split
    · rename_i b' hr
      obtain rfl := Except.ok.inj (hb₁.symm.trans hr)
      exact hd.content
    · rename_i e hr
      rw [hb₁] at hr
      cases hr

variable {β : Type} [InputBuffer β]

/-- `buf->findCRLF()`, relative to `buf->peek()`. -/
def findCRLF (b : β) : Option Nat := search kCRLF (readable b)

theorem kCRLF_ne : kCRLF ≠ [] := by decide

/-- `buf->retrieveUntil(crlf + 2)` consumes the line found and its CRLF. -/
theorem readable_retrieveUntil {b : β} {crlf : Nat} (h : findCRLF b = some crlf) :
    readable (retrieve b (crlf + 2)) = (readable b).drop (crlf + 2) :=
  readable_retrieve b (search_le h kCRLF_ne)

end InputBuffer

open InputBuffer

/-! ## The request line -/

/-- The bytes after the second space, `[start, end)`. -/
def processVersion (request : HttpRequest) (start : Bytes) : Bool × HttpRequest :=
  if start.length = 8 ∧ start.take 7 = str "HTTP/1." then
    if start[7]? = some 49 then (true, request.setVersion .kHttp11)
    else if start[7]? = some 48 then (true, request.setVersion .kHttp10)
    else (false, request)
  else (false, request)

/-- The bytes after the first space, once the method is set. -/
def processTarget (request : HttpRequest) (start : Bytes) : Bool × HttpRequest :=
  let space := start.idxOf 32
  if space ≠ start.length then
    processVersion (request.setPath (start.take space)) (start.drop (space + 1))
  else (false, request)

/-- On the bytes `[begin, end)` of the line. -/
def processRequestLine (line : Bytes) (context : HttpContext) :
    Except HttpFault (Bool × HttpContext) := do
  let space := line.idxOf 32
  if space ≠ line.length then
    let (known, request) ← context.request.setMethod (line.take space)
    if known then
      let (succeed, request) := processTarget request (line.drop (space + 1))
      return (succeed, { context with request := request })
    else return (false, { context with request := request })
  else return (false, context)

/-! ## The loop -/

/-- The local variables of `parseRequest`, with the two objects it works on. -/
structure ParseState (β : Type) where
  ok : Bool
  hasMore : Bool
  buf : β
  context : HttpContext

variable {β : Type} [InputBuffer β]

/-- The body of `while (hasMore)`. -/
def parseBody (receiveTime : Timestamp) (s : ParseState β) : Except HttpFault (ParseState β) :=
  if s.context.expectRequestLine then
    match findCRLF s.buf with
    | some crlf => do
        let (ok, context) ← processRequestLine ((readable s.buf).take crlf) s.context
        if ok then
          let context := { context with request := context.request.setReceiveTime receiveTime }
          return { s with
            ok := ok
            buf := retrieve s.buf (crlf + 2)
            context := context.receiveRequestLine }
        else
          return { s with ok := ok, hasMore := false, context := context }
    | none => return { s with hasMore := false }
  else if s.context.expectHeaders then
    match findCRLF s.buf with
    | some crlf =>
        let line := (readable s.buf).take crlf
        let colon := line.idxOf 58
        if colon ≠ line.length then
          let request := s.context.request.addHeader line colon
          return { s with
            buf := retrieve s.buf (crlf + 2)
            context := { s.context with request := request } }
        else
          -- empty line, end of header
          let context := s.context.receiveHeaders
          return { s with
            hasMore := !context.gotAll
            buf := retrieve s.buf (crlf + 2)
            context := context }
    | none => return { s with hasMore := false }
  else if s.context.expectBody then
    -- FIXME
    return s
  else
    return s

/-- What a call leaves behind. -/
structure Parsed (β : Type) where
  ok : Bool
  context : HttpContext
  buf : β
deriving DecidableEq

/-- The fuel is enough wherever the loop ends at all (`parseRequest_run`,
`parseRequest_diverges`). -/
def parseRequest (buf : β) (context : HttpContext) (receiveTime : Timestamp) :
    Except HttpFault (Parsed β) :=
  match whileFuel ParseState.hasMore (parseBody receiveTime) ((readable buf).length + 2)
      ⟨true, true, buf, context⟩ with
  | some (.ok s) => .ok ⟨s.ok, s.context, s.buf⟩
  | some (.error e) => .error e
  | none => .error .diverges

end Muduo
