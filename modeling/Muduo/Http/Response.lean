import Muduo.Buffer.Piece
import Muduo.Http.Request

/-!
# `HttpResponse`

The response a callback fills in, and what `appendToBuffer` appends of it to
a `Buffer`, string by string. The two lines with a number go through a
`char buf[32]`, and every string through the `int` of a `StringPiece`. As
long as none of them is too long for that (`Short`), they make up the `text`
of the response.
-/

namespace Muduo

open Lib

inductive HttpStatusCode where
  | kUnknown | k200Ok | k301MovedPermanently | k400BadRequest | k404NotFound
deriving DecidableEq, Repr

def HttpStatusCode.value : HttpStatusCode → Nat
  | .kUnknown => 0
  | .k200Ok => 200
  | .k301MovedPermanently => 301
  | .k400BadRequest => 400
  | .k404NotFound => 404

structure HttpResponse where
  headers : HeaderMap
  statusCode : HttpStatusCode
  statusMessage : Bytes
  closeConnection : Bool
  body : Bytes
deriving DecidableEq

namespace HttpResponse

def new (close : Bool) : HttpResponse := ⟨∅, .kUnknown, [], close, []⟩

def setStatusCode (r : HttpResponse) (code : HttpStatusCode) : HttpResponse :=
  { r with statusCode := code }

def setStatusMessage (r : HttpResponse) (message : Bytes) : HttpResponse :=
  { r with statusMessage := message }

def setCloseConnection (r : HttpResponse) (on : Bool) : HttpResponse :=
  { r with closeConnection := on }

/-- `headers_[key] = value` -/
def addHeader (r : HttpResponse) (key value : Bytes) : HttpResponse :=
  { r with headers := r.headers.insert key value }

def setContentType (r : HttpResponse) (contentType : Bytes) : HttpResponse :=
  r.addHeader (str "Content-Type") contentType

def setBody (r : HttpResponse) (body : Bytes) : HttpResponse := { r with body := body }

/-- `%d` and `%zd`, of a number that is not negative. -/
def decimal (n : Nat) : Bytes := (Nat.toDigits 10 n).map Char.toUInt8

/-- What `snprintf(buf, sizeof buf, …)` leaves in a `char buf[32]`. -/
def snprintf32 (s : Bytes) : Bytes := s.take 31

def crlf : Bytes := [13, 10]

def headerLine (h : Bytes × Bytes) : Bytes := h.1 ++ str ": " ++ h.2 ++ crlf

/-- `appendToBuffer(output)` -/
def appendToBuffer (r : HttpResponse) (output : CheckedBuffer) :
    Except BufferFault CheckedBuffer := do
  let output ← output.appendString
    (snprintf32 (str "HTTP/1.1 " ++ decimal r.statusCode.value ++ str " "))
  let output ← output.appendString r.statusMessage
  let output ← output.appendString crlf
  let output ←
    if r.closeConnection then output.appendString (str "Connection: close" ++ crlf)
    else do
      let output ← output.appendString
        (snprintf32 (str "Content-Length: " ++ decimal r.body.length ++ crlf))
      output.appendString (str "Connection: Keep-Alive" ++ crlf)
  let output ← r.headers.toList.foldlM (fun output h => do
    let output ← output.appendString h.1
    let output ← output.appendString (str ": ")
    let output ← output.appendString h.2
    output.appendString crlf) output
  let output ← output.appendString crlf
  output.appendString r.body

/-! ## The strings and the text -/

/-- The arguments of `output->append(…)` in `appendToBuffer`, in order. -/
def pieces (r : HttpResponse) : List Bytes :=
  [snprintf32 (str "HTTP/1.1 " ++ decimal r.statusCode.value ++ str " "), r.statusMessage, crlf] ++
  (if r.closeConnection then [str "Connection: close" ++ crlf]
    else [snprintf32 (str "Content-Length: " ++ decimal r.body.length ++ crlf),
      str "Connection: Keep-Alive" ++ crlf]) ++
  r.headers.toList.flatMap (fun h => [h.1, str ": ", h.2, crlf]) ++ [crlf, r.body]

/-- All of it one after the other: what is in the buffer, if every string has
a length that is an `int`. -/
def text (r : HttpResponse) : Bytes := r.pieces.flatten

/-- No string is too long for a `StringPiece`. -/
def Short (r : HttpResponse) : Prop := ∀ p ∈ r.pieces, p.length < 2 ^ 31

instance (r : HttpResponse) : Decidable r.Short := inferInstanceAs (Decidable (∀ p ∈ _, _))

variable {r : HttpResponse}

theorem appendToBuffer_pieces (r : HttpResponse) (output : CheckedBuffer) :
    r.appendToBuffer output = r.pieces.foldlM CheckedBuffer.appendString output := by
  have hheaders : ∀ (hs : List (Bytes × Bytes)) (output : CheckedBuffer),
      (hs.flatMap fun h => [h.1, str ": ", h.2, crlf]).foldlM CheckedBuffer.appendString output =
        hs.foldlM (fun output h => do
          let output ← output.appendString h.1
          let output ← output.appendString (str ": ")
          let output ← output.appendString h.2
          output.appendString crlf) output := by
    intro hs
    induction hs with
    | nil => exact fun _ => rfl
    | cons h hs ih =>
        intro output
        simp only [List.flatMap_cons, List.cons_append, List.nil_append, List.foldlM_cons, ih,
          bind_assoc]
  simp only [appendToBuffer, pieces, List.foldlM_append, hheaders]
  cases r.closeConnection <;>
    simp only [Bool.false_eq_true, if_true, if_false, List.foldlM_cons, List.foldlM_nil,
      bind_assoc, bind_pure]

theorem statusMessage_mem (r : HttpResponse) : r.statusMessage ∈ r.pieces := by
  simp [pieces]

theorem header_mem {h : Bytes × Bytes} (hh : h ∈ r.headers.toList) :
    h.1 ∈ r.pieces ∧ h.2 ∈ r.pieces := by
  have hline : ∀ p ∈ [h.1, str ": ", h.2, crlf], p ∈ r.pieces := fun p hp =>
    List.mem_append_left _ (List.mem_append_right _ (List.mem_flatMap.mpr ⟨h, hh, hp⟩))
  exact ⟨hline _ (by simp), hline _ (by simp)⟩

theorem body_mem (r : HttpResponse) : r.body ∈ r.pieces :=
  List.mem_append_right _ (by simp)

/-- The strings that do not come from the callback are short. -/
theorem short_of (hmessage : r.statusMessage.length < 2 ^ 31)
    (hheaders : ∀ h ∈ r.headers.toList, h.1.length < 2 ^ 31 ∧ h.2.length < 2 ^ 31)
    (hbody : r.body.length < 2 ^ 31) : r.Short := by
  have hline (s : Bytes) : (snprintf32 s).length < 2 ^ 31 :=
    (List.length_take_le 31 s).trans_lt (by decide)
  have hconn : ∀ p ∈ (if r.closeConnection then [str "Connection: close" ++ crlf]
      else [snprintf32 (str "Content-Length: " ++ decimal r.body.length ++ crlf),
        str "Connection: Keep-Alive" ++ crlf]), p.length < 2 ^ 31 := by
    cases r.closeConnection with
    | true => exact List.forall_mem_singleton.mpr (by decide)
    | false => exact List.forall_mem_cons.mpr ⟨hline _, List.forall_mem_singleton.mpr (by decide)⟩
  intro p hp
  rcases List.mem_append.mp hp with hp | hp
  · rcases List.mem_append.mp hp with hp | hp
    · rcases List.mem_append.mp hp with hp | hp
      · obtain rfl | rfl | rfl := by simpa only [List.mem_cons, List.not_mem_nil, or_false] using hp
        · exact hline _
        · exact hmessage
        · decide
      · exact hconn p hp
    · obtain ⟨h, hh, hp⟩ := List.mem_flatMap.mp hp
      obtain rfl | rfl | rfl | rfl := by
        simpa only [List.mem_cons, List.not_mem_nil, or_false] using hp
      · exact (hheaders h hh).1
      · decide
      · exact (hheaders h hh).2
      · decide
  · obtain rfl | rfl := by simpa only [List.mem_cons, List.not_mem_nil, or_false] using hp
    · decide
    · exact hbody

end HttpResponse

end Muduo
