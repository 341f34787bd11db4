import Muduo.Http.Fragment

/-!
# Well-formed requests

A body-less request as its sender writes it, with what makes it well formed
as fields: a supported method, a path without spaces, a version, and header
lines with a name and a value; none of it holds a CR. `run_render` is the
round trip: from a fresh context the parser reads the request back from its
text, up to the last byte of it and no further.
-/

namespace Muduo

open Lib HttpRequest

structure RequestText where
  method : Bytes
  path : Bytes
  minor : UInt8
  version : Version
  /-- Names and values, the latter with the blanks around them. -/
  headers : List (Bytes × Bytes)
  method_known : methodOf method ≠ .kInvalid
  path_plain : 32 ∉ path ∧ 13 ∉ path
  version_known : VersionByte minor version
  headers_plain : ∀ h ∈ headers, 58 ∉ h.1 ∧ 13 ∉ h.1 ∧ 13 ∉ h.2

namespace RequestText

def target (r : RequestText) : Bytes := r.path ++ 32 :: (str "HTTP/1." ++ [r.minor])

def requestLine (r : RequestText) : Bytes := r.method ++ 32 :: r.target

def fieldLine (h : Bytes × Bytes) : Bytes := h.1 ++ 58 :: h.2

/-- Header lines and the blank line that ends them. -/
def renderHeaders : List (Bytes × Bytes) → Bytes
  | [] => kCRLF
  | h :: hs => fieldLine h ++ (kCRLF ++ renderHeaders hs)

def render (r : RequestText) : Bytes := r.requestLine ++ (kCRLF ++ renderHeaders r.headers)

/-- What `isspace` takes away on both sides. -/
def trim (value : Bytes) : Bytes := (value.dropWhile isspace).rdropWhile isspace

def headerMap (m : HeaderMap) (headers : List (Bytes × Bytes)) : HeaderMap :=
  headers.foldl (fun m h => m.insert h.1 (trim h.2)) m

/-- The request a text stands for; it has no receive time. -/
def toRequest (r : RequestText) : HttpRequest where
  method := methodOf r.method
  version := r.version
  path := r.path
  receiveTime := .invalid
  headers := headerMap ∅ r.headers

theorem render_pos (r : RequestText) : 0 < r.render.length := by
  rw [render, requestLine, List.append_assoc, List.length_append, List.cons_append,
    List.length_cons]
  omega

/-! ## Reading a request back -/

/-- A context in which nothing has been read yet; `version` is the one field
`reset` leaves behind. -/
structure Fresh (c : HttpContext) : Prop where
  state : c.state = .kExpectRequestLine
  method : c.request.method = .kInvalid
  headers : c.request.headers = ∅

theorem requestLine_plain (r : RequestText) : 13 ∉ r.requestLine := by
  have hm := (methodOf_plain r.method_known).2.1
  have hp := r.path_plain.2
  have hv : 13 ∉ str "HTTP/1." ++ [r.minor] := by
    have h : ∀ {d v}, VersionByte d v → 13 ∉ str "HTTP/1." ++ [d] := fun hd => by
      cases hd <;> decide
    exact h r.version_known
  simp only [requestLine, target, List.mem_append, List.mem_cons, not_or] at hv ⊢
  exact ⟨hm, by decide, hp, by decide, hv⟩

theorem onLine_render {c : HttpContext} (hc : Fresh c) (r : RequestText) :
    onLine .invalid c r.requestLine =
      .ok (.next ⟨.kExpectHeaders, { r.toRequest with headers := ∅ }⟩) := by
  have htarget : IsTarget r.target r.path r.version :=
    ⟨r.minor, rfl, r.path_plain.1, r.version_known⟩
  have hnamed : NamesMethod r.requestLine r.method r.target := ⟨rfl, r.method_known⟩
  rw [onLine_requestLine hc.state, processRequestLine_named hc.method hnamed,
    processTarget_eq _ htarget, ← hc.headers]
  rfl

/-- The header lines, read into a map that may hold some already. -/
theorem run_renderHeaders (headers : List (Bytes × Bytes)) (rest : Bytes) (q : HttpRequest)
    (h : ∀ h ∈ headers, 58 ∉ h.1 ∧ 13 ∉ h.1 ∧ 13 ∉ h.2) :
    (parser .invalid).run ⟨.kExpectHeaders, q⟩ (renderHeaders headers ++ rest) =
      .ok (.done, ⟨.kGotAll, { q with headers := headerMap q.headers headers }⟩, rest) := by
  induction headers generalizing q with
  | nil =>
      have hs : search kCRLF (kCRLF ++ rest) = some 0 := search_after rest List.not_mem_nil
      have hl : onLine .invalid ⟨.kExpectHeaders, q⟩ ((kCRLF ++ rest).take 0) =
          .ok (.done ⟨.kGotAll, q⟩) := rfl
      exact LineMachine.run_done (M := parser .invalid) hs hl
  | cons x headers ih =>
      obtain ⟨hcolon, hname, hvalue⟩ := h x (List.mem_cons_self ..)
      have hplain : 13 ∉ fieldLine x := by
        simp only [fieldLine, List.mem_append, List.mem_cons, not_or]
        exact ⟨hname, by decide, hvalue⟩
      have hs : search kCRLF (fieldLine x ++ (kCRLF ++ (renderHeaders headers ++ rest))) =
          some (fieldLine x).length := search_after _ hplain
      have hl : onLine .invalid ⟨.kExpectHeaders, q⟩ (fieldLine x) =
          .ok (.next ⟨.kExpectHeaders,
            { q with headers := q.headers.insert x.1 (trim x.2) }⟩) := by
        have hne : x.1.length ≠ (fieldLine x).length := by
          rw [fieldLine, List.length_append, List.length_cons]
          omega
        rw [onLine_headers rfl]
        simp only [fieldLine, idxOf_append_cons hcolon] at hne ⊢
        rw [if_pos hne]
        simp only [addHeader, take_cut, drop_cut, trim]
      rw [renderHeaders, List.append_assoc, List.append_assoc]
      refine (LineMachine.run_line (M := parser .invalid)
        (s := ⟨.kExpectHeaders, q⟩) hs hl).trans ?_
      exact ih _ fun y hy => h y (List.mem_cons_of_mem _ hy)

/-- **A request is read back from its text**, and nothing after it is
touched. -/
theorem run_render {c : HttpContext} (hc : Fresh c) (r : RequestText) (rest : Bytes) :
    (parser .invalid).run c (r.render ++ rest) =
      .ok (.done, ⟨.kGotAll, r.toRequest⟩, rest) := by
  have hs : search kCRLF (r.requestLine ++ (kCRLF ++ (renderHeaders r.headers ++ rest))) =
      some r.requestLine.length := search_after _ r.requestLine_plain
  rw [render, List.append_assoc, List.append_assoc]
  refine (LineMachine.run_line (M := parser .invalid) hs (onLine_render hc r)).trans ?_
  exact run_renderHeaders r.headers rest _ r.headers_plain

/-- Before its last byte a request is waited for. -/
theorem run_part {c : HttpContext} (hc : Fresh c) {r : RequestText} {part more : Bytes}
    (h : r.render = part ++ more) (hmore : more ≠ []) :
    ∃ c' rest, (parser .invalid).run c part = .ok (.waiting, c', rest) := by
  have hrun := run_render hc r []
  rw [List.append_nil, h] at hrun
  exact LineMachine.run_before_done hrun hmore

end RequestText

end Muduo
