import Muduo.Http.Reentry
import Muduo.Http.RequestText

/-!
# What the parser takes for a request

The language of `parseRequest`, as a grammar over byte strings: a request
line, header lines with a colon, and a first line without one, each up to
the first CRLF (`IsRequest`). From a context in which nothing has been read
yet the parser is done exactly when the bytes start with such a text, and it
consumes that text and no more (`run_done_iff`); what it reads does not
depend on what was left in the context (`run_fresh_congr`).

A first line that is no request line is a dead end: whatever the context, it
is never consumed (`DeadEnd`).
-/

namespace Muduo

open Lib HttpRequest

/-! ## The grammar -/

/-- `method SP path SP HTTP/1.d` -/
def IsRequestLine (line : Bytes) : Prop :=
  ∃ m rest path v, NamesMethod line m rest ∧ IsTarget rest path v

/-- Header lines, and the line without a colon that ends them. -/
inductive IsHeaders : Bytes → Prop where
  | last {line : Bytes} : search kCRLF line = none → 58 ∉ line → IsHeaders (line ++ kCRLF)
  | field {line s : Bytes} : search kCRLF line = none → 58 ∈ line → IsHeaders s →
      IsHeaders (line ++ (kCRLF ++ s))

inductive IsRequest : Bytes → Prop where
  | mk {line s : Bytes} : search kCRLF line = none → IsRequestLine line → IsHeaders s →
      IsRequest (line ++ (kCRLF ++ s))

/-- The bytes start with a complete request. -/
def StartsRequest (bytes : Bytes) : Prop := ∃ w rest, bytes = w ++ rest ∧ IsRequest w

variable {t : Timestamp} {c c' : HttpContext} {line buf rest : Bytes}

theorem search_line (r : Bytes) (h : search kCRLF line = none) :
    search kCRLF (line ++ (kCRLF ++ r)) = some line.length :=
  search_after_none r (by decide) h

/-! ## The request line -/

/-- With the method unset, request lines are what is accepted. -/
theorem processRequestLine_true_iff (hc : c.request.method = .kInvalid) :
    (∃ c', processRequestLine line c = .ok (true, c')) ↔ IsRequestLine line := by
  constructor
  · rintro ⟨c', h⟩
    by_cases hn : ∃ m rest, NamesMethod line m rest
    · obtain ⟨m, rest, hm⟩ := hn
      rw [processRequestLine_named hc hm] at h
      obtain ⟨htrue, -⟩ := Prod.mk.inj (Except.ok.inj h)
      obtain ⟨path, v, hv⟩ := processTarget_true_iff.mp htrue
      exact ⟨m, rest, path, v, hm, hv⟩
    · rw [processRequestLine_unnamed hc fun m rest hm => hn ⟨m, rest, hm⟩] at h
      cases h
  · rintro ⟨m, rest, path, v, hm, hv⟩
    exact ⟨_, by rw [processRequestLine_named hc hm, processTarget_eq _ hv]⟩

/-- No other line is accepted in any context: the assertion fails or the
line is rejected. -/
theorem processRequestLine_not_true (h : ¬IsRequestLine line) :
    processRequestLine line c ≠ .ok (true, c') := by
  intro heq
  have hc : c.request.method = .kInvalid := by
    by_contra hne
    by_cases hsp : line.idxOf 32 = line.length
    · simp only [processRequestLine, hsp, ne_eq, not_true_eq_false, if_false] at heq
      cases heq
    · simp only [processRequestLine, ne_eq, hsp, not_false_eq_true, if_true, setMethod,
        check_not hne] at heq
      cases heq
  exact h ((processRequestLine_true_iff hc).mp ⟨c', heq⟩)

/-- `m SP p SP HTTP/1.d`, with its parts. -/
structure RequestLine (line m p : Bytes) (d : UInt8) : Prop where
  line_eq : line = m ++ 32 :: (p ++ (str " HTTP/1." ++ [d]))
  method : m ∈ [str "GET", str "POST", str "HEAD", str "PUT", str "DELETE"]
  path : 32 ∉ p
  minor : d = 48 ∨ d = 49

/-- The version a minor version digit stands for. -/
def versionOf (d : UInt8) : Version :=
  if d = 49 then .kHttp11 else if d = 48 then .kHttp10 else .kUnknown

theorem versionByte_iff {d : UInt8} {v : Version} :
    VersionByte d v ↔ (d = 48 ∨ d = 49) ∧ v = versionOf d := by
  constructor
  · intro h
    cases h with
    | http10 => exact ⟨Or.inl rfl, rfl⟩
    | http11 => exact ⟨Or.inr rfl, rfl⟩
  · rintro ⟨rfl | rfl, rfl⟩
    · exact .http10
    · exact .http11

theorem methodOf_ne_iff {m : Bytes} : methodOf m ≠ .kInvalid ↔
    m ∈ [str "GET", str "POST", str "HEAD", str "PUT", str "DELETE"] := by
  simp only [List.mem_cons, List.not_mem_nil, or_false]
  constructor
  · exact methodOf_cases
  · rintro (rfl | rfl | rfl | rfl | rfl) <;> decide

/-- A supported method is named by the string it was read from. -/
theorem methodString_methodOf {r : HttpRequest} {m : Bytes} (hr : r.method = methodOf m)
    (hm : methodOf m ≠ .kInvalid) : r.methodString = m := by
  unfold methodString
  rw [hr]
  rcases methodOf_cases hm with rfl | rfl | rfl | rfl | rfl <;> rfl

/-- The parts of a request line are those the parser cuts it into. -/
theorem requestLine_iff {m p : Bytes} {d : UInt8} : RequestLine line m p d ↔
    ∃ rest, NamesMethod line m rest ∧ IsTarget rest p (versionOf d) ∧
      rest = p ++ 32 :: (str "HTTP/1." ++ [d]) ∧ (d = 48 ∨ d = 49) := by
  constructor
  · rintro ⟨hline, hm, hp, hd⟩
    have htarget : IsTarget (p ++ 32 :: (str "HTTP/1." ++ [d])) p (versionOf d) :=
      ⟨d, rfl, hp, versionByte_iff.mpr ⟨hd, rfl⟩⟩
    exact ⟨_, ⟨hline, methodOf_ne_iff.mpr hm⟩, htarget, rfl, hd⟩
  · rintro ⟨rest, ⟨hline, hm⟩, ⟨-, -, hp, -⟩, rfl, hd⟩
    exact ⟨hline, methodOf_ne_iff.mp hm, hp, hd⟩

/-- A line is a request line in one way at most. -/
theorem RequestLine.unique {m p m' p' : Bytes} {d d' : UInt8} (h : RequestLine line m p d)
    (h' : RequestLine line m' p' d') : m = m' ∧ p = p' ∧ d = d' := by
  obtain ⟨rest, hn, ⟨-, -, hp, -⟩, hrest, -⟩ := requestLine_iff.mp h
  obtain ⟨rest', hn', ⟨-, -, hp', -⟩, hrest', -⟩ := requestLine_iff.mp h'
  obtain ⟨rfl, rfl⟩ := hn.unique hn'
  have heq : p ++ 32 :: (str "HTTP/1." ++ [d]) = p' ++ 32 :: (str "HTTP/1." ++ [d']) :=
    hrest.symm.trans hrest'
  have hlen : p.length = p'.length := by
    rw [← idxOf_append_cons hp, heq, idxOf_append_cons hp']
  obtain ⟨rfl, htail⟩ := List.append_inj heq hlen
  have hd : [d] = [d'] := List.append_cancel_left (List.cons.inj htail).2
  exact ⟨rfl, rfl, (List.cons.inj hd).1⟩

theorem isRequestLine_iff : IsRequestLine line ↔ ∃ m p d, RequestLine line m p d := by
  constructor
  · rintro ⟨m, rest, p, v, hn, d, rfl, hp, hd⟩
    obtain ⟨hminor, rfl⟩ := versionByte_iff.mp hd
    have htarget : IsTarget (p ++ 32 :: (str "HTTP/1." ++ [d])) p (versionOf d) := ⟨d, rfl, hp, hd⟩
    exact ⟨m, p, d, requestLine_iff.mpr ⟨_, hn, htarget, rfl, hminor⟩⟩
  · rintro ⟨m, p, d, h⟩
    obtain ⟨rest, hn, htarget, -, -⟩ := requestLine_iff.mp h
    exact ⟨m, rest, p, versionOf d, hn, htarget⟩

/-- **The request-line parser accepts its grammar and nothing else.** It
returns on every line; it returns true exactly on the lines `m SP p SP
HTTP/1.d`, which decompose in one way, and the request then holds the parts. -/
theorem processRequestLine_grammar (line : Bytes) (hc : c.request.method = .kInvalid) :
    ∃ ok c', processRequestLine line c = .ok (ok, c') ∧
      (ok = true ↔ ∃ m p d, RequestLine line m p d) ∧
      (∀ m p d, RequestLine line m p d → c'.request.methodString = m ∧
        c'.request.path = p ∧ c'.request.version = versionOf d) ∧
      (∀ m p d m' p' d', RequestLine line m p d → RequestLine line m' p' d' →
        m = m' ∧ p = p' ∧ d = d') := by
  obtain ⟨⟨ok, c'⟩, hr⟩ := processRequestLine_ok hc line
  refine ⟨ok, c', hr, ?_, ?_, fun m p d m' p' d' h h' => h.unique h'⟩
  · rw [← isRequestLine_iff, ← processRequestLine_true_iff hc, hr]
    constructor
    · rintro rfl
      exact ⟨c', rfl⟩
    · rintro ⟨c₁, heq⟩
      cases heq
      rfl
  · intro m p d h
    obtain ⟨rest, hn, htarget, -, -⟩ := requestLine_iff.mp h
    rw [processRequestLine_named hc hn, processTarget_eq _ htarget] at hr
    cases hr
    exact ⟨methodString_methodOf rfl hn.2, rfl, rfl⟩

/-- On the line `GET /a HTTP/1.0`, from a new context. -/
theorem processRequestLine_grammar_get : ∃ ok c',
    processRequestLine (str "GET /a HTTP/1.0") .new = .ok (ok, c') ∧ ok = true ∧
      c'.request.methodString = str "GET" ∧ c'.request.path = str "/a" ∧
      c'.request.version = .kHttp10 := by
  have hline : RequestLine (str "GET /a HTTP/1.0") (str "GET") (str "/a") 48 :=
    ⟨by decide, by decide, by decide, Or.inl rfl⟩
  obtain ⟨ok, c', hr, htrue, hparts, -⟩ :=
    processRequestLine_grammar (c := .new) (str "GET /a HTTP/1.0") rfl
  exact ⟨ok, c', hr, htrue.mpr ⟨_, _, _, hline⟩, hparts _ _ _ hline⟩

theorem onLine_request (hs : c.state = .kExpectRequestLine) (hm : c.request.method = .kInvalid)
    (h : IsRequestLine line) : ∃ d, onLine t c line = .ok (.next d) := by
  obtain ⟨d, hd⟩ := (processRequestLine_true_iff hm).mpr h
  exact ⟨_, by rw [onLine_requestLine hs, hd]; rfl⟩

/-- The request line decides all that a context with no headers will hold. -/
theorem onLine_fresh (hc : RequestText.Fresh c) (hc' : RequestText.Fresh c') {d : HttpContext}
    (h : onLine t c line = .ok (.next d)) : onLine t c' line = .ok (.next d) := by
  rw [onLine_requestLine hc.state] at h
  rw [onLine_requestLine hc'.state]
  by_cases hl : IsRequestLine line
  · obtain ⟨m, rest, path, v, hm, hv⟩ := hl
    rw [processRequestLine_named hc.method hm, processTarget_eq _ hv] at h
    rw [processRequestLine_named hc'.method hm, processTarget_eq _ hv, ← h]
    simp only [Except.map, setPath, setVersion, setReceiveTime, hc.headers, hc'.headers, if_true]
  · cases hr : processRequestLine line c with
    | error e => rw [hr] at h; cases h
    | ok r =>
        obtain ⟨ok, d'⟩ := r
        cases ok with
        | true => exact absurd hr (processRequestLine_not_true hl)
        | false => rw [hr] at h; cases h

/-! ## Whole requests -/

theorem run_headers_done (hc : c.state = .kExpectHeaders)
    (h : (parser t).run c buf = .ok (.done, c', rest)) :
    ∃ w, buf = w ++ rest ∧ IsHeaders w := by
  induction c, buf using LineMachine.run_induction (M := parser t) with
  | waiting c buf hs => rw [LineMachine.run_waiting hs] at h; cases h
  | error c buf i e hs hl => rw [LineMachine.run_error hs hl] at h; cases h
  | next c buf i c₁ hs hl ih =>
      rw [LineMachine.run_next hs hl] at h
      obtain ⟨w, hw, hheaders⟩ := ih (onLine_next_parsing hl) h
      have hcolon : (buf.take i).idxOf 58 ≠ (buf.take i).length := by
        intro heq
        have hl' : onLine t c (buf.take i) = .ok (.next c₁) := hl
        rw [onLine_headers hc, heq] at hl'
        simp at hl'
      refine ⟨buf.take i ++ (kCRLF ++ w), ?_, .field (search_take hs (parser t).sep_ne) ?_ hheaders⟩
      · rw [List.append_assoc, List.append_assoc, ← hw]
        exact search_cut hs
      · by_contra hmem
        exact hcolon (idxOf_eq_length hmem)
  | done c buf i c₁ hs hl =>
      rw [LineMachine.run_done hs hl] at h
      cases h
      have hcolon : (buf.take i).idxOf 58 = (buf.take i).length := by
        by_contra hne
        have hl' : onLine t c (buf.take i) = .ok (.done c') := hl
        rw [onLine_headers hc, if_pos hne] at hl'
        cases hl'
      refine ⟨buf.take i ++ kCRLF, ?_, .last (search_take hs (parser t).sep_ne) ?_⟩
      · rw [List.append_assoc]
        exact search_cut hs
      · exact List.idxOf_eq_length_iff.mp hcolon
  | reject c buf i c₁ hs hl => rw [LineMachine.run_reject hs hl] at h; cases h

theorem IsHeaders.run {w : Bytes} (h : IsHeaders w) (t : Timestamp) (rest : Bytes) :
    ∀ {c : HttpContext}, c.state = .kExpectHeaders →
      ∃ c', (parser t).run c (w ++ rest) = .ok (.done, c', rest) := by
  induction h with
  | @last line hs hcolon =>
      intro c hc
      have hl : onLine t c ((line ++ (kCRLF ++ rest)).take line.length) =
          .ok (.done c.receiveHeaders) := by
        rw [List.take_left, onLine_headers hc, idxOf_eq_length hcolon]
        simp
      rw [List.append_assoc]
      refine ⟨c.receiveHeaders, ?_⟩
      rw [LineMachine.run_done (M := parser t) (search_line rest hs) hl]
      simp [parser, kCRLF]
  | @field line s hs hcolon _ ih =>
      intro c hc
      have hne : line.idxOf 58 ≠ line.length := fun h =>
        List.idxOf_eq_length_iff.mp h hcolon
      have hl : onLine t c line =
          .ok (.next { c with request := c.request.addHeader line (line.idxOf 58) }) := by
        rw [onLine_headers hc, if_pos hne]
      obtain ⟨c', hrun⟩ := ih (c := { c with request := c.request.addHeader line _ }) hc
      refine ⟨c', ?_⟩
      rw [List.append_assoc, List.append_assoc]
      exact (LineMachine.run_line (M := parser t) (search_line _ hs) hl).trans hrun

/-- **What the parser takes for a request**: it is done exactly when the
bytes start with a complete one, and it consumes no more than that. -/
theorem run_done_iff (hs : c.state = .kExpectRequestLine) (hm : c.request.method = .kInvalid) :
    (∃ c', (parser t).run c buf = .ok (.done, c', rest)) ↔
      ∃ w, buf = w ++ rest ∧ IsRequest w := by
  constructor
  · rintro ⟨c', h⟩
    cases hcrlf : search kCRLF buf with
    | none => rw [LineMachine.run_waiting (M := parser t) hcrlf] at h; cases h
    | some i =>
        cases hl : onLine t c (buf.take i) with
        | error e => rw [LineMachine.run_error (M := parser t) hcrlf hl] at h; cases h
        | ok v =>
            cases v with
            | next c₁ =>
                rw [LineMachine.run_next (M := parser t) hcrlf hl] at h
                obtain ⟨w, hw, hheaders⟩ := run_headers_done (onLine_next_parsing hl) h
                obtain ⟨-, d, hd, -⟩ | ⟨-, d, -, hv⟩ | ⟨hs', -⟩ | ⟨hs', -⟩ := onLine_cases hl
                · refine ⟨buf.take i ++ (kCRLF ++ w), ?_, .mk (search_take hcrlf (by decide))
                    ((processRequestLine_true_iff hm).mp ⟨d, hd⟩) hheaders⟩
                  rw [List.append_assoc, List.append_assoc, ← hw]
                  exact search_cut hcrlf
                · cases hv
                · rw [hs] at hs'; cases hs'
                · rw [hs] at hs'; cases hs'
            | done c₁ =>
                have hs' := (onLine_done hl).1
                rw [hs] at hs'
                cases hs'
            | reject c₁ => rw [LineMachine.run_reject (M := parser t) hcrlf hl] at h; cases h
  · rintro ⟨w, rfl, hw⟩
    obtain @⟨line, s, hcrlf, hline, hheaders⟩ := hw
    obtain ⟨d, hl⟩ := onLine_request (t := t) hs hm hline
    obtain ⟨c', hrun⟩ := hheaders.run t rest (onLine_next_parsing hl)
    refine ⟨c', ?_⟩
    rw [List.append_assoc, List.append_assoc]
    exact (LineMachine.run_line (M := parser t) (search_line _ hcrlf) hl).trans hrun

/-- **A request is read the same in every context without headers**, from
its own bytes alone. -/
theorem run_fresh_congr (hc : RequestText.Fresh c) (hc' : RequestText.Fresh c') {w : Bytes}
    {d : HttpContext} (h : (parser t).run c (w ++ rest) = .ok (.done, d, rest)) :
    (parser t).run c' w = .ok (.done, d, []) := by
  obtain ⟨w', hw, hreq⟩ := (run_done_iff hc.state hc.method).mp ⟨d, h⟩
  obtain rfl := List.append_cancel_right hw
  obtain @⟨line, s, hcrlf, hline, hheaders⟩ := hreq
  obtain ⟨e, hl⟩ := onLine_request (t := t) hc.state hc.method hline
  have hfirst : (parser t).run c (line ++ (kCRLF ++ s)) = (parser t).run e s :=
    LineMachine.run_line (M := parser t) (search_line _ hcrlf) hl
  have hfirst' : (parser t).run c' (line ++ (kCRLF ++ s)) = (parser t).run e s :=
    LineMachine.run_line (M := parser t) (search_line _ hcrlf) (onLine_fresh hc hc' hl)
  obtain ⟨d', hd⟩ := hheaders.run t [] (onLine_next_parsing hl)
  rw [List.append_nil] at hd
  rw [LineMachine.run_append, hfirst, hd] at h
  cases h
  rw [hfirst', hd]

/-! ## Dead ends -/

/-- The bytes start with a complete line that is no request line. -/
def DeadEnd (bytes : Bytes) : Prop :=
  ∃ i, search kCRLF bytes = some i ∧ ¬IsRequestLine (bytes.take i)

theorem DeadEnd.append (h : DeadEnd buf) (more : Bytes) : DeadEnd (buf ++ more) := by
  obtain ⟨i, hs, hline⟩ := h
  have hle := search_le hs InputBuffer.kCRLF_ne
  refine ⟨i, search_append more hs, ?_⟩
  rwa [List.take_append_of_le_length (by omega)]

/-- In every context the parser stays at a dead end, or its assertion fails. -/
theorem run_deadEnd (hs : c.state = .kExpectRequestLine) (h : DeadEnd buf) {st : Status}
    (hrun : (parser t).run c buf = .ok (st, c', rest)) :
    st = .rejected ∧ c'.state = .kExpectRequestLine ∧ rest = buf := by
  obtain ⟨i, hcrlf, hline⟩ := h
  cases hl : onLine t c (buf.take i) with
  | error e => rw [LineMachine.run_error (M := parser t) hcrlf hl] at hrun; cases hrun
  | ok v =>
      cases v with
      | next d =>
          obtain ⟨-, e, he, -⟩ | ⟨-, e, -, hv⟩ | ⟨hs', -⟩ | ⟨hs', -⟩ := onLine_cases hl
          · exact absurd he (processRequestLine_not_true hline)
          · cases hv
          · rw [hs] at hs'; cases hs'
          · rw [hs] at hs'; cases hs'
      | done d =>
          have hs' := (onLine_done hl).1
          rw [hs] at hs'
          cases hs'
      | reject d =>
          rw [LineMachine.run_reject (M := parser t) hcrlf hl] at hrun
          cases hrun
          obtain ⟨-, hr⟩ := onLine_reject hl
          exact ⟨rfl, (processRequestLine_state hr).trans hs, rfl⟩

end Muduo
