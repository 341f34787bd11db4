import Muduo.Http.Parse
import Muduo.Lib.LineMachine

/-!
# `parseRequest` is a line machine

The loop of `parseRequest` seen as what it is: a machine that makes one
decision per complete line (`parser`). `parseBody_line` reads one iteration
of the loop as one line of the machine, and `parseRequest_run` the whole
call as its run over the readable bytes; from there on the generic facts of
line machines apply, and no proof looks at the loop again.
-/

namespace Muduo

open Lib InputBuffer

/-! ## The machine -/

/-- The states in which the loop of `parseRequest` has a branch that does
something. -/
def HttpContext.Parsing (c : HttpContext) : Prop :=
  c.state = .kExpectRequestLine ∨ c.state = .kExpectHeaders

instance (c : HttpContext) : Decidable c.Parsing := inferInstanceAs (Decidable (_ ∨ _))

theorem HttpContext.parsing_new : HttpContext.new.Parsing := Or.inl rfl

/-- What one complete line does to the context. -/
def onLine (receiveTime : Timestamp) (c : HttpContext) (line : Bytes) :
    Except HttpFault (Verdict HttpContext) :=
  match c.state with
  | .kExpectRequestLine => do
      let (ok, c) ← processRequestLine line c
      if ok then
        let c := { c with request := c.request.setReceiveTime receiveTime }
        return .next c.receiveRequestLine
      else return .reject c
  | .kExpectHeaders =>
      let colon := line.idxOf 58
      if colon ≠ line.length then
        .ok (.next { c with request := c.request.addHeader line colon })
      else .ok (.done c.receiveHeaders)
  | .kExpectBody | .kGotAll => .error .diverges

def parser (receiveTime : Timestamp) : LineMachine HttpContext HttpFault UInt8 where
  sep := kCRLF
  sep_ne := kCRLF_ne
  onLine := onLine receiveTime

theorem onLine_requestLine {t : Timestamp} {c : HttpContext} {line : Bytes}
    (h : c.state = .kExpectRequestLine) :
    onLine t c line = (processRequestLine line c).map fun r =>
      if r.1 then .next { r.2 with
        state := .kExpectHeaders, request := r.2.request.setReceiveTime t }
      else .reject r.2 := by
  simp only [onLine, h]
  cases processRequestLine line c with
  | error e => rfl
  | ok r =>
      obtain ⟨ok, c'⟩ := r
      cases ok <;> rfl

theorem onLine_headers {t : Timestamp} {c : HttpContext} {line : Bytes}
    (h : c.state = .kExpectHeaders) :
    onLine t c line = if line.idxOf 58 ≠ line.length then
      .ok (.next { c with request := c.request.addHeader line (line.idxOf 58) })
      else .ok (.done c.receiveHeaders) := by
  simp only [onLine, h]

/-! ## One iteration -/

variable {β : Type} [InputBuffer β] {t : Timestamp}

theorem parseBody_none {buf : β} {c : HttpContext} (hp : c.Parsing)
    (hf : findCRLF buf = none) :
    parseBody t ⟨true, true, buf, c⟩ = .ok ⟨true, false, buf, c⟩ := by
  unfold parseBody
  rcases hp with hp | hp
  · simp only [HttpContext.expectRequestLine, hp, hf]
    rfl
  · simp only [HttpContext.expectRequestLine, HttpContext.expectHeaders, hp, hf]
    rfl

/-- The loop state after a line with the given verdict. -/
def afterLine (buf : β) (crlf : Nat) : Verdict HttpContext → ParseState β
  | .next c => ⟨true, true, retrieve buf (crlf + 2), c⟩
  | .done c => ⟨true, false, retrieve buf (crlf + 2), c⟩
  | .reject c => ⟨false, false, buf, c⟩

theorem parseBody_line {buf : β} {c : HttpContext} (hp : c.Parsing) {crlf : Nat}
    (hf : findCRLF buf = some crlf) :
    parseBody t ⟨true, true, buf, c⟩ =
      (onLine t c ((readable buf).take crlf)).map (afterLine buf crlf) := by
  unfold parseBody
  rcases hp with hp | hp
  · rw [onLine_requestLine hp]
    simp only [HttpContext.expectRequestLine, hp, hf]
    cases processRequestLine ((readable buf).take crlf) c with
    | error e => rfl
    | ok r =>
        obtain ⟨ok, c'⟩ := r
        cases ok <;> rfl
  · have hrl : c.expectRequestLine = false := by simp [HttpContext.expectRequestLine, hp]
    have hh : c.expectHeaders = true := by simp [HttpContext.expectHeaders, hp]
    rw [onLine_headers hp]
    simp only [hrl, hh, hf, Bool.false_eq_true, ↓reduceIte]
    split <;> rfl

/-- All a line can do. -/
theorem onLine_cases {c : HttpContext} {line : Bytes} {v : Verdict HttpContext}
    (h : onLine t c line = .ok v) :
    (c.state = .kExpectRequestLine ∧ ∃ c', processRequestLine line c = .ok (true, c') ∧
      v = .next { c' with state := .kExpectHeaders, request := c'.request.setReceiveTime t }) ∨
    (c.state = .kExpectRequestLine ∧ ∃ c', processRequestLine line c = .ok (false, c') ∧
      v = .reject c') ∨
    (c.state = .kExpectHeaders ∧ line.idxOf 58 ≠ line.length ∧
      v = .next { c with request := c.request.addHeader line (line.idxOf 58) }) ∨
    (c.state = .kExpectHeaders ∧ line.idxOf 58 = line.length ∧ v = .done c.receiveHeaders) := by
  cases hc : c.state with
  | kExpectRequestLine =>
      rw [onLine_requestLine hc] at h
      cases hr : processRequestLine line c with
      | error e => rw [hr] at h; cases h
      | ok r =>
          obtain ⟨ok, c'⟩ := r
          rw [hr] at h
          cases ok with
          | true => exact .inl ⟨rfl, c', rfl, (Except.ok.inj h).symm⟩
          | false => exact .inr (.inl ⟨rfl, c', rfl, (Except.ok.inj h).symm⟩)
  | kExpectHeaders =>
      rw [onLine_headers hc] at h
      by_cases hcolon : line.idxOf 58 = line.length
      · rw [if_neg (not_not.mpr hcolon)] at h
        exact .inr (.inr (.inr ⟨rfl, hcolon, (Except.ok.inj h).symm⟩))
      · rw [if_pos hcolon, hc] at h
        exact .inr (.inr (.inl ⟨rfl, hcolon, (Except.ok.inj h).symm⟩))
  | kExpectBody => simp only [onLine, hc] at h; cases h
  | kGotAll => simp only [onLine, hc] at h; cases h

/-- A line that leaves the machine running leaves it in one of its states. -/
theorem onLine_next_parsing {c c' : HttpContext} {line : Bytes}
    (h : onLine t c line = .ok (.next c')) : c'.state = .kExpectHeaders := by
  obtain ⟨-, c₁, -, hv⟩ | ⟨-, c₁, -, hv⟩ | ⟨hs, -, hv⟩ | ⟨-, -, hv⟩ := onLine_cases h
  · cases hv
    rfl
  · cases hv
  · cases hv
    exact hs
  · cases hv

/-- A line that ends the request. -/
theorem onLine_done {c c' : HttpContext} {line : Bytes}
    (h : onLine t c line = .ok (.done c')) :
    c.state = .kExpectHeaders ∧ c' = c.receiveHeaders := by
  obtain ⟨-, c₁, -, hv⟩ | ⟨-, c₁, -, hv⟩ | ⟨-, -, hv⟩ | ⟨hs, -, hv⟩ := onLine_cases h
  · cases hv
  · cases hv
  · cases hv
  · cases hv
    exact ⟨hs, rfl⟩

/-- Only a request line is ever rejected. -/
theorem onLine_reject {c c' : HttpContext} {line : Bytes}
    (h : onLine t c line = .ok (.reject c')) :
    c.state = .kExpectRequestLine ∧ processRequestLine line c = .ok (false, c') := by
  obtain ⟨-, c₁, -, hv⟩ | ⟨hs, c₁, hr, hv⟩ | ⟨-, -, hv⟩ | ⟨-, -, hv⟩ := onLine_cases h
  · cases hv
  · cases hv
    exact ⟨hs, hr⟩
  · cases hv
  · cases hv

/-! ## The whole call -/

/-- What a caller sees of a result: the flag, the context, the unread bytes. -/
def Parsed.seen (p : Parsed β) : Parsed Bytes := ⟨p.ok, p.context, readable p.buf⟩

/-- A run of the machine, read as a result. -/
def Parsed.ofRun (o : Status × HttpContext × Bytes) : Parsed Bytes :=
  ⟨decide (o.1 ≠ .rejected), o.2.1, o.2.2⟩

/-- The result in a final state of the loop. -/
def ParseState.result (s : ParseState β) : Parsed Bytes := ⟨s.ok, s.context, readable s.buf⟩

/-- The loop, with enough fuel, is the run of the machine. -/
theorem loop_run (c : HttpContext) (bytes : Bytes) : ∀ (n : Nat) (buf : β),
    readable buf = bytes → c.Parsing → bytes.length + 2 ≤ n →
      ∃ r, whileFuel ParseState.hasMore (parseBody t) n ⟨true, true, buf, c⟩ = some r ∧
        r.map ParseState.result = ((parser t).run c bytes).map Parsed.ofRun := by
  induction c, bytes using LineMachine.run_induction (M := parser t) with
  | waiting c bytes hs =>
      rintro n buf rfl hp hn
      obtain ⟨m, rfl⟩ : ∃ m, n = m + 2 := ⟨n - 2, by omega⟩
      rw [whileFuel_step rfl (parseBody_none hp hs), LineMachine.run_waiting hs]
      exact ⟨_, whileFuel_exit rfl m, rfl⟩
  | error c bytes i e hs hl =>
      rintro n buf rfl hp hn
      obtain ⟨m, rfl⟩ : ∃ m, n = m + 1 := ⟨n - 1, by omega⟩
      have hl' : onLine t c ((readable buf).take i) = .error e := hl
      have hb : parseBody t ⟨true, true, buf, c⟩ = .error e := by
        rw [parseBody_line hp hs, hl']
        rfl
      rw [LineMachine.run_error hs hl]
      exact ⟨_, whileFuel_error rfl hb m, rfl⟩
  | next c bytes i c' hs hl ih =>
      rintro n buf rfl hp hn
      obtain ⟨m, rfl⟩ : ∃ m, n = m + 1 := ⟨n - 1, by omega⟩
      have hl' : onLine t c ((readable buf).take i) = .ok (.next c') := hl
      have hb : parseBody t ⟨true, true, buf, c⟩ =
          .ok ⟨true, true, retrieve buf (i + 2), c'⟩ := by
        rw [parseBody_line hp hs, hl']
        rfl
      have hdrop : readable (retrieve buf (i + 2)) = (readable buf).drop (i + 2) :=
        readable_retrieveUntil hs
      rw [whileFuel_step rfl hb, LineMachine.run_next hs hl]
      refine ih m _ hdrop (Or.inr (onLine_next_parsing hl')) ?_
      have hle := search_le hs kCRLF_ne
      rw [List.length_drop]
      change i + 2 ≤ _ at hle
      change _ - (i + 2) + 2 ≤ m
      omega
  | done c bytes i c' hs hl =>
      rintro n buf rfl hp hn
      obtain ⟨m, rfl⟩ : ∃ m, n = m + 2 := ⟨n - 2, by omega⟩
      have hl' : onLine t c ((readable buf).take i) = .ok (.done c') := hl
      have hb : parseBody t ⟨true, true, buf, c⟩ =
          .ok ⟨true, false, retrieve buf (i + 2), c'⟩ := by
        rw [parseBody_line hp hs, hl']
        rfl
      rw [whileFuel_step rfl hb, LineMachine.run_done hs hl]
      refine ⟨_, whileFuel_exit rfl m, ?_⟩
      simp only [Except.map, ParseState.result, readable_retrieveUntil hs]
      rfl
  | reject c bytes i c' hs hl =>
      rintro n buf rfl hp hn
      obtain ⟨m, rfl⟩ : ∃ m, n = m + 2 := ⟨n - 2, by omega⟩
      have hl' : onLine t c ((readable buf).take i) = .ok (.reject c') := hl
      have hb : parseBody t ⟨true, true, buf, c⟩ = .ok ⟨false, false, buf, c'⟩ := by
        rw [parseBody_line hp hs, hl']
        rfl
      rw [whileFuel_step rfl hb, LineMachine.run_reject hs hl]
      exact ⟨_, whileFuel_exit rfl m, rfl⟩

/-- **`parseRequest` is the run of the line machine** over the readable
bytes, on either kind of buffer. -/
theorem parseRequest_run (buf : β) {c : HttpContext} (hp : c.Parsing) :
    (parseRequest buf c t).map Parsed.seen =
      ((parser t).run c (readable buf)).map Parsed.ofRun := by
  obtain ⟨r, hr, heq⟩ :=
    loop_run (t := t) c (readable buf) ((readable buf).length + 2) buf rfl hp le_rfl
  rw [← heq]
  unfold parseRequest
  rw [hr]
  cases r <;> rfl

/-- In the other two states the loop never ends, with any amount of fuel. -/
theorem parseRequest_diverges (buf : β) {c : HttpContext} (hp : ¬c.Parsing) :
    (∀ n, whileFuel ParseState.hasMore (parseBody t) n ⟨true, true, buf, c⟩ = none) ∧
      parseRequest buf c t = .error .diverges := by
  have hloop : ∀ n, whileFuel ParseState.hasMore (parseBody t) n ⟨true, true, buf, c⟩ = none := by
    intro n
    refine whileFuel_diverges (D := fun s => s = ⟨true, true, buf, c⟩) ?_ n _ rfl
    rintro s rfl
    refine ⟨rfl, _, ?_, rfl⟩
    unfold parseBody
    cases hc : c.state with
    | kExpectRequestLine => exact absurd (Or.inl hc) hp
    | kExpectHeaders => exact absurd (Or.inr hc) hp
    | kExpectBody | kGotAll =>
        simp only [HttpContext.expectRequestLine, HttpContext.expectHeaders,
          HttpContext.expectBody, hc]
        rfl
  refine ⟨hloop, ?_⟩
  unfold parseRequest
  rw [hloop]

/-- Over a byte string nothing is hidden. -/
theorem parseRequest_bytes (buf : Bytes) {c : HttpContext} (hp : c.Parsing) :
    parseRequest buf c t = ((parser t).run c buf).map Parsed.ofRun := by
  have h := parseRequest_run (t := t) buf hp
  have hid : (parseRequest buf c t).map Parsed.seen = parseRequest buf c t := by
    cases parseRequest buf c t <;> rfl
  rw [hid] at h
  exact h

end Muduo
