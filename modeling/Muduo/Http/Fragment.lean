import Muduo.Http.LineParser
import Muduo.Http.RequestLine

/-!
# Fragmentation does not show

TCP delivers the bytes of a request in pieces of any size. `deliver` is what
`onMessage` makes of the pieces up to the first verdict: append, parse,
append, parse. Its outcome is that of one call on all the bytes
(`deliver_eq_parseRequest`), except for the receive time, which is that of
the piece that completed the request line. The argument is the one of every
line machine (`LineMachine.feed_eq_run`); what is proved here is that the
parser's decisions do not depend on the receive time (`parser_hom`) and that
it never faults when it starts from a fresh context (`run_fresh`).
-/

namespace Muduo

open Lib HttpRequest

variable {t : Timestamp} {c c' : HttpContext} {buf rest : Bytes} {st : Status}

/-! ## States of the parser between lines -/

/-- The states a run can end in: waiting, it is in one with a branch; done,
it has got all; rejected, it still expects the request line. -/
def HttpContext.EndsIn (c : HttpContext) : Status → Prop
  | .waiting => c.Parsing
  | .done => c.state = .kGotAll
  | .rejected => c.state = .kExpectRequestLine

theorem run_state (hp : c.Parsing) (h : (parser t).run c buf = .ok (st, c', rest)) :
    c'.EndsIn st := by
  induction c, buf using LineMachine.run_induction (M := parser t) with
  | waiting c buf hs =>
      rw [LineMachine.run_waiting hs] at h
      cases h
      exact hp
  | error c buf i e hs hl => rw [LineMachine.run_error hs hl] at h; cases h
  | next c buf i c₁ hs hl ih =>
      rw [LineMachine.run_next hs hl] at h
      exact ih (Or.inr (onLine_next_parsing hl)) h
  | done c buf i c₁ hs hl =>
      rw [LineMachine.run_done hs hl] at h
      cases h
      obtain ⟨-, rfl⟩ := onLine_done hl
      rfl
  | reject c buf i c₁ hs hl =>
      rw [LineMachine.run_reject hs hl] at h
      cases h
      obtain ⟨hs', hr⟩ := onLine_reject hl
      exact (processRequestLine_state hr).trans hs'

/-- The contexts in which no line can fail the assertion in `setMethod`. -/
def HttpContext.Clean (c : HttpContext) : Prop :=
  c.Parsing ∧ (c.state = .kExpectRequestLine → c.request.method = .kInvalid)

theorem HttpContext.clean_new : HttpContext.new.Clean := ⟨.inl rfl, fun _ => rfl⟩

theorem HttpContext.clean_of_headers (h : c.state = .kExpectHeaders) : c.Clean :=
  ⟨.inr h, fun h' => by rw [h] at h'; cases h'⟩

theorem onLine_ok (hc : c.Clean) (line : Bytes) : ∃ v, onLine t c line = .ok v := by
  rcases hc.1 with hs | hs
  · obtain ⟨r, hr⟩ := processRequestLine_ok (hc.2 hs) line
    rw [onLine_requestLine hs, hr]
    exact ⟨_, rfl⟩
  · rw [onLine_headers hs]
    split
    · exact ⟨_, rfl⟩
    · exact ⟨_, rfl⟩

/-- From a clean context the parser does not fault, whatever the bytes. -/
theorem run_fresh (hc : c.Clean) (buf : Bytes) : ∃ o, (parser t).run c buf = .ok o := by
  induction c, buf using LineMachine.run_induction (M := parser t) with
  | waiting c buf hs => exact ⟨_, LineMachine.run_waiting hs⟩
  | error c buf i e hs hl =>
      obtain ⟨v, hv⟩ := onLine_ok (t := t) hc (buf.take i)
      have habs : Except.error e = Except.ok v := hl.symm.trans hv
      cases habs
  | next c buf i c₁ hs hl ih =>
      rw [LineMachine.run_next hs hl]
      exact ih (HttpContext.clean_of_headers (onLine_next_parsing hl))
  | done c buf i c₁ hs hl => exact ⟨_, LineMachine.run_done hs hl⟩
  | reject c buf i c₁ hs hl => exact ⟨_, LineMachine.run_reject hs hl⟩

/-! ## The receive time decides nothing -/

/-- The context with its receive time forgotten. -/
def HttpContext.eraseTime (c : HttpContext) : HttpContext :=
  { c with request := c.request.setReceiveTime .invalid }

theorem processVersion_setReceiveTime (r : HttpRequest) (s : Bytes) :
    processVersion (r.setReceiveTime t) s =
      ((processVersion r s).1, (processVersion r s).2.setReceiveTime t) := by
  unfold processVersion
  split_ifs <;> rfl

theorem processTarget_setReceiveTime (r : HttpRequest) (s : Bytes) :
    processTarget (r.setReceiveTime t) s =
      ((processTarget r s).1, (processTarget r s).2.setReceiveTime t) := by
  simp only [processTarget]
  split_ifs
  · exact processVersion_setReceiveTime (r.setPath _) _
  · rfl

theorem setMethod_setReceiveTime (r : HttpRequest) (m : Bytes) :
    (r.setReceiveTime t).setMethod m =
      (r.setMethod m).map fun x => (x.1, x.2.setReceiveTime t) := by
  by_cases hm : r.method = .kInvalid
  · rw [setMethod_eq hm, setMethod_eq (show (r.setReceiveTime t).method = .kInvalid from hm)]
    rfl
  · have hm' : ¬(r.setReceiveTime t).method = _ := hm
    rw [setMethod, setMethod, check_not hm, check_not hm']
    rfl

theorem processRequestLine_eraseTime (line : Bytes) (c : HttpContext) :
    processRequestLine line c.eraseTime =
      (processRequestLine line c).map fun r => (r.1, r.2.eraseTime) := by
  have hreq : c.eraseTime.request = c.request.setReceiveTime .invalid := rfl
  simp only [processRequestLine, hreq, setMethod_setReceiveTime]
  split_ifs with hsp
  · cases c.request.setMethod (line.take (line.idxOf 32)) with
    | error e => rfl
    | ok x =>
        obtain ⟨known, request⟩ := x
        cases known with
        | true =>
            simp only [Except.map, ok_bind, if_true, processTarget_setReceiveTime]
            rfl
        | false => rfl
  · rfl

/-- Forgetting the receive time commutes with reading a line. -/
theorem parser_hom (t : Timestamp) : (parser t).Hom (parser .invalid) HttpContext.eraseTime where
  sep_eq := rfl
  onLine_eq c line := by
    change onLine .invalid c.eraseTime line = (onLine t c line).map _
    cases hs : c.state with
    | kExpectRequestLine =>
        rw [onLine_requestLine hs, onLine_requestLine (show c.eraseTime.state = _ from hs),
          processRequestLine_eraseTime]
        cases processRequestLine line c with
        | error e => rfl
        | ok r =>
            obtain ⟨ok, c'⟩ := r
            cases ok <;> rfl
    | kExpectHeaders =>
        rw [onLine_headers hs, onLine_headers (show c.eraseTime.state = _ from hs)]
        split_ifs <;> rfl
    | kExpectBody => simp only [onLine, HttpContext.eraseTime, hs]; rfl
    | kGotAll => simp only [onLine, HttpContext.eraseTime, hs]; rfl

/-! ## Delivering in chunks -/

/-- Append each chunk and parse, up to the first call that returns false or
leaves the context in `kGotAll`. The unread bytes are those in the buffer
followed by the chunks not yet delivered. -/
def deliver : Bytes → HttpContext → List (Bytes × Timestamp) → Except HttpFault (Parsed Bytes)
  | buf, context, [] => .ok ⟨true, context, buf⟩
  | buf, context, (chunk, receiveTime) :: rest => do
      let p ← parseRequest (buf ++ chunk) context receiveTime
      if p.ok = false ∨ p.context.gotAll then
        return { p with buf := p.buf ++ (rest.map Prod.fst).flatten }
      else deliver p.buf p.context rest

theorem HttpContext.Parsing.not_gotAll (hp : c.Parsing) : c.gotAll = false := by
  rcases hp with h | h <;> rw [HttpContext.gotAll, h] <;> rfl

/-- `deliver` is the feed of the line machine. -/
theorem deliver_eq_feed : ∀ (chunks : List (Bytes × Timestamp)) (buf : Bytes) (c : HttpContext),
    c.Parsing →
      deliver buf c chunks = (LineMachine.feed parser c buf chunks).map Parsed.ofRun
  | [], buf, c, _ => rfl
  | (chunk, t) :: rest, buf, c, hp => by
      rw [deliver, parseRequest_bytes _ hp, LineMachine.feed]
      cases hr : (parser t).run c (buf ++ chunk) with
      | error e => rfl
      | ok o =>
          obtain ⟨st, c', buf'⟩ := o
          have hstate := run_state hp hr
          cases st with
          | waiting =>
              have hg := HttpContext.Parsing.not_gotAll hstate
              have ih := deliver_eq_feed rest buf' c' hstate
              simpa [Except.map, Parsed.ofRun, hg] using ih
          | done =>
              have hg : c'.gotAll = true := by rw [HttpContext.gotAll, hstate]; rfl
              simp [Except.map, Parsed.ofRun, hg, pure, Except.pure]
          | rejected => simp [Except.map, Parsed.ofRun, pure, Except.pure]

/-- A context whose receive time is forgotten agrees with another on all the
rest. -/
theorem HttpContext.eraseTime_inj (h : c.eraseTime = c'.eraseTime) :
    c.state = c'.state ∧ c.request.method = c'.request.method ∧
      c.request.path = c'.request.path ∧ c.request.version = c'.request.version ∧
      c.request.headers = c'.request.headers := by
  have hs : c.eraseTime.state = c'.eraseTime.state := congrArg _ h
  have hr : c.eraseTime.request = c'.eraseTime.request := congrArg _ h
  obtain ⟨hm, hv, hpath, -, hh⟩ := HttpRequest.mk.inj hr
  exact ⟨hs, hm, hpath, hv, hh⟩

/-- **Fragmentation does not show.** However a stream is cut and whenever its
pieces arrive, delivering them one at a time to a fresh context ends, like
one call on the whole stream, without a fault, and the two outcomes agree on
everything but the receive time. -/
theorem deliver_eq_parseRequest (chunks : List (Bytes × Timestamp)) (receiveTime : Timestamp) :
    ∃ p q, deliver [] .new chunks = .ok p ∧
      parseRequest (chunks.map Prod.fst).flatten .new receiveTime = .ok q ∧
      p.ok = q.ok ∧ p.context.state = q.context.state ∧
      p.context.request.method = q.context.request.method ∧
      p.context.request.path = q.context.request.path ∧
      p.context.request.version = q.context.request.version ∧
      p.context.request.headers = q.context.request.headers ∧ p.buf = q.buf := by
  have hfeed := LineMachine.feed_eq_run parser_hom chunks .new [] rfl
  rw [List.nil_append, (parser_hom receiveTime).run_eq] at hfeed
  obtain ⟨o, ho⟩ := run_fresh (t := receiveTime) HttpContext.clean_new
    (chunks.map Prod.fst).flatten
  rw [ho] at hfeed
  obtain ⟨o', ho', heq⟩ : ∃ o', LineMachine.feed parser .new [] chunks = .ok o' ∧
      (o'.1, o'.2.1.eraseTime, o'.2.2) = (o.1, o.2.1.eraseTime, o.2.2) := by
    cases hf : LineMachine.feed parser .new [] chunks with
    | error e => rw [hf] at hfeed; cases hfeed
    | ok o' =>
        rw [hf] at hfeed
        exact ⟨o', rfl, Except.ok.inj hfeed⟩
  obtain ⟨hst, hctx, hbuf⟩ := Prod.mk.injEq .. ▸ Prod.mk.injEq .. ▸ heq
  obtain ⟨hs, hm, hpath, hv, hh⟩ := HttpContext.eraseTime_inj hctx
  refine ⟨.ofRun o', .ofRun o, ?_, ?_, ?_, hs, hm, hpath, hv, hh, hbuf⟩
  · rw [deliver_eq_feed chunks [] .new HttpContext.parsing_new, ho']
    rfl
  · rw [parseRequest_bytes _ HttpContext.parsing_new, ho]
    rfl
  · simp only [Parsed.ofRun, hst]

end Muduo
