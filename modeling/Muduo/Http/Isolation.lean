import Muduo.Http.Grammar
import Muduo.Http.Pipeline

/-!
# Requests on one connection are isolated from each other

The context is bound to the connection and reused from request to request:
`reset` does not clear the version, a rejected line leaves a method and a
path behind, and a request may be read across any number of chunks. Still
each request handed to `httpCallback_` is what a new connection would make
of the bytes consumed since the call before (`dispatches_fresh`).

Between two calls a connection is `Live`: the bytes received and not
answered are read in its context as in a fresh one. A line that is not a
request line ends that for good (`Stuck`); `Live.handle` is all a chunk can do.
-/

namespace Muduo

open Lib RequestText

theorem RequestText.fresh_new : Fresh .new := ⟨rfl, rfl, rfl⟩

/-- The requests agree on all the parser reads. -/
structure HttpRequest.Agrees (r r' : HttpRequest) : Prop where
  method : r.method = r'.method
  path : r.path = r'.path
  version : r.version = r'.version
  headers : r.headers = r'.headers

theorem HttpRequest.agrees_of_erased {r r' : HttpRequest}
    (h : r.setReceiveTime .invalid = r'.setReceiveTime .invalid) : r.Agrees r' := by
  obtain ⟨hm, hv, hp, -, hh⟩ := HttpRequest.mk.inj h
  exact ⟨hm, hp, hv, hh⟩

namespace HttpConnection

variable {cb : HttpCallback} {k : Kernel} {s s' : HttpConnection} {u : Bytes}

/-! ## What a call of `httpCallback_` gets -/

/-- The bytes a chunk made the connection consume. -/
def consumed (s s' : HttpConnection) (chunk : Bytes × Timestamp) : Bytes :=
  let buf := s.inputBuffer ++ chunk.1
  buf.take (buf.length - s'.inputBuffer.length)

/-- The requests `httpCallback_` is called with along a sequence of chunks,
each with the bytes consumed since the call before; `seen` are those consumed
since the last one already. A fault ends the run. -/
def dispatches (cb : HttpCallback) (k : Kernel) :
    HttpConnection → Bytes → List (Bytes × Timestamp) → List (Bytes × HttpRequest)
  | _, _, [] => []
  | s, seen, chunk :: rest =>
      match s.handleRead cb k chunk with
      | .error _ => []
      | .ok s' =>
          let seen := seen ++ consumed s s' chunk
          match s'.requests.drop s.requests.length with
          | [] => dispatches cb k s' seen rest
          | new => new.map (fun req => (seen, req)) ++ dispatches cb k s' [] rest

theorem dispatches_quiet {chunk : Bytes × Timestamp} (hread : s.handleRead cb k chunk = .ok s')
    (h : s'.requests = s.requests) (seen : Bytes) (rest : List (Bytes × Timestamp)) :
    dispatches cb k s seen (chunk :: rest) =
      dispatches cb k s' (seen ++ consumed s s' chunk) rest := by
  simp only [dispatches, hread, h, List.drop_length]

theorem dispatches_call {chunk : Bytes × Timestamp} {req : HttpRequest}
    (hread : s.handleRead cb k chunk = .ok s') (h : s'.requests = s.requests ++ [req])
    (seen : Bytes) (rest : List (Bytes × Timestamp)) :
    dispatches cb k s seen (chunk :: rest) =
      (seen ++ consumed s s' chunk, req) :: dispatches cb k s' [] rest := by
  simp only [dispatches, hread, h, List.drop_left]
  rfl

theorem consumed_append {chunk : Bytes × Timestamp}
    (h : s'.inputBuffer <:+ s.inputBuffer ++ chunk.1) :
    consumed s s' chunk ++ s'.inputBuffer = s.inputBuffer ++ chunk.1 := by
  obtain ⟨v, hv⟩ := h
  rw [consumed, ← hv, List.length_append, Nat.add_sub_cancel, List.take_left]

/-! ## One chunk -/

/-- The bytes `u` are received and not answered, and no assertion is in the
way. -/
structure Live (s : HttpConnection) (u : Bytes) : Prop where
  holds : s.Holds u
  clean : s.context.Clean

/-- The first line in the buffer will never be consumed. -/
structure Stuck (s : HttpConnection) : Prop where
  state : s.context.state = .kExpectRequestLine
  deadEnd : DeadEnd s.inputBuffer

theorem live_reset {v : Bytes} {c : HttpContext} (hc : s.context = c.reset)
    (hv : s.inputBuffer = v) : s.Live v where
  holds := holds_reset hc hv
  clean := by
    rw [hc]
    exact ⟨Or.inl rfl, fun _ => rfl⟩

theorem live_established : established.Live [] := live_reset (c := .new) rfl rfl

/-- A stuck connection stays so, and calls nobody. -/
theorem Stuck.step (h : s.Stuck) {chunk : Bytes × Timestamp}
    (hread : s.handleRead cb k chunk = .ok s') : s'.Stuck ∧ s'.requests = s.requests := by
  have hdead := h.deadEnd.append chunk.1
  rw [handleRead_run (Or.inl h.state)] at hread
  cases hr : (parser chunk.2).run s.context (s.inputBuffer ++ chunk.1) with
  | error e => rw [hr] at hread; cases hread
  | ok o =>
      obtain ⟨st, c, rest⟩ := o
      obtain ⟨rfl, hc, rfl⟩ := run_deadEnd h.state hdead hr
      rw [hr] at hread
      cases hread
      exact ⟨⟨hc, hdead⟩, rfl⟩

/-- **All a chunk can do** to a live connection: the parser's verdict is that
of a fresh parser on the bytes not answered; waiting, they are kept; done,
what is left over is all there is; rejected, the connection is stuck. -/
theorem Live.handle (h : s.Live u) (cb : HttpCallback) (k : Kernel) (chunk : Bytes × Timestamp) :
    ∃ st c rest, (parser chunk.2).run s.context (s.inputBuffer ++ chunk.1) = .ok (st, c, rest) ∧
      s.handleRead cb k chunk = .ok (afterRun cb k s (st, c, rest)) ∧
      rest <:+ s.inputBuffer ++ chunk.1 ∧
      (∃ c₀, Fresh c₀ ∧ (parser .invalid).run c₀ (u ++ chunk.1) = .ok (st, c.eraseTime, rest) ∧
        ∀ more, (parser .invalid).run c₀ (u ++ chunk.1 ++ more) =
          (parser .invalid).resume more (.ok (st, c.eraseTime, rest))) ∧
      (st = .waiting → (afterRun cb k s (st, c, rest)).Live (u ++ chunk.1)) ∧
      (st = .done → (afterRun cb k s (st, c, rest)).Live rest) ∧
      (st = .rejected → (afterRun cb k s (st, c, rest)).Stuck) := by
  obtain ⟨st, c, rest, hr, hwait, hrej⟩ :=
    run_clean (t := chunk.2) h.clean (s.inputBuffer ++ chunk.1)
  refine ⟨st, c, rest, hr, ?_, LineMachine.run_suffix hr, h.holds.run_eq hr, ?_, ?_, ?_⟩
  · rw [handleRead_run h.clean.1, hr]
    rfl
  · rintro rfl
    exact ⟨h.holds.waiting hr, hwait rfl⟩
  · rintro rfl
    exact live_reset rfl rfl
  · rintro rfl
    obtain ⟨hstate, i, hs, hfalse⟩ := hrej rfl
    have hline : ¬IsRequestLine ((s.inputBuffer ++ chunk.1).take i) := by
      intro hline
      obtain ⟨d, hd⟩ := (processRequestLine_true_iff (h.clean.2 hstate)).mpr hline
      rw [hd] at hfalse
      cases hfalse
    have hdead : DeadEnd (s.inputBuffer ++ chunk.1) := ⟨i, hs, hline⟩
    obtain ⟨-, hc, rfl⟩ := run_deadEnd hstate hdead hr
    exact ⟨hc, hdead⟩

/-! ## Whole runs -/

theorem Stuck.dispatches_eq (h : s.Stuck) (seen : Bytes) (chunks : List (Bytes × Timestamp)) :
    dispatches cb k s seen chunks = [] := by
  induction chunks generalizing s seen with
  | nil => rfl
  | cons chunk rest ih =>
      cases hr : s.handleRead cb k chunk with
      | error e => simp only [dispatches, hr]
      | ok s' =>
          obtain ⟨hstuck, hreq⟩ := h.step hr
          rw [dispatches_quiet hr hreq]
          exact ih hstuck _

/-- **A request is what a new connection would make of its bytes.** -/
theorem dispatches_fresh (chunks : List (Bytes × Timestamp)) : ∀ {s : HttpConnection}
    {seen : Bytes}, s.Live (seen ++ s.inputBuffer) → ∀ d ∈ dispatches cb k s seen chunks,
      ∃ c, (parser .invalid).run .new d.1 = .ok (.done, c, []) ∧
        c.request = d.2.setReceiveTime .invalid := by
  induction chunks with
  | nil => intro s seen _ d hd; cases hd
  | cons chunk rest ih =>
      intro s seen h d hd
      obtain ⟨st, c, left, -, hread, hsuffix, ⟨c₀, hfresh, hrun, -⟩, hwait, hdone, hrej⟩ :=
        h.handle cb k chunk
      have hbytes : seen ++ s.inputBuffer ++ chunk.1 =
          seen ++ consumed s (afterRun cb k s (st, c, left)) chunk ++ left := by
        have hbuf : (afterRun cb k s (st, c, left)).inputBuffer = left := by cases st <;> rfl
        have hcons := consumed_append (hbuf.symm ▸ hsuffix)
        rw [List.append_assoc, ← hcons, hbuf, List.append_assoc]
      cases st with
      | waiting =>
          rw [dispatches_quiet hread rfl] at hd
          have hlive := hwait rfl
          rw [hbytes] at hlive
          exact ih hlive d hd
      | done =>
          rw [dispatches_call hread (rfl : _ = _ ++ [c.request]), List.mem_cons] at hd
          rcases hd with rfl | hd
          · refine ⟨c.eraseTime, ?_, rfl⟩
            rw [hbytes] at hrun
            exact run_fresh_congr hfresh fresh_new hrun
          · exact ih (hdone rfl) d hd
      | rejected =>
          rw [dispatches_quiet hread rfl, (hrej rfl).dispatches_eq] at hd
          cases hd

/-- **Requests are isolated**: each call of `httpCallback_` gets what
`parseRequest` makes, in a new context, of the bytes consumed since the call
before, and nothing else; so two connections, whatever happened on them
before, get the same request from the same bytes. -/
theorem requests_isolated (cb : HttpCallback) (k : Kernel) (chunks : List (Bytes × Timestamp))
    (d : Bytes × HttpRequest) (hd : d ∈ dispatches cb k established [] chunks) :
    (∃ p, parseRequest d.1 .new .invalid = .ok p ∧ p.context.gotAll = true ∧ p.buf = [] ∧
      d.2.Agrees p.context.request) ∧
      ∀ cb' k' chunks', ∀ d' ∈ dispatches cb' k' established [] chunks', d'.1 = d.1 →
        d'.2.Agrees d.2 := by
  obtain ⟨c, hrun, hreq⟩ := dispatches_fresh chunks live_established d hd
  constructor
  · refine ⟨.ofRun (.done, c, []), ?_, ?_, rfl, HttpRequest.agrees_of_erased ?_⟩
    · rw [parseRequest_bytes _ HttpContext.parsing_new, hrun]
      rfl
    · have hstate : c.state = .kGotAll := run_state HttpContext.parsing_new hrun
      simp only [Parsed.ofRun, HttpContext.gotAll, hstate]
      rfl
    · change _ = c.request.setReceiveTime .invalid
      rw [hreq]
      rfl
  · intro cb' k' chunks' d' hd' hsame
    obtain ⟨c', hrun', hreq'⟩ := dispatches_fresh chunks' live_established d' hd'
    rw [hsame, hrun] at hrun'
    cases hrun'
    exact HttpRequest.agrees_of_erased (hreq'.symm.trans hreq)

/-- A `POST` with a header leaves no trace on the `GET` after it. -/
theorem requests_isolated_getRoot : ∃ req req',
    (getRoot.render, req) ∈
        dispatches keepOpen .eager established [] [(getRoot.render, .invalid)] ∧
      (getRoot.render, req') ∈ dispatches keepOpen .eager established []
        [(str "POST /a HTTP/1.0\r\nX:1\r\n\r\n", .invalid), (getRoot.render, .invalid)] ∧
      req'.Agrees req := by
  have hd : (getRoot.render, getRoot.toRequest) ∈
      dispatches keepOpen .eager established [] [(getRoot.render, .invalid)] := by
    decide +kernel
  have hd' : (getRoot.render, getRoot.toRequest) ∈ dispatches keepOpen .eager established []
      [(str "POST /a HTTP/1.0\r\nX:1\r\n\r\n", .invalid), (getRoot.render, .invalid)] := by
    decide +kernel
  exact ⟨_, _, hd, hd', (requests_isolated _ _ _ _ hd).2 _ _ _ _ hd' rfl⟩

end HttpConnection

end Muduo
