import Muduo.Http.Termination
import Muduo.Lib.Lts

/-!
# The server over the code's own buffers

`HttpConnection` is handed its chunks and keeps the bytes not yet read as a
string. Here the connection is the program's: `TcpConnection::handleRead`
with its three branches, an input `Buffer` that `readFd` fills, and a
response that `appendToBuffer` builds string by string in another. Whatever
`readv` returns, the one does what the other does (`wired_refines`), so that
what is proved of chunks holds of the bytes in the vector, up to the first
response with a string that is too long for a `StringPiece`.
-/

namespace Muduo

open Lib InputBuffer Buffer

/-! ## The connection -/

/-- A fault of the parser, of a buffer, or the assertion in `handleClose`. -/
inductive WireFault where
  | http (e : HttpFault)
  | buffer (e : BufferFault)
  | handleClose
deriving DecidableEq

structure WiredConnection where
  conn : TcpConnection
  inputBuffer : CheckedBuffer
  context : HttpContext
  /-- `channel_` waits for events. -/
  reading : Bool
  /-- The requests `httpCallback_` was called with. -/
  requests : List HttpRequest
  /-- What it made of each response. -/
  responses : List HttpResponse

namespace WiredConnection

/-- After `connectEstablished` and `onConnection`. -/
def established : WiredConnection := ⟨.established, .new, .new, true, [], []⟩

def onRequest (httpCallback : HttpCallback) (k : Kernel) (s : WiredConnection)
    (req : HttpRequest) : Except WireFault WiredConnection := do
  let close := HttpConnection.wantsClose req
  let response := httpCallback s.requests.length req (.new close)
  let buf ← (response.appendToBuffer .new).mapError .buffer
  let conn := (s.conn.sendBuffer k true buf).1
  let conn := if response.closeConnection then conn.shutdown k true else conn
  return { s with
    conn := conn
    requests := s.requests ++ [req]
    responses := s.responses ++ [response] }

def onMessage (httpCallback : HttpCallback) (k : Kernel) (s : WiredConnection)
    (receiveTime : Timestamp) : Except WireFault WiredConnection := do
  let p ← (parseRequest s.inputBuffer s.context receiveTime).mapError .http
  let s := { s with inputBuffer := p.buf, context := p.context }
  let s :=
    if !p.ok then { s with
      conn := (s.conn.sendPiece k true HttpConnection.badRequest).shutdown k true }
    else s
  if s.context.gotAll then
    let s ← s.onRequest httpCallback k s.context.request
    return { s with context := s.context.reset }
  else return s

/-- The callbacks it ends in do nothing to the connection. -/
def handleClose (s : WiredConnection) : Except WireFault WiredConnection := do
  check (s.conn.state = .kConnected ∨ s.conn.state = .kDisconnecting) .handleClose
  return { s with conn := s.conn.setState .kDisconnected, reading := false }

/-- Writes a line to the log. -/
def handleError (s : WiredConnection) : WiredConnection := s

def handleRead (httpCallback : HttpCallback) (k : Kernel) (s : WiredConnection) (readv : Readv)
    (hfit : readv.n ≤ s.inputBuffer.1.writableBytes + extrabufSize) (receiveTime : Timestamp) :
    Except WireFault WiredConnection := do
  let (n, _, buf) ← (s.inputBuffer.readFd 0 readv hfit).mapError .buffer
  let s := { s with inputBuffer := buf }
  if 0 < n then s.onMessage httpCallback k receiveTime
  else if n = 0 then s.handleClose
  else return s.handleError

/-- The poller finds the descriptor readable, and `readv` returns what it may:
no more than the two vectors hold. -/
def Enabled (s : WiredConnection) (a : Readv × Timestamp) : Prop :=
  s.reading = true ∧ a.1.n ≤ s.inputBuffer.1.writableBytes + extrabufSize

instance (s : WiredConnection) (a : Readv × Timestamp) : Decidable (s.Enabled a) :=
  inferInstanceAs (Decidable (_ ∧ _))

def next (httpCallback : HttpCallback) (k : Kernel) (s : WiredConnection) (a : Readv × Timestamp) :
    Except WireFault WiredConnection :=
  if h : s.Enabled a then s.handleRead httpCallback k a.1 h.2 a.2 else .ok s

/-- A connection in its loop. -/
def serves (httpCallback : HttpCallback) (k : Kernel) :
    Lts WiredConnection (Readv × Timestamp) WireFault where
  init s := s = established
  enabled := Enabled
  next := next httpCallback k

instance (httpCallback : HttpCallback) (k : Kernel) (s : WiredConnection) :
    ∀ a, Decidable ((serves httpCallback k).enabled s a) :=
  fun a => inferInstanceAs (Decidable (s.Enabled a))

end WiredConnection

/-! ## What it refines -/

/-- The same result of `readv` on the connection whose bytes are a string. -/
def HttpConnection.onRead (httpCallback : HttpCallback) (k : Kernel) (s : HttpConnection)
    (a : Readv × Timestamp) : Except HttpFault HttpConnection :=
  if 0 < a.1.n then s.handleRead httpCallback k (a.1.data, a.2)
  else if a.1.n = 0 then .ok { s with conn := s.conn.setState .kDisconnected }
  else .ok s

/-- All bytes that `readv` returned. -/
def received (reads : List (Readv × Timestamp)) : Bytes := (reads.map (·.1.data)).flatten

/-- The vector of a `Buffer` that holds the response would be too large. -/
def HttpResponse.TooLong (r : HttpResponse) : Prop := maxSize < kCheapPrepend + r.text.length

namespace CheckedBuffer

/-- `retrieve` moves an index and leaves the vector alone. -/
theorem size_retrieve (b : CheckedBuffer) (n : Nat) : size (retrieve b n) = size b := by
  unfold InputBuffer.retrieve instInputBufferBuffer
  dsimp only
  split
  · split
    · rename_i b' hr
      unfold Buffer.retrieve at hr
      obtain ⟨_, -, hr⟩ := bind_eq_ok hr
      split at hr <;> cases hr <;> rfl
    · rfl
  · rfl

end CheckedBuffer

section Parse

variable {β : Type} [InputBuffer β] {t : Timestamp}

/-- An iteration leaves the buffer alone or takes a line off it. -/
theorem parseBody_buf {s s' : ParseState β} (h : parseBody t s = .ok s') :
    s'.buf = s.buf ∨ ∃ n, s'.buf = retrieve s.buf n := by
  unfold parseBody at h
  split at h
  · split at h
    · obtain ⟨⟨ok, c⟩, -, h⟩ := bind_eq_ok h
      cases ok <;> cases h
      · exact Or.inl rfl
      · exact Or.inr ⟨_, rfl⟩
    · cases h
      exact Or.inl rfl
  · split at h
    · split at h
      · dsimp only at h
        split at h <;> cases h <;> exact Or.inr ⟨_, rfl⟩
      · cases h
        exact Or.inl rfl
    · split at h <;> cases h <;> exact Or.inl rfl

/-- What `retrieve` keeps of a buffer, `parseRequest` does. -/
theorem parseRequest_keeps {P : β → Prop} (hP : ∀ b n, P b → P (retrieve b n)) {buf : β}
    {c : HttpContext} {p : Parsed β} (hbuf : P buf) (h : parseRequest buf c t = .ok p) :
    P p.buf := by
  unfold parseRequest at h
  split at h
  · rename_i s hs
    cases h
    refine whileFuel_invariant (I := fun s : ParseState β => P s.buf) ?_ hbuf hs
    intro s s' hs hb
    rcases parseBody_buf hb with heq | ⟨n, heq⟩ <;> rw [heq]
    · exact hs
    · exact hP _ _ hs
  · cases h
  · cases h

end Parse

namespace WiredConnection

variable {cb : HttpCallback} {k : Kernel} {w w' : WiredConnection} {a : Readv × Timestamp}
  {reads : List (Readv × Timestamp)}

/-- The connection with the content of its buffer for the buffer. -/
def abs (w : WiredConnection) : HttpConnection :=
  ⟨w.conn, w.inputBuffer.1.content, w.context, w.requests, w.responses⟩

/-! ## One call -/

/-- A response with a string that is too long for a `StringPiece`. -/
def Long (s : HttpConnection) : Prop := ∃ r ∈ s.responses.getLast?, ¬r.Short

/-- The response goes out as its text, unless a string of it is too long. -/
theorem onRequest_abs (w : WiredConnection) (req : HttpRequest) :
    (∃ w', w.onRequest cb k req = .ok w' ∧ w'.abs = w.abs.onRequest cb k req ∧
      w'.inputBuffer = w.inputBuffer ∧ w'.context = w.context ∧ w'.reading = w.reading) ∨
    (w.onRequest cb k req = .error (.buffer .lengthError) ∧
      ∃ r ∈ (w.abs.onRequest cb k req).responses.getLast?, r.TooLong) ∨
    (Long (w.abs.onRequest cb k req) ∧ ∀ w', w.onRequest cb k req = .ok w' →
      w'.responses = (w.abs.onRequest cb k req).responses) := by
  have hlast : (w.abs.onRequest cb k req).responses.getLast? =
      some (cb w.requests.length req (.new (HttpConnection.wantsClose req))) :=
    List.getLast?_concat
  unfold Long onRequest
  simp only [HttpConnection.onRequest, TcpConnection.sendBuffer_eq_sendPiece] at hlast ⊢
  generalize hr : cb w.requests.length req (.new (HttpConnection.wantsClose req)) = r at hlast ⊢
  have hr' : cb w.abs.requests.length req (.new (HttpConnection.wantsClose req)) = r := hr
  rw [hr'] at hlast ⊢
  rw [HttpResponse.appendToBuffer_pieces]
  by_cases hshort : r.Short
  · rcases CheckedBuffer.appended_new.strings_short hshort with ⟨buf, hbuf, happ⟩ | ⟨herr, hover⟩
    · left
      have hread : readable buf = r.text := happ.content
      rw [hbuf]
      refine ⟨_, rfl, ?_, rfl, rfl, rfl⟩
      rw [hread]
      rfl
    · right
      left
      rw [herr]
      exact ⟨rfl, r, hlast, hover⟩
  · right
    right
    refine ⟨⟨r, hlast, hshort⟩, fun w' hw' => ?_⟩
    obtain ⟨buf, -, hw'⟩ := bind_eq_ok hw'
    obtain rfl := Except.ok.inj hw'
    rfl

/-- How a call on the buffers compares with the same call on strings: a vector
that would be too large is that of a response, or, when the bytes received
allow for it, that of the input buffer. With too long a string in a response
the two part. -/
inductive Agrees (large : Prop) :
    Except WireFault WiredConnection → Except HttpFault HttpConnection → Prop where
  | ok (w : WiredConnection) : Agrees large (.ok w) (.ok w.abs)
  | http (e : HttpFault) : Agrees large (.error (.http e)) (.error e)
  | response {s : HttpConnection} {r : HttpResponse} : r ∈ s.responses.getLast? → r.TooLong →
      Agrees large (.error (.buffer .lengthError)) (.ok s)
  | input (s : Except HttpFault HttpConnection) : large →
      Agrees large (.error (.buffer .lengthError)) s
  | long {w : Except WireFault WiredConnection} {s : HttpConnection} : Long s →
      (∀ w', w = .ok w' → w'.responses = s.responses) → Agrees large w (.ok s)

theorem Agrees.eq_ok {large : Prop} {s : Except HttpFault HttpConnection}
    (h : Agrees large (.ok w) s) (hshort : ∀ r ∈ w.responses, r.Short) : s = .ok w.abs := by
  cases h with
  | ok => rfl
  | long hlong hsame =>
      obtain ⟨r, hr, hnot⟩ := hlong
      rw [← hsame w rfl] at hr
      exact absurd (hshort r (List.mem_of_getLast? hr)) hnot

theorem parseRequest_content (b : CheckedBuffer) {c : HttpContext} (hp : c.Parsing)
    (t : Timestamp) : parseRequest b.1.content c t = (parseRequest b c t).map Parsed.seen := by
  rw [parseRequest_bytes _ hp, parseRequest_run b hp]
  rfl

theorem onMessage_agrees (hp : w.context.Parsing) (t : Timestamp) (large : Prop) :
    Agrees large (w.onMessage cb k t) (w.abs.onMessage cb k t) := by
  have hparse : parseRequest w.abs.inputBuffer w.abs.context t = _ :=
    parseRequest_content w.inputBuffer hp t
  unfold onMessage HttpConnection.onMessage
  rw [hparse]
  cases parseRequest w.inputBuffer w.context t with
  | error e => exact .http e
  | ok p =>
      obtain ⟨ok, c, buf⟩ := p
      have hrest (w₁ : WiredConnection) : Agrees large
          (if w₁.context.gotAll then
              w₁.onRequest cb k w₁.context.request >>= fun s =>
                .ok { s with context := s.context.reset }
            else .ok w₁)
          (if w₁.context.gotAll then
              .ok { w₁.abs.onRequest cb k w₁.context.request with
                context := w₁.context.reset }
            else .ok w₁.abs) := by
        cases hgot : w₁.context.gotAll with
        | false =>
            rw [if_neg Bool.false_ne_true, if_neg Bool.false_ne_true]
            exact .ok w₁
        | true =>
            rw [if_pos rfl, if_pos rfl]
            rcases @onRequest_abs cb k w₁ w₁.context.request with
              ⟨w', hw', habs, -, hctx, -⟩ | ⟨herr, r, hr, hover⟩ | ⟨hlong, hsame⟩
            · rw [hw', ok_bind, ← habs, ← hctx]
              exact .ok _
            · rw [herr]
              exact .response hr hover
            · refine .long hlong fun w' hw' => ?_
              obtain ⟨w₂, hw₂, hw'⟩ := bind_eq_ok hw'
              obtain rfl := Except.ok.inj hw'
              exact hsame w₂ hw₂
      cases ok with
      | true => exact hrest { w with inputBuffer := buf, context := c }
      | false =>
          exact hrest { w with
            inputBuffer := buf
            context := c
            conn := (w.conn.sendPiece k true HttpConnection.badRequest).shutdown k true }

/-! ## What a call keeps -/

/-- `handleClose` may be called. -/
def Up (c : TcpConnection) : Prop := c.state = .kConnected ∨ c.state = .kDisconnecting

theorem up_sendPiece {c : TcpConnection} (h : Up c) (message : Bytes) :
    Up (c.sendPiece k true message) := by
  have hstate : (c.sendPiece k true message).state = c.state := by
    unfold TcpConnection.sendPiece
    split <;> rfl
  rwa [Up, hstate]

theorem up_shutdown {c : TcpConnection} (h : Up c) : Up (c.shutdown k true) := by
  unfold TcpConnection.shutdown
  split
  · right
    unfold TcpConnection.runInLoop TcpConnection.runFunctor TcpConnection.shutdownInLoop
    cases hw : c.isWriting <;> simp [TcpConnection.setState, hw]
  · exact h

/-- What `onMessage` does not change, or not for the worse. -/
structure Keeps (w w' : WiredConnection) : Prop where
  up : Up w.conn → Up w'.conn
  reading : w'.reading = w.reading
  size : w'.inputBuffer.size = w.inputBuffer.size
  responses : w.responses <+: w'.responses

theorem onRequest_keeps {req : HttpRequest} (h : w.onRequest cb k req = .ok w') : Keeps w w' := by
  obtain ⟨buf, -, h⟩ := bind_eq_ok h
  obtain rfl := Except.ok.inj h
  refine ⟨fun hup => ?_, rfl, rfl, List.prefix_append _ _⟩
  rw [TcpConnection.sendBuffer_eq_sendPiece]
  dsimp only
  split
  · exact up_shutdown (up_sendPiece hup _)
  · exact up_sendPiece hup _

theorem onMessage_keeps {t : Timestamp} (h : w.onMessage cb k t = .ok w') : Keeps w w' := by
  obtain ⟨p, hp, h⟩ := bind_eq_ok h
  have hsize : p.buf.size = w.inputBuffer.size :=
    parseRequest_keeps (P := fun b : CheckedBuffer => b.size = w.inputBuffer.size)
      (fun b n hb => (CheckedBuffer.size_retrieve b n).trans hb) rfl (ok_of_mapError hp)
  have hrest (w₁ : WiredConnection) (hkeeps : Keeps w w₁)
      (h : (if w₁.context.gotAll then
          w₁.onRequest cb k w₁.context.request >>= fun s =>
            .ok { s with context := s.context.reset }
        else .ok w₁) = .ok w') : Keeps w w' := by
    split at h
    · obtain ⟨w₂, hw₂, h⟩ := bind_eq_ok h
      obtain rfl := Except.ok.inj h
      have hk := onRequest_keeps hw₂
      exact ⟨hk.up ∘ hkeeps.up, hk.reading.trans hkeeps.reading, hk.size.trans hkeeps.size,
        hkeeps.responses.trans hk.responses⟩
    · obtain rfl := Except.ok.inj h
      exact hkeeps
  obtain ⟨ok, c, buf⟩ := p
  cases ok with
  | true => exact hrest { w with inputBuffer := buf, context := c } ⟨id, rfl, hsize, List.prefix_rfl⟩ h
  | false =>
      exact hrest { w with
        inputBuffer := buf
        context := c
        conn := (w.conn.sendPiece k true HttpConnection.badRequest).shutdown k true }
        ⟨fun hup => up_shutdown (up_sendPiece hup _), rfl, hsize, List.prefix_rfl⟩ h

/-- Responses are only added. -/
theorem next_responses (he : w.Enabled a) (hn : w.next cb k a = .ok w') :
    w.responses <+: w'.responses := by
  unfold WiredConnection.next at hn
  rw [dif_pos he] at hn
  obtain ⟨⟨n, errno, buf⟩, -, hn⟩ := bind_eq_ok hn
  dsimp only at hn
  split at hn
  · exact (onMessage_keeps hn).responses
  · split at hn
    · obtain ⟨-, -, hn⟩ := bind_eq_ok hn
      obtain rfl := Except.ok.inj hn
      exact List.prefix_rfl
    · obtain rfl := Except.ok.inj hn
      exact List.prefix_rfl

/-! ## Whole runs -/

theorem received_snoc (reads : List (Readv × Timestamp)) (a : Readv × Timestamp) :
    received (reads ++ [a]) = received reads ++ a.1.data := by
  simp [received]

/-- After these reads: the parser is in a state with a branch, the connection
is up while it is read from, and the vector is no larger than the bytes
received make it. -/
structure Sound (reads : List (Readv × Timestamp)) (w : WiredConnection) : Prop where
  parsing : w.context.Parsing
  up : w.reading = true → Up w.conn
  size : w.inputBuffer.size ≤ kCheapPrepend + kInitialSize + (received reads).length

theorem sound_established : Sound [] established where
  parsing := HttpContext.parsing_new
  up _ := Or.inl rfl
  size := CheckedBuffer.size_new.le.trans (Nat.le_add_right _ _)

/-- The vector that holds the bytes of these reads would be too large. -/
def Large (reads : List (Readv × Timestamp)) : Prop :=
  maxSize < kCheapPrepend + kInitialSize + (received reads).length

/-- **One result of `readv`.** -/
theorem Sound.next (h : Sound reads w) (he : w.Enabled a) :
    Agrees (Large (reads ++ [a])) (w.next cb k a) (w.abs.onRead cb k a) ∧
      ∀ w', w.next cb k a = .ok w' → (∀ r ∈ w'.responses, r.Short) →
        Sound (reads ++ [a]) w' := by
  have hsize := h.size
  unfold WiredConnection.next
  rw [dif_pos he]
  unfold handleRead HttpConnection.onRead
  rcases w.inputBuffer.readFd_cases 0 a.1 he.2 with
    ⟨errno, buf, hbuf, hcontent, hgrown⟩ | ⟨herr, hn, hover⟩
  · have hbound : buf.size ≤ kCheapPrepend + kInitialSize + (received (reads ++ [a])).length := by
      rw [received_snoc, List.length_append]
      omega
    rw [hbuf]
    dsimp only [Except.mapError]
    rw [ok_bind]
    dsimp only
    by_cases hpos : 0 < a.1.n
    · rw [if_pos hpos, if_pos hpos]
      have hagree := @onMessage_agrees cb k { w with inputBuffer := buf }
        h.parsing a.2 (Large (reads ++ [a]))
      have habs : (WiredConnection.abs { w with inputBuffer := buf }).onMessage cb k a.2 =
          w.abs.handleRead cb k (a.1.data, a.2) := by
        rw [HttpConnection.handleRead, abs, hcontent]
        rfl
      rw [habs] at hagree
      refine ⟨hagree, fun w' hw' hshort => ?_⟩
      have hkeeps := onMessage_keeps hw'
      rw [hw'] at hagree
      exact {
        parsing := HttpConnection.handleRead_parsing (s := w.abs) h.parsing (hagree.eq_ok hshort)
        up := fun hr => hkeeps.up (h.up (hkeeps.reading ▸ hr))
        size := hkeeps.size ▸ hbound }
    · rw [if_neg hpos, if_neg hpos]
      have hdata : a.1.data = [] := by
        apply List.eq_nil_of_length_eq_zero
        rw [a.1.stored]
        omega
      have hsame : buf.1.content = w.inputBuffer.1.content := by
        rw [hcontent, hdata, List.append_nil]
      by_cases hzero : a.1.n = 0
      · have hup : w.conn.state = .kConnected ∨ w.conn.state = .kDisconnecting := h.up he.1
        rw [if_pos hzero, if_pos hzero, handleClose, check_of hup, ok_bind]
        have hagree := @Agrees.ok (Large (reads ++ [a]))
          { w with inputBuffer := buf, conn := w.conn.setState .kDisconnected, reading := false }
        rw [abs, hsame] at hagree
        refine ⟨hagree, fun w' hw' _ => ?_⟩
        obtain rfl := Except.ok.inj hw'
        exact ⟨h.parsing, nofun, hbound⟩
      · rw [if_neg hzero, if_neg hzero]
        have hagree := @Agrees.ok (Large (reads ++ [a])) { w with inputBuffer := buf }
        rw [abs, hsame] at hagree
        refine ⟨hagree, fun w' hw' _ => ?_⟩
        obtain rfl := Except.ok.inj hw'
        exact ⟨h.parsing, h.up, hbound⟩
  · have hlarge : Large (reads ++ [a]) := by
      rw [Large, received_snoc, List.length_append]
      omega
    rw [herr, if_pos hn]
    exact ⟨.input _ hlarge, fun w' hw' => by cases hw'⟩

/-- **A run**, on the buffers and on strings. -/
theorem run_abs (hrun : (serves cb k).Run established reads w)
    (hshort : ∀ r ∈ w.responses, r.Short) :
    reads.foldlM (HttpConnection.onRead cb k) HttpConnection.established = .ok w.abs ∧
      Sound reads w := by
  induction hrun with
  | nil =>
      refine ⟨?_, sound_established⟩
      rw [abs, established, CheckedBuffer.new, content_new]
      rfl
  | @snoc w w' reads a _ he hn ih =>
      have hn' : w.next cb k a = .ok w' := hn
      have hbefore : ∀ r ∈ w.responses, r.Short := fun r hr =>
        hshort r ((next_responses he hn').subset hr)
      obtain ⟨hfold, hsound⟩ := ih hbefore
      obtain ⟨hagree, hkeeps⟩ := @Sound.next cb k _ _ _ hsound he
      rw [hn'] at hagree
      refine ⟨?_, hkeeps w' hn' hshort⟩
      rw [List.foldlM_append, hfold, ok_bind, List.foldlM_cons, hagree.eq_ok hshort]
      rfl

/-- **The server on the code's buffers is the server on byte strings.** After
any results of `readv`, the connection with the content of its buffer for the
buffer is what the same bytes make of a connection that keeps a string; and
whatever `readv` returns next, the two do the same: they go on alike, or both
fail in the parser, on the same assertion. No assertion of `Buffer` or of
`handleClose` fails, and the one thing that can go wrong on the buffers alone
is a vector past `max_size()`. All this as long as no response has a string
that is too long for a `StringPiece`. -/
theorem wired_refines (cb : HttpCallback) (k : Kernel) (reads : List (Readv × Timestamp))
    (w : WiredConnection) (hrun : (serves cb k).Run established reads w)
    (hshort : ∀ r ∈ w.responses, r.Short) :
    reads.foldlM (HttpConnection.onRead cb k) HttpConnection.established = .ok w.abs ∧
      w.inputBuffer.size ≤ kCheapPrepend + kInitialSize + (received reads).length ∧
      ∀ a, w.Enabled a →
        Agrees (Large (reads ++ [a])) (w.next cb k a) (w.abs.onRead cb k a) := by
  obtain ⟨hfold, hsound⟩ := run_abs hrun hshort
  exact ⟨hfold, hsound.size, fun a he => (hsound.next he).1⟩

/-- A request and the start of another in one read. -/
def twoParts : Readv :=
  ⟨24, 0, str "GET / HTTP/1.1\r\n\r\nPOST /", rfl⟩

theorem wired_refines_twoParts : ∃ w : WiredConnection, w.requests.length = 1 ∧
    w.inputBuffer.1.content = str "POST /" ∧
    [(twoParts, Timestamp.invalid)].foldlM (HttpConnection.onRead defaultHttpCallback .eager)
      HttpConnection.established = .ok w.abs := by
  obtain ⟨w, hw, hp⟩ := Option.map_eq_some_iff.mp
    (show ((serves defaultHttpCallback .eager).exec established [(twoParts, .invalid)]).map
      (fun w => decide ((w.requests.length = 1 ∧ w.inputBuffer.1.content = str "POST /") ∧
        ∀ r ∈ w.responses, r.Short)) = some true by decide +kernel)
  obtain ⟨⟨hreqs, hcontent⟩, hshort⟩ := of_decide_eq_true hp
  exact ⟨w, hreqs, hcontent, (wired_refines _ _ _ w (Lts.run_of_exec hw) hshort).1⟩

end WiredConnection

end Muduo
