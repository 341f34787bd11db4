import Muduo.Http.Fragment
import Muduo.Http.Response
import Muduo.Net.TcpConnection

/-!
# `HttpServer::onMessage` on one connection

The connection, its input buffer and the `HttpContext` bound to it, with a
record of what `httpCallback_` was called with and made of the response.
`handleRead` is the arrival of one chunk: `readFd` appends it to the input
buffer, then the message callback runs. It does not look at the state of
the connection, so chunks keep being handled after `shutdown`, which closes
the write half only.

`handleRead_run` reads a call off the run of the parser; the two facts about
chunk sequences (`Pipeline`, `Reentry`) start from it.
-/

namespace Muduo

open Lib

/-- `httpCallback_`: any function of the request and of how often it has been
called before. -/
abbrev HttpCallback := Nat → HttpRequest → HttpResponse → HttpResponse

/-- `defaultHttpCallback` -/
def defaultHttpCallback : HttpCallback := fun _ _ resp =>
  ((resp.setStatusCode .k404NotFound).setStatusMessage (str "Not Found")).setCloseConnection true

structure HttpConnection where
  conn : TcpConnection
  inputBuffer : Bytes
  context : HttpContext
  /-- The requests `httpCallback_` was called with. -/
  requests : List HttpRequest
  /-- What it made of each response. -/
  responses : List HttpResponse
deriving DecidableEq

namespace HttpConnection

/-- After `connectEstablished` and `onConnection`. -/
def established : HttpConnection := ⟨.established, [], .new, [], []⟩

def badRequest : Bytes := str "HTTP/1.1 400 Bad Request" ++ HttpResponse.crlf ++ HttpResponse.crlf

/-- Is the connection to be closed after the response to `req`? -/
def wantsClose (req : HttpRequest) : Bool :=
  let connection := req.getHeader (str "Connection")
  connection = str "close" || (req.version = .kHttp10 && connection ≠ str "Keep-Alive")

/-- What `appendToBuffer` makes of the response is its text, as long as no string
of it is too long for a `StringPiece`. -/
def onRequest (httpCallback : HttpCallback) (k : Kernel) (s : HttpConnection)
    (req : HttpRequest) : HttpConnection :=
  let close := wantsClose req
  let response := httpCallback s.requests.length req (.new close)
  let buf : Bytes := response.text
  let conn := (s.conn.sendBuffer k true buf).1
  let conn := if response.closeConnection then conn.shutdown k true else conn
  { s with
    conn := conn
    requests := s.requests ++ [req]
    responses := s.responses ++ [response] }

def onMessage (httpCallback : HttpCallback) (k : Kernel) (s : HttpConnection)
    (receiveTime : Timestamp) : Except HttpFault HttpConnection := do
  let p ← parseRequest s.inputBuffer s.context receiveTime
  let s := { s with inputBuffer := p.buf, context := p.context }
  let s :=
    if !p.ok then { s with conn := (s.conn.sendPiece k true badRequest).shutdown k true } else s
  if s.context.gotAll then
    let s := s.onRequest httpCallback k s.context.request
    return { s with context := s.context.reset }
  else return s

/-- A chunk arrives. -/
def handleRead (httpCallback : HttpCallback) (k : Kernel) (s : HttpConnection)
    (chunk : Bytes × Timestamp) : Except HttpFault HttpConnection :=
  onMessage httpCallback k { s with inputBuffer := s.inputBuffer ++ chunk.1 } chunk.2

/-- Chunks arrive one after the other. -/
def receive (httpCallback : HttpCallback) (k : Kernel) :
    HttpConnection → List (Bytes × Timestamp) → Except HttpFault HttpConnection
  | s, [] => .ok s
  | s, chunk :: rest => do
      let s ← s.handleRead httpCallback k chunk
      receive httpCallback k s rest

variable {cb : HttpCallback} {k : Kernel} {s s' : HttpConnection}

theorem receive_append (chunks more : List (Bytes × Timestamp)) (s : HttpConnection) :
    receive cb k s (chunks ++ more) =
      (receive cb k s chunks >>= fun s => receive cb k s more) := by
  induction chunks generalizing s with
  | nil => rfl
  | cons chunk rest ih =>
      rw [List.cons_append, receive, receive]
      cases s.handleRead cb k chunk with
      | error e => rfl
      | ok s₁ => exact ih s₁

theorem receive_snoc (chunks : List (Bytes × Timestamp)) (chunk : Bytes × Timestamp)
    (s : HttpConnection) :
    receive cb k s (chunks ++ [chunk]) =
      (receive cb k s chunks >>= fun s => s.handleRead cb k chunk) := by
  rw [receive_append]
  cases receive cb k s chunks with
  | error e => rfl
  | ok s₁ =>
      rw [ok_bind, ok_bind, receive]
      cases s₁.handleRead cb k chunk <;> rfl

/-! ## A call, by the outcome of the parser -/

/-- The connection after a call, by how the parser's run ended. -/
def afterRun (cb : HttpCallback) (k : Kernel) (s : HttpConnection) :
    Status × HttpContext × Bytes → HttpConnection
  | (.waiting, c, rest) => { s with inputBuffer := rest, context := c }
  | (.rejected, c, rest) =>
      { s with
        inputBuffer := rest
        context := c
        conn := (s.conn.sendPiece k true badRequest).shutdown k true }
  | (.done, c, rest) =>
      { onRequest cb k { s with inputBuffer := rest, context := c } c.request with
        context := c.reset }

theorem handleRead_run (hp : s.context.Parsing) (chunk : Bytes × Timestamp) :
    s.handleRead cb k chunk =
      ((parser chunk.2).run s.context (s.inputBuffer ++ chunk.1)).map (afterRun cb k s) := by
  unfold handleRead onMessage
  rw [parseRequest_bytes _ hp]
  cases hr : (parser chunk.2).run s.context (s.inputBuffer ++ chunk.1) with
  | error e => rfl
  | ok o =>
      obtain ⟨st, c, rest⟩ := o
      have hend := run_state hp hr
      cases st with
      | waiting =>
          have hg := HttpContext.Parsing.not_gotAll hend
          simp [Except.map, Parsed.ofRun, hg, afterRun, pure, Except.pure]
      | rejected =>
          have hg : c.gotAll = false := by rw [HttpContext.gotAll, hend]; rfl
          simp [Except.map, Parsed.ofRun, hg, afterRun, pure, Except.pure]
      | done =>
          have hg : c.gotAll = true := by rw [HttpContext.gotAll, hend]; rfl
          simp [Except.map, Parsed.ofRun, hg, afterRun, pure, Except.pure, onRequest]

end HttpConnection

end Muduo
