import Muduo.Buffer.Checked
import Muduo.Net.TcpConnection
import Muduo.Lib.Lts

/-!
# A client and the echo server

The two test programs at the ends of one connection: `TestServer` sends back
what `onMessage` finds in its buffer, `TestClient` sends what its user types
and may disconnect. Each end is a `TcpConnection` with an input `Buffer`,
reading by `handleRead` in its own loop; between them the kernels take a part
of each `write(2)`, hand the bytes over in order and in chunks of any size,
and let a read fail now and then.

Whatever they do, no byte comes back twice, out of its place or made up, and
both ends are left only when everything has been read. The client gets back
all it sent exactly when no `write(2)` was short: `sendInLoop` makes one call
and does not look at its result (`echo_returns`).
-/

namespace Muduo

open Lib Buffer

/-! ## What a kernel takes of a sequence of writes -/

namespace Kernel

/-- The parts taken of the data of each `write(2)`. -/
def taken (k : Kernel) (writes : List Bytes) : List Bytes :=
  writes.mapIdx fun i data => data.take (k.accepts i data)

variable (k : Kernel)

theorem taken_snoc (writes : List Bytes) (data : Bytes) :
    k.taken (writes ++ [data]) =
      k.taken writes ++ [data.take (k.accepts writes.length data)] :=
  List.mapIdx_concat

theorem flatten_taken_snoc (writes : List Bytes) (data : Bytes) :
    (k.taken (writes ++ [data])).flatten =
      (k.taken writes).flatten ++ data.take (k.accepts writes.length data) := by
  rw [taken_snoc, List.flatten_append, List.flatten_singleton]

theorem taken_sublist (writes : List Bytes) :
    (k.taken writes).flatten.Sublist writes.flatten := by
  induction writes using List.reverseRecOn with
  | nil => exact List.Sublist.refl _
  | append_singleton writes data ih =>
      rw [flatten_taken_snoc, List.flatten_append, List.flatten_singleton]
      exact ih.append (List.take_sublist _ _)

/-- As many bytes as were written are taken only if each write was taken whole. -/
theorem taken_eq_of_length {writes : List Bytes}
    (h : (k.taken writes).flatten.length = writes.flatten.length) : k.taken writes = writes := by
  induction writes using List.reverseRecOn with
  | nil => rfl
  | append_singleton writes data ih =>
      rw [flatten_taken_snoc, List.flatten_append, List.flatten_singleton, List.length_append,
        List.length_append] at h
      have hbefore := (k.taken_sublist writes).length_le
      have hlast := (List.take_sublist (k.accepts writes.length data) data).length_le
      have hwhole : data.take (k.accepts writes.length data) = data :=
        (List.take_sublist _ _).eq_of_length (by omega)
      rw [taken_snoc, ih (by omega), hwhole]

end Kernel

/-! ## One end -/

/-- What can fail in a loop that serves a connection. -/
inductive ConnectionFault where
  | buffer (e : BufferFault)
  | handleClose
deriving DecidableEq

structure Endpoint where
  conn : TcpConnection
  inputBuffer : CheckedBuffer
  /-- `channel_` waits for events. -/
  reading : Bool
  /-- `~Socket` has closed the descriptor. -/
  closed : Bool
  /-- The strings that `onMessage` took out of the buffer. -/
  messages : List Bytes
  /-- How many of the bytes the peer's kernel took have been read. -/
  read : Nat

namespace Endpoint

/-- After `connectEstablished`. -/
def established : Endpoint := ⟨.established, .new, true, false, [], 0⟩

/-- `string msg(buf->retrieveAllAsString())`, and what is done with it. -/
def onMessage (reply : TcpConnection → Bytes → TcpConnection) (e : Endpoint) :
    Except ConnectionFault Endpoint := do
  let (msg, buf) ← e.inputBuffer.retrieveAllAsString.mapError .buffer
  return { e with
    inputBuffer := buf
    messages := e.messages ++ [msg]
    conn := reply e.conn msg }

/-- `closeCallback_` drops the last pointer once `connectDestroyed` has run. -/
def handleClose (e : Endpoint) : Except ConnectionFault Endpoint := do
  check (e.conn.state = .kConnected ∨ e.conn.state = .kDisconnecting) .handleClose
  return { e with conn := e.conn.setState .kDisconnected, reading := false }

/-- Writes a line to the log. -/
def handleError (e : Endpoint) : Endpoint := e

def handleRead (reply : TcpConnection → Bytes → TcpConnection) (e : Endpoint) (readv : Readv)
    (hfit : readv.n ≤ e.inputBuffer.1.writableBytes + extrabufSize) :
    Except ConnectionFault Endpoint := do
  let (n, _, buf) ← (e.inputBuffer.readFd 0 readv hfit).mapError .buffer
  let e := { e with inputBuffer := buf }
  if 0 < n then e.onMessage reply
  else if n = 0 then e.handleClose
  else return e.handleError

/-- Nothing more will go out of this end. -/
def Finished (e : Endpoint) : Prop := e.conn.socket.writeClosed = true ∨ e.closed = true

instance (e : Endpoint) : Decidable e.Finished := inferInstanceAs (Decidable (_ ∨ _))

variable {e : Endpoint} {readv : Readv} {reply : TcpConnection → Bytes → TcpConnection}

/-- Bytes read into an empty buffer are the message, and leave it empty. -/
theorem handleRead_data (hb : e.inputBuffer.1.content = []) (hn : 0 < readv.n)
    (hfit : readv.n ≤ e.inputBuffer.1.writableBytes + extrabufSize) :
    (∃ buf : CheckedBuffer, e.handleRead reply readv hfit = .ok { e with
        inputBuffer := buf
        messages := e.messages ++ [readv.data]
        conn := reply e.conn readv.data } ∧
      buf.Drained ∧ buf.size ≤ e.inputBuffer.size + readv.data.length) ∨
    (e.handleRead reply readv hfit = .error (.buffer .lengthError) ∧
      e.inputBuffer.1.writableBytes < readv.data.length ∧
      maxSize < e.inputBuffer.size + readv.data.length) := by
  unfold handleRead
  rcases e.inputBuffer.readFd_cases 0 readv hfit with
    ⟨errno, buf, hread, hc, hsize⟩ | ⟨herr, -, hmax⟩
  · left
    rw [hb, List.nil_append] at hc
    obtain ⟨buf', hmsg, hd, hsame⟩ := buf.retrieveAllAsString_spec
    refine ⟨buf', ?_, hd, hsame.le.trans hsize⟩
    rw [hread]
    dsimp only [Except.mapError]
    rw [ok_bind]
    dsimp only
    rw [if_pos hn, onMessage, hmsg, hc]
    rfl
  · right
    refine ⟨by rw [herr]; rfl, ?_, hmax⟩
    by_contra hroom
    obtain ⟨_, _, hok⟩ := e.inputBuffer.readFd_fits 0 hfit (Nat.le_of_not_lt hroom)
    rw [herr] at hok
    cases hok

/-- No bytes: `handleClose` at the end of the stream, else nothing. -/
theorem handleRead_nothing (hn : readv.n ≤ 0)
    (hfit : readv.n ≤ e.inputBuffer.1.writableBytes + extrabufSize) :
    e.handleRead reply readv hfit = if readv.n = 0 then e.handleClose else .ok e := by
  obtain ⟨errno, hread⟩ := e.inputBuffer.readFd_nothing 0 hfit hn
  unfold handleRead
  rw [hread]
  dsimp only [Except.mapError]
  rw [ok_bind]
  dsimp only
  rw [if_neg (Int.not_lt.mpr hn)]
  rfl

end Endpoint

/-! ## Both ends -/

inductive Side where
  | client | server
deriving DecidableEq

def Side.peer : Side → Side
  | .client => .server
  | .server => .client

/-- The two ends of a connection. -/
abbrev EchoLink := Side → Endpoint

inductive EchoEvent where
  /-- The user types a line, and `TestClient::handleRead` sends it. -/
  | send (message : Bytes)
  /-- `TcpClient::disconnect` -/
  | disconnect
  /-- The poller of that end reports its channel, and `readv` returns this. -/
  | handleRead (x : Side) (readv : Readv)
  /-- The last pointer to the connection at that end goes. -/
  | destroyed (x : Side)

/-- What the user sent before the client disconnected. -/
def typedLines : List EchoEvent → List Bytes
  | [] => []
  | .send message :: as => message :: typedLines as
  | .disconnect :: _ => []
  | .handleRead _ _ :: as | .destroyed _ :: as => typedLines as

namespace EchoLink

def established : EchoLink := fun _ => .established

/-- `onMessage` of the two programs, after it has taken the string. -/
def reply (k : Kernel) : Side → TcpConnection → Bytes → TcpConnection
  | .server, conn, msg => conn.sendPiece k true msg
  | .client, conn, _ => conn

/-- What is on its way to an end. -/
def inFlight (s : EchoLink) (x : Side) : Bytes :=
  (s x.peer).conn.socket.accepted.drop (s x).read

/-- TCP: the next bytes on their way, the end of the stream after the last of
them, or an error. The client's `connection_` is set as long as the channel
waits for events. -/
def Enabled (s : EchoLink) : EchoEvent → Prop
  | .send _ | .disconnect => (s .client).reading = true
  | .handleRead x readv => (s x).reading = true ∧
      readv.n ≤ (s x).inputBuffer.1.writableBytes + extrabufSize ∧
      readv.data <+: s.inFlight x ∧
      (readv.n = 0 → s.inFlight x = [] ∧ (s x.peer).Finished)
  | .destroyed x => (s x).reading = false ∧ (s x).closed = false

instance (s : EchoLink) : ∀ a, Decidable (s.Enabled a)
  | .send _ | .disconnect => inferInstanceAs (Decidable (_ = _))
  | .handleRead _ _ | .destroyed _ => inferInstanceAs (Decidable (_ ∧ _))

/-- One end changes. -/
def set (s : EchoLink) (x : Side) (e : Endpoint) : EchoLink := Function.update s x e

def next (k : Side → Kernel) (s : EchoLink) : EchoEvent → Except ConnectionFault EchoLink
  | .send message => .ok (s.set .client { s .client with
      conn := (s .client).conn.sendPiece (k .client) true message })
  | .disconnect => .ok (s.set .client { s .client with
      conn := (s .client).conn.shutdown (k .client) true })
  | .handleRead x readv =>
      if hfit : readv.n ≤ (s x).inputBuffer.1.writableBytes + extrabufSize then
        (Endpoint.handleRead (reply (k x) x)
          { s x with read := (s x).read + readv.data.length } readv hfit).map (s.set x)
      else .ok s
  | .destroyed x => .ok (s.set x { s x with closed := true })

/-- The two programs, with a kernel at each end. -/
def echo (k : Side → Kernel) : Lts EchoLink EchoEvent ConnectionFault where
  init s := s = established
  enabled := Enabled
  next := next k

instance (k : Side → Kernel) (s : EchoLink) : ∀ a, Decidable ((echo k).enabled s a) :=
  fun a => inferInstanceAs (Decidable (s.Enabled a))

@[simp] theorem set_same (s : EchoLink) (x : Side) (e : Endpoint) : s.set x e x = e :=
  Function.update_self ..

@[simp] theorem set_client_server (s : EchoLink) (e : Endpoint) :
    s.set .client e .server = s .server := Function.update_of_ne (fun h => by cases h) ..

@[simp] theorem set_server_client (s : EchoLink) (e : Endpoint) :
    s.set .server e .client = s .client := Function.update_of_ne (fun h => by cases h) ..

@[simp] theorem set_self (s : EchoLink) (x : Side) : s.set x (s x) = s :=
  Function.update_eq_self ..

/-! ## One event -/

variable {k : Side → Kernel} {s s' : EchoLink} {a : EchoEvent} {as : List EchoEvent}

/-- What an event makes of the two ends. -/
inductive Step (k : Side → Kernel) (s : EchoLink) : EchoEvent → EchoLink → Prop where
  | wrote {message : Bytes} : (s .client).conn.state = .kConnected →
      Step k s (.send message) (s.set .client { s .client with
        conn := (s .client).conn.sendInLoop (k .client) message })
  | refused {message : Bytes} : (s .client).conn.state ≠ .kConnected → Step k s (.send message) s
  | left : (s .client).conn.state = .kConnected →
      Step k s .disconnect (s.set .client { s .client with
        conn := { (s .client).conn with
          state := .kDisconnecting
          socket := (s .client).conn.socket.shutdownWrite } })
  | leaving : (s .client).conn.state ≠ .kConnected → Step k s .disconnect s
  | message {x : Side} {readv : Readv} {buf : CheckedBuffer} : 0 < readv.n →
      readv.data <+: s.inFlight x → (s x).reading = true → buf.Drained →
      buf.size ≤ (s x).inputBuffer.size + readv.data.length →
      Step k s (.handleRead x readv) (s.set x { s x with
        inputBuffer := buf
        messages := (s x).messages ++ [readv.data]
        conn := reply (k x) x (s x).conn readv.data
        read := (s x).read + readv.data.length })
  | eof {x : Side} {readv : Readv} : readv.n = 0 → s.inFlight x = [] → (s x.peer).Finished →
      (s x).reading = true →
      Step k s (.handleRead x readv) (s.set x { s x with
        conn := (s x).conn.setState .kDisconnected
        reading := false })
  | failed {x : Side} {readv : Readv} : readv.n < 0 → Step k s (.handleRead x readv) s
  | destroyed {x : Side} : (s x).reading = false → (s x).closed = false →
      Step k s (.destroyed x) (s.set x { s x with closed := true })

/-! ## The bytes -/

/-- An end has read the first bytes that its peer's kernel took, and its own
kernel took a part of each write. -/
structure Got (k : Kernel) (e peer : Endpoint) : Prop where
  drained : e.inputBuffer.Drained
  size : e.inputBuffer.size ≤ kCheapPrepend + kInitialSize + e.messages.flatten.length
  messages : e.messages.flatten = peer.conn.socket.accepted.take e.read
  read_le : e.read ≤ peer.conn.socket.accepted.length
  accepted : e.conn.socket.accepted = (k.taken e.conn.socket.writes).flatten

variable {k₀ : Kernel} {e e' peer peer' : Endpoint}

/-- The peer goes on writing. -/
theorem Got.of_prefix (h : Got k₀ e peer)
    (hp : peer.conn.socket.accepted <+: peer'.conn.socket.accepted) : Got k₀ e peer' := by
  obtain ⟨more, hmore⟩ := hp
  refine ⟨h.drained, h.size, ?_, ?_, h.accepted⟩
  · rw [h.messages, ← hmore, List.take_append_of_le_length h.read_le]
  · rw [← hmore, List.length_append]
    exact h.read_le.trans (Nat.le_add_right _ _)

theorem Got.sendInLoop (h : Got k₀ e peer) (hopen : e.conn.socket.writeClosed = false)
    (data : Bytes) : Got k₀ { e with conn := e.conn.sendInLoop k₀ data } peer := by
  refine ⟨h.drained, h.size, h.messages, h.read_le, ?_⟩
  rw [TcpConnection.sendInLoop, Socket.write_open hopen]
  dsimp only
  rw [k₀.flatten_taken_snoc, h.accepted]

/-- The next bytes on their way are read. -/
theorem Got.read (h : Got k₀ e peer) {data : Bytes} {buf : CheckedBuffer}
    (hdata : data <+: peer.conn.socket.accepted.drop e.read) (hd : buf.Drained)
    (hsize : buf.size ≤ e.inputBuffer.size + data.length) :
    Got k₀ { e with
      inputBuffer := buf
      messages := e.messages ++ [data]
      read := e.read + data.length } peer := by
  have hlen := hdata.length_le
  have hbound := h.size
  have hle := h.read_le
  rw [List.length_drop] at hlen
  refine ⟨hd, ?_, ?_, ?_, h.accepted⟩
  · simp only [List.flatten_append, List.flatten_singleton, List.length_append]
    omega
  · simp only [List.flatten_append, List.flatten_singleton]
    rw [List.take_add, h.messages, List.prefix_iff_eq_take.mp hdata, List.length_take,
      Nat.min_eq_left (by rw [List.length_drop]; exact hlen)]
  · dsimp only
    omega

theorem accepted_sendInLoop (c : TcpConnection) (data : Bytes) :
    c.socket.accepted <+: (c.sendInLoop k₀ data).socket.accepted := by
  unfold TcpConnection.sendInLoop Socket.write
  split
  · exact List.prefix_refl _
  · exact List.prefix_append _ _

/-- A channel that waits for events belongs to a connection that is up. -/
structure Lives (e : Endpoint) : Prop where
  up : e.reading = true → e.conn.state = .kConnected ∨ e.conn.state = .kDisconnecting
  notWriting : e.conn.isWriting = false
  closed : e.closed = true → e.reading = false

/-- What is known of the two ends. -/
structure Sound (k : Side → Kernel) (client server : Endpoint) : Prop where
  clientGot : Got (k .client) client server
  serverGot : Got (k .server) server client
  clientLives : Lives client
  serverLives : Lives server
  connected : client.conn.state = .kConnected ↔ client.conn.socket.writeClosed = false
  /-- The server writes what it has read, and nothing else. -/
  echoed : server.conn.socket.writes = server.messages
  serverOpen : server.conn.socket.writeClosed = false
  serverUp : server.reading = true → server.conn.state = .kConnected
  /-- An end is given up once all bytes to it have been read. -/
  serverDone : server.reading = false → client.conn.socket.writeClosed = true ∧
    server.read = client.conn.socket.accepted.length
  clientDone : client.reading = false → server.closed = true ∧
    client.read = server.conn.socket.accepted.length

theorem Sound.got (h : Sound k (s .client) (s .server)) : ∀ x, Got (k x) (s x) (s x.peer)
  | .client => h.clientGot
  | .server => h.serverGot

theorem Sound.lives (h : Sound k (s .client) (s .server)) : ∀ x, Lives (s x)
  | .client => h.clientLives
  | .server => h.serverLives

theorem sound_established (k : Side → Kernel) : Sound k .established .established := by
  have hgot (k : Kernel) : Got k .established .established :=
    ⟨CheckedBuffer.drained_new, CheckedBuffer.size_new.le.trans (Nat.le_add_right _ _),
      rfl, Nat.le_refl _, rfl⟩
  have hlives : Lives .established := ⟨fun _ => Or.inl rfl, rfl, fun h => by cases h⟩
  exact ⟨hgot _, hgot _, hlives, hlives, iff_of_true rfl rfl, rfl, rfl, fun _ => rfl,
    (fun h => by cases h), fun h => by cases h⟩

variable {c v : Endpoint}

theorem Sound.wrote (h : Sound k c v) (hc : c.conn.state = .kConnected) (message : Bytes) :
    Sound k { c with conn := c.conn.sendInLoop (k .client) message } v := by
  have hopen := h.connected.mp hc
  have hgot := h.clientGot.sendInLoop hopen message
  have hgrown := @accepted_sendInLoop (k .client) c.conn message
  rw [TcpConnection.sendInLoop, Socket.write_open hopen] at hgot hgrown ⊢
  refine ⟨hgot, h.serverGot.of_prefix hgrown, ?_, h.serverLives, h.connected, h.echoed,
    h.serverOpen, h.serverUp, ?_, h.clientDone⟩
  · exact ⟨h.clientLives.up, h.clientLives.notWriting, h.clientLives.closed⟩
  · intro hr
    rw [(h.serverDone hr).1] at hopen
    cases hopen

theorem Sound.left (h : Sound k c v) :
    Sound k { c with conn := { c.conn with
      state := .kDisconnecting
      socket := c.conn.socket.shutdownWrite } } v := by
  have hgot := h.clientGot
  refine ⟨⟨hgot.drained, hgot.size, hgot.messages, hgot.read_le, hgot.accepted⟩,
    h.serverGot.of_prefix (List.prefix_refl _), ?_, h.serverLives, ?_, h.echoed,
    h.serverOpen, h.serverUp, ?_, h.clientDone⟩
  · exact ⟨fun _ => Or.inr rfl, h.clientLives.notWriting, h.clientLives.closed⟩
  · exact iff_of_false (fun h => by cases h) (fun h => by cases h)
  · exact fun hr => ⟨rfl, (h.serverDone hr).2⟩

theorem Sound.clientMessage (h : Sound k c v) {data : Bytes} {buf : CheckedBuffer}
    (hr : c.reading = true) (hdata : data <+: v.conn.socket.accepted.drop c.read)
    (hd : buf.Drained) (hsize : buf.size ≤ c.inputBuffer.size + data.length) :
    Sound k { c with
      inputBuffer := buf
      messages := c.messages ++ [data]
      read := c.read + data.length } v := by
  refine ⟨h.clientGot.read hdata hd hsize, h.serverGot.of_prefix (List.prefix_refl _), ?_,
    h.serverLives, h.connected, h.echoed, h.serverOpen, h.serverUp, h.serverDone, ?_⟩
  · exact ⟨h.clientLives.up, h.clientLives.notWriting, h.clientLives.closed⟩
  · intro hr'
    rw [hr] at hr'
    cases hr'

theorem Sound.serverMessage (h : Sound k c v) {data : Bytes} {buf : CheckedBuffer}
    (hr : v.reading = true) (hdata : data <+: c.conn.socket.accepted.drop v.read)
    (hd : buf.Drained) (hsize : buf.size ≤ v.inputBuffer.size + data.length) :
    Sound k c { v with
      inputBuffer := buf
      messages := v.messages ++ [data]
      conn := v.conn.sendPiece (k .server) true data
      read := v.read + data.length } := by
  have hgot := (h.serverGot.read hdata hd hsize).sendInLoop h.serverOpen data
  have hgrown := @accepted_sendInLoop (k .server) v.conn data
  have hnot : ¬v.reading = false := by simp [hr]
  rw [TcpConnection.sendPiece_connected (h.serverUp hr)]
  dsimp only at hgot
  rw [TcpConnection.sendInLoop, Socket.write_open h.serverOpen] at hgot hgrown ⊢
  refine ⟨h.clientGot.of_prefix hgrown, hgot, h.clientLives, ?_, h.connected, ?_, h.serverOpen,
    h.serverUp, fun hr' => absurd hr' hnot, ?_⟩
  · exact ⟨h.serverLives.up, h.serverLives.notWriting, h.serverLives.closed⟩
  · exact congrArg (· ++ [data]) h.echoed
  · intro hr'
    exact absurd (h.serverLives.closed (h.clientDone hr').1) hnot

/-- The end of the client's stream comes after all its bytes. -/
theorem Sound.serverEof (h : Sound k c v) (hnil : c.conn.socket.accepted.drop v.read = [])
    (hfin : c.Finished) (hr : v.reading = true) :
    Sound k c { v with conn := v.conn.setState .kDisconnected, reading := false } := by
  have hgot := h.serverGot
  have hread : v.read = c.conn.socket.accepted.length :=
    Nat.le_antisymm hgot.read_le (List.drop_eq_nil_iff.mp hnil)
  have hnot : ¬v.reading = false := by simp [hr]
  have hclosed : c.conn.socket.writeClosed = true := by
    refine hfin.resolve_right fun hclosed => hnot ?_
    exact h.serverLives.closed (h.clientDone (h.clientLives.closed hclosed)).1
  refine ⟨h.clientGot.of_prefix (List.prefix_refl _),
    ⟨hgot.drained, hgot.size, hgot.messages, hgot.read_le, hgot.accepted⟩, h.clientLives, ?_,
    h.connected, h.echoed, h.serverOpen, (fun hr => by cases hr), fun _ => ⟨hclosed, hread⟩,
    h.clientDone⟩
  exact ⟨(fun hr => by cases hr), h.serverLives.notWriting, fun _ => rfl⟩

theorem Sound.clientEof (h : Sound k c v) (hnil : v.conn.socket.accepted.drop c.read = [])
    (hfin : v.Finished) :
    Sound k { c with conn := c.conn.setState .kDisconnected, reading := false } v := by
  have hgot := h.clientGot
  have hread : c.read = v.conn.socket.accepted.length :=
    Nat.le_antisymm hgot.read_le (List.drop_eq_nil_iff.mp hnil)
  have hclosed : v.closed = true := by
    refine hfin.resolve_left fun hopen => ?_
    rw [h.serverOpen] at hopen
    cases hopen
  have hleft := (h.serverDone (h.serverLives.closed hclosed)).1
  refine ⟨⟨hgot.drained, hgot.size, hgot.messages, hgot.read_le, hgot.accepted⟩,
    h.serverGot.of_prefix (List.prefix_refl _), ?_, h.serverLives, ?_, h.echoed, h.serverOpen,
    h.serverUp, h.serverDone, fun _ => ⟨hclosed, hread⟩⟩
  · exact ⟨(fun hr => by cases hr), h.clientLives.notWriting, fun _ => rfl⟩
  · exact iff_of_false (fun h => by cases h) fun hopen => by
      rw [TcpConnection.setState, hleft] at hopen
      cases hopen

theorem Sound.clientDestroyed (h : Sound k c v) (hr : c.reading = false) :
    Sound k { c with closed := true } v :=
  ⟨⟨h.clientGot.drained, h.clientGot.size, h.clientGot.messages, h.clientGot.read_le,
      h.clientGot.accepted⟩,
    h.serverGot.of_prefix (List.prefix_refl _),
    ⟨h.clientLives.up, h.clientLives.notWriting, fun _ => hr⟩, h.serverLives, h.connected,
    h.echoed, h.serverOpen, h.serverUp, h.serverDone, h.clientDone⟩

theorem Sound.serverDestroyed (h : Sound k c v) (hr : v.reading = false) :
    Sound k c { v with closed := true } :=
  ⟨h.clientGot.of_prefix (List.prefix_refl _),
    ⟨h.serverGot.drained, h.serverGot.size, h.serverGot.messages, h.serverGot.read_le,
      h.serverGot.accepted⟩,
    h.clientLives, ⟨h.serverLives.up, h.serverLives.notWriting, fun _ => hr⟩, h.connected,
    h.echoed, h.serverOpen, h.serverUp, h.serverDone, fun hr => ⟨rfl, (h.clientDone hr).2⟩⟩

/-- No event faults but by a vector that would be too large. -/
theorem Sound.next_cases (h : Sound k (s .client) (s .server)) (he : s.Enabled a) :
    (∃ s', next k s a = .ok s' ∧ Step k s a s') ∨
    ∃ x readv, a = .handleRead x readv ∧ next k s a = .error (.buffer .lengthError) ∧
      (s x).inputBuffer.1.writableBytes < readv.data.length ∧
      maxSize < (s x).inputBuffer.size + readv.data.length := by
  cases a with
  | send message =>
      left
      refine ⟨_, rfl, ?_⟩
      by_cases hc : (s .client).conn.state = .kConnected
      · rw [TcpConnection.sendPiece_connected hc]
        exact .wrote hc
      · rw [TcpConnection.sendPiece, if_neg hc]
        exact (set_self s .client).symm ▸ .refused hc
  | disconnect =>
      left
      refine ⟨_, rfl, ?_⟩
      by_cases hc : (s .client).conn.state = .kConnected
      · have hconn : (s .client).conn.shutdown (k .client) true = { (s .client).conn with
            state := .kDisconnecting
            socket := (s .client).conn.socket.shutdownWrite } := by
          rw [TcpConnection.shutdown, if_pos hc]
          unfold TcpConnection.runInLoop TcpConnection.runFunctor TcpConnection.shutdownInLoop
            TcpConnection.setState
          rw [if_pos rfl]
          dsimp only
          rw [h.clientLives.notWriting]
          rfl
        rw [hconn]
        exact .left hc
      · rw [TcpConnection.shutdown, if_neg hc]
        exact (set_self s .client).symm ▸ .leaving hc
  | handleRead x readv =>
      obtain ⟨hr, hfit, hdata, heof⟩ := he
      unfold next
      dsimp only
      rw [dif_pos hfit]
      by_cases hn : 0 < readv.n
      · have hempty := (h.got x).drained.content
        rcases Endpoint.handleRead_data
            (e := { s x with read := (s x).read + readv.data.length }) hempty hn hfit with
          ⟨buf, hok, hbuf, hsize⟩ | ⟨herr, hroom, hmax⟩
        · left
          refine ⟨_, by rw [hok]; rfl, ?_⟩
          exact .message hn hdata hr hbuf hsize
        · exact Or.inr ⟨x, readv, rfl, by rw [herr]; rfl, hroom, hmax⟩
      · left
        have hnil : readv.data = [] := by
          apply List.eq_nil_of_length_eq_zero
          rw [readv.stored]
          omega
        have hread : ({ s x with read := (s x).read + readv.data.length } : Endpoint) = s x := by
          rw [hnil]
          rfl
        have hnothing := @Endpoint.handleRead_nothing
          { s x with read := (s x).read + readv.data.length } readv (reply (k x) x)
          (Int.not_lt.mp hn) hfit
        rw [hnothing, hread]
        by_cases hz : readv.n = 0
        · refine ⟨_, by rw [if_pos hz, Endpoint.handleClose, check_of ((h.lives x).up hr)]; rfl, ?_⟩
          exact .eof hz (heof hz).1 (heof hz).2 hr
        · refine ⟨_, by rw [if_neg hz]; rfl, ?_⟩
          exact (set_self s x).symm ▸ .failed (by omega)
  | destroyed x => exact Or.inl ⟨_, rfl, .destroyed he.1 he.2⟩

theorem Sound.step_of_ok (h : Sound k (s .client) (s .server)) (he : s.Enabled a)
    (hn : next k s a = .ok s') : Step k s a s' := by
  rcases h.next_cases he with ⟨s₁, hok, hstep⟩ | ⟨_, _, -, herr, -⟩
  · rw [hn] at hok
    obtain rfl := Except.ok.inj hok
    exact hstep
  · rw [hn] at herr
    cases herr

/-- **One event.** -/
theorem Sound.step (h : Sound k (s .client) (s .server)) (hstep : Step k s a s') :
    Sound k (s' .client) (s' .server) := by
  cases hstep with
  | wrote hc =>
      rw [set_same, set_client_server]
      exact h.wrote hc _
  | refused => exact h
  | left =>
      rw [set_same, set_client_server]
      exact h.left
  | leaving => exact h
  | @message x _ _ _ hdata hr hd hsize =>
      cases x with
      | client =>
          rw [set_same, set_client_server]
          exact h.clientMessage hr hdata hd hsize
      | server =>
          rw [set_same, set_server_client]
          exact h.serverMessage hr hdata hd hsize
  | @eof x _ _ hnil hfin hr =>
      cases x with
      | client =>
          rw [set_same, set_client_server]
          exact h.clientEof hnil hfin
      | server =>
          rw [set_same, set_server_client]
          exact h.serverEof hnil hfin hr
  | failed => exact h
  | @destroyed x hr =>
      cases x with
      | client =>
          rw [set_same, set_client_server]
          exact h.clientDestroyed hr
      | server =>
          rw [set_same, set_server_client]
          exact h.serverDestroyed hr

end EchoLink

end Muduo
