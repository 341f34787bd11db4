import Muduo.Net.TcpConnection

/-!
# Which bytes `send` loses

`sendInLoop` makes one `write(2)` of the whole message and forgets what it
returns; the code that would keep the rest in `outputBuffer_` is commented
out. So the bytes taken by the kernel and held for later are those sent,
all along a run, exactly when every write takes its whole message
(`send_loses_nothing_iff`).
-/

namespace Muduo

open InputBuffer TcpConnection

variable {β : Type} [InputBuffer β] {k : Kernel} {c : TcpConnection}

/-- A call of `send`, by overload. -/
inductive Message (β : Type) where
  | data (data : Bytes)
  | piece (message : Bytes)
  | buffer (buf : β)

namespace Message

def bytes : Message β → Bytes
  | .data d => d
  | .piece m => m
  | .buffer b => readable b

/-- The call, made in the loop thread. -/
def send (k : Kernel) (c : TcpConnection) : Message β → TcpConnection
  | .data d => c.sendData k true d
  | .piece m => c.sendPiece k true m
  | .buffer b => (c.sendBuffer k true b).1

end Message

/-- The calls of `send` in `messages`, one after the other. -/
def TcpConnection.sendAll (k : Kernel) (c : TcpConnection) (messages : List (Message β)) :
    TcpConnection :=
  messages.foldl (Message.send k) c

/-- The bytes the socket has accepted, then those kept for later. -/
def TcpConnection.outgoing (c : TcpConnection) : Bytes := c.socket.accepted ++ c.outputBuffer

/-- The concatenation of the messages. -/
def payload (messages : List (Message β)) : Bytes := (messages.map Message.bytes).flatten

@[simp] theorem payload_snoc (messages : List (Message β)) (m : Message β) :
    payload (messages ++ [m]) = payload messages ++ m.bytes := by
  simp [payload]

/-- All overloads are one write of the whole message. -/
theorem Message.send_connected (h : c.state = .kConnected) (m : Message β) :
    m.send k c = c.sendInLoop k m.bytes := by
  cases m with
  | data d =>
      rw [Message.send, sendData_eq_sendPiece]
      exact sendPiece_connected h d
  | piece d => exact sendPiece_connected h d
  | buffer b =>
      rw [Message.send, sendBuffer_eq_sendPiece]
      exact sendPiece_connected h (readable b)

/-- A connection on which only `send` has been called. -/
structure OnlySent (c : TcpConnection) (n : Nat) : Prop where
  connected : c.state = .kConnected
  open_ : c.socket.writeClosed = false
  writes : c.socket.writes.length = n
  empty : c.outputBuffer = []

/-- **One call**: the connection stays up, and what leaves is the part of
the message the kernel takes. -/
theorem OnlySent.send {n : Nat} (h : OnlySent c n) (m : Message β) :
    OnlySent (m.send k c) (n + 1) ∧
      (m.send k c).outgoing = c.outgoing ++ m.bytes.take (k.accepts n m.bytes) := by
  have heq : m.send k c = { c with socket :=
      { c.socket with
        writes := c.socket.writes ++ [m.bytes]
        accepted := c.socket.accepted ++ m.bytes.take (k.accepts n m.bytes) } } := by
    rw [Message.send_connected h.connected, sendInLoop, Socket.write_open h.open_, h.writes]
  rw [heq]
  refine ⟨⟨h.connected, h.open_, ?_, h.empty⟩, ?_⟩
  · rw [List.length_append, h.writes]
    rfl
  · simp only [outgoing, h.empty, List.append_nil]

theorem onlySent_sendAll (messages : List (Message β)) :
    OnlySent (established.sendAll k messages) messages.length := by
  induction messages using List.reverseRecOn with
  | nil => exact ⟨rfl, rfl, rfl, rfl⟩
  | append_singleton messages m ih =>
      rw [sendAll, List.foldl_append, List.length_append]
      exact (ih.send m).1

theorem outgoing_snoc (messages : List (Message β)) (m : Message β) :
    (established.sendAll k (messages ++ [m])).outgoing =
      (established.sendAll k messages).outgoing ++
        m.bytes.take (k.accepts messages.length m.bytes) := by
  rw [sendAll, List.foldl_append]
  exact ((onlySent_sendAll messages).send m).2

/-- **`send` loses no byte, at any point of any sequence of calls, exactly
when every write accepts its whole message.** -/
theorem send_loses_nothing_iff (k : Kernel) (messages : List (Message β)) :
    (∀ sent rest, messages = sent ++ rest →
        (established.sendAll k sent).outgoing = payload sent) ↔
      ∀ sent m rest, messages = sent ++ m :: rest →
        k.accepts sent.length m.bytes = m.bytes.length := by
  constructor
  · rintro h sent m rest rfl
    have hbefore := h sent (m :: rest) rfl
    have hafter := h (sent ++ [m]) rest (by simp)
    rw [outgoing_snoc, hbefore, payload_snoc] at hafter
    have htake : m.bytes.take (k.accepts sent.length m.bytes) = m.bytes :=
      List.append_cancel_left hafter
    have hlen := congrArg List.length htake
    rw [List.length_take] at hlen
    exact le_antisymm (k.accepts_le _ _) (min_eq_right_iff.mp hlen)
  · intro h sent
    induction sent using List.reverseRecOn with
    | nil => exact fun _ _ => rfl
    | append_singleton sent m ih =>
        intro rest hrest
        rw [List.append_assoc] at hrest
        have hwhole := h sent m rest hrest
        rw [outgoing_snoc, ih _ hrest, payload_snoc, hwhole, List.take_length]

/-- With a full socket buffer a one-byte message is gone. -/
theorem send_loses_bytes :
    ¬∀ (k : Kernel) (messages : List (Message Bytes)) (sent rest : List (Message Bytes)),
      messages = sent ++ rest → (established.sendAll k sent).outgoing = payload sent := by
  intro h
  have habs := h .full [.piece [65]] [.piece [65]] [] rfl
  exact absurd habs (by decide)

end Muduo
