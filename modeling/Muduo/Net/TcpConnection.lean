import Muduo.Http.Parse

/-!
# The sending side of `TcpConnection`

The three overloads of `send`, `sendInLoop`, `shutdown` and `shutdownInLoop`,
over a non-blocking socket. What `write(2)` accepts is up to the kernel: it
is a parameter (`Kernel`), asked anew at each call, so a theorem for every
kernel is one for every pattern of short writes and `EAGAIN`s.

A call from another thread leaves a functor in the loop's queue; those of
one connection are kept in `queued`, in order.
-/

namespace Muduo

/-- `write(2)`: how many bytes of its data the `i`-th call accepts, `none`
being the return value -1. -/
structure Kernel where
  write : Nat → Bytes → Option Nat
  write_le : ∀ {i : Nat} {data : Bytes} {n : Nat}, write i data = some n → n ≤ data.length

namespace Kernel

/-- The number of bytes accepted. -/
def accepts (k : Kernel) (i : Nat) (data : Bytes) : Nat := (k.write i data).getD 0

theorem accepts_le (k : Kernel) (i : Nat) (data : Bytes) : k.accepts i data ≤ data.length := by
  unfold accepts
  cases h : k.write i data with
  | none => exact Nat.zero_le _
  | some n => exact k.write_le h

/-- A kernel that always has room. -/
def eager : Kernel where
  write _ data := some data.length
  write_le h := by
    obtain rfl := Option.some.inj h
    exact Nat.le_refl _

/-- A kernel whose socket buffer is full. -/
def full : Kernel where
  write _ _ := none
  write_le h := by cases h

end Kernel

structure Socket where
  /-- The data of each `write(2)`, in order. -/
  writes : List Bytes
  /-- The bytes the kernel took. -/
  accepted : Bytes
  /-- `SHUT_WR` has been done. -/
  writeClosed : Bool
deriving DecidableEq

namespace Socket

def new : Socket := ⟨[], [], false⟩

/-- `sockets::write`; nothing goes out of a half that is closed. -/
def write (k : Kernel) (s : Socket) (data : Bytes) : Option Nat × Socket :=
  if s.writeClosed then (none, { s with writes := s.writes ++ [data] })
  else
    (k.write s.writes.length data,
      { s with
        writes := s.writes ++ [data]
        accepted := s.accepted ++ data.take (k.accepts s.writes.length data) })

theorem write_open {k : Kernel} {s : Socket} (h : s.writeClosed = false) (data : Bytes) :
    s.write k data = (k.write s.writes.length data,
      { s with
        writes := s.writes ++ [data]
        accepted := s.accepted ++ data.take (k.accepts s.writes.length data) }) :=
  if_neg (by rw [h]; exact Bool.false_ne_true)

def shutdownWrite (s : Socket) : Socket := { s with writeClosed := true }

end Socket

inductive StateE where
  | kDisconnected | kConnecting | kConnected | kDisconnecting
deriving DecidableEq, Repr

/-- What a connection binds for `loop_->runInLoop`. -/
inductive ConnFunctor where
  | sendInLoop (message : Bytes)
  | shutdownInLoop
deriving DecidableEq

structure TcpConnection where
  state : StateE
  socket : Socket
  /-- `channel_->isWriting()` -/
  isWriting : Bool
  outputBuffer : Bytes
  /-- The functors of this connection waiting in its loop. -/
  queued : List ConnFunctor
deriving DecidableEq

namespace TcpConnection

/-- After `connectEstablished`. -/
def established : TcpConnection := ⟨.kConnected, .new, false, [], []⟩

def setState (c : TcpConnection) (s : StateE) : TcpConnection := { c with state := s }

/-- The result of `write(2)` is not looked at. -/
def sendInLoop (k : Kernel) (c : TcpConnection) (data : Bytes) : TcpConnection :=
  { c with socket := (c.socket.write k data).2 }

def shutdownInLoop (c : TcpConnection) : TcpConnection :=
  if !c.isWriting then { c with socket := c.socket.shutdownWrite } else c

def runFunctor (k : Kernel) (c : TcpConnection) : ConnFunctor → TcpConnection
  | .sendInLoop message => c.sendInLoop k message
  | .shutdownInLoop => c.shutdownInLoop

/-- `loop_->runInLoop(f)`, from the loop thread or from another. -/
def runInLoop (k : Kernel) (isInLoopThread : Bool) (c : TcpConnection) (f : ConnFunctor) :
    TcpConnection :=
  if isInLoopThread then c.runFunctor k f else { c with queued := c.queued ++ [f] }

/-- `send(const void* data, size_t len)` -/
def sendData (k : Kernel) (isInLoopThread : Bool) (c : TcpConnection) (data : Bytes) :
    TcpConnection :=
  if c.state = .kConnected then
    if isInLoopThread then c.sendInLoop k data
    else
      let message := data
      c.runInLoop k isInLoopThread (.sendInLoop message)
  else c

/-- `send(const StringPiece& message)` -/
def sendPiece (k : Kernel) (isInLoopThread : Bool) (c : TcpConnection) (message : Bytes) :
    TcpConnection :=
  if c.state = .kConnected then
    if isInLoopThread then c.sendInLoop k message
    else c.runInLoop k isInLoopThread (.sendInLoop message)
  else c

variable {β : Type} [InputBuffer β]

/-- `send(Buffer* buf)`, with the buffer it leaves. -/
def sendBuffer (k : Kernel) (isInLoopThread : Bool) (c : TcpConnection) (buf : β) :
    TcpConnection × β :=
  let drained := InputBuffer.retrieve buf (InputBuffer.readable buf).length
  if c.state = .kConnected then
    if isInLoopThread then (c.sendInLoop k (InputBuffer.readable buf), drained)
    else (c.runInLoop k isInLoopThread (.sendInLoop (InputBuffer.readable buf)), drained)
  else (c, buf)

def shutdown (k : Kernel) (isInLoopThread : Bool) (c : TcpConnection) : TcpConnection :=
  if c.state = .kConnected then
    (c.setState .kDisconnecting).runInLoop k isInLoopThread .shutdownInLoop
  else c

/-! ## From the loop thread -/

variable {k : Kernel} {c : TcpConnection}

theorem sendBuffer_eq_sendPiece (b : Bool) (buf : β) :
    (c.sendBuffer k b buf).1 = c.sendPiece k b (InputBuffer.readable buf) := by
  unfold sendBuffer sendPiece
  by_cases h : c.state = .kConnected
  · rw [if_pos h, if_pos h]
    cases b <;> rfl
  · rw [if_neg h, if_neg h]

theorem sendData_eq_sendPiece (b : Bool) (data : Bytes) :
    c.sendData k b data = c.sendPiece k b data := rfl

theorem sendPiece_connected (h : c.state = .kConnected) (message : Bytes) :
    c.sendPiece k true message = c.sendInLoop k message := by
  rw [sendPiece, if_pos h, if_pos rfl]

end TcpConnection

end Muduo
