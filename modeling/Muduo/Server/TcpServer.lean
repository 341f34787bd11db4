import Mathlib.Data.List.Sort
import Muduo.Http.Response
import Muduo.Lib.Batch
import Muduo.Lib.Lts
import Muduo.Net.Lifecycle

/-!
# `TcpServer`, step by step

A server with any number of I/O loops, from its constructor to the end of its
destructor. Loop 0 is the acceptor's, loops 1 to `numThreads` those of the
thread pool; a step is that of one loop, up to its next callback or the next
functor, so any interleaving of the loops is a run. Each loop has its queue
of functors (`Batch`) and a stack of the functions it is in, of which only
loop 0's grows beyond one, when user code there destroys the server.

`~TcpServer` is its body, one connection at a time, and then the destruction
of `threadPool_`, which quits each I/O loop and waits for its thread to end.
A loop that ends drops the functors left in its queue.

`shutdown()` may be called in the loop's own thread or in others, which set
`state_` in a step apart from their test. What it does to the socket, and
sending, are left to `TcpConnection`.

`history` is a record for the theorems and not in the code.
-/

namespace Muduo

open Lib

namespace TcpServer

/-- What is bound to a `TcpConnectionPtr` and queued. -/
inductive Method where
  | connectEstablished | connectDestroyed | removeConnectionInLoop
deriving DecidableEq, Repr

structure Functor where
  method : Method
  conn : Nat
deriving DecidableEq, Repr

/-- Where a loop is in a function of a connection: in `connectionCallback_` of
`connectEstablished`; in `messageCallback_`; in `connectionCallback_` of
`handleClose`; past its `closeCallback_`; in `connectDestroyed`, past the
test; in `connectionCallback_` there. -/
inductive Point where
  | established | message | closing | closed | destroying | down
deriving DecidableEq, Repr

/-- Is it in user code? -/
def Point.isUser : Point → Bool
  | established => true
  | message => true
  | closing => true
  | closed => false
  | destroying => false
  | down => true

/-- A function some loop is in. In `~TcpServer`: the body; about to quit the
`i`th loop of the pool; waiting for its thread. -/
inductive Frame where
  | conn (p : Point) (c : Nat)
  | destructor | quitting (i : Nat) | joining (i : Nat)
deriving DecidableEq, Repr

def Frame.isUser : Frame → Bool
  | conn p _ => p.isUser
  | _ => false

/-- Part of `~TcpServer`. -/
def Frame.isDestructor : Frame → Bool
  | conn _ _ => false
  | _ => true

/-- What a connection has been through: its functions, at their beginning, two
of them at their end too, and how it left `connections_`. -/
inductive Mark where
  | connectEstablished | handleRead | handleClose | closed
  | removeConnectionInLoop | dropped
  | connectDestroyed | destroyed
deriving DecidableEq, Repr

structure Conn where
  /-- `loop_` -/
  loop : Nat
  name : Bytes
  life : Lifecycle
  /-- What happened, and in which loop. -/
  history : List (Nat × Mark)

structure IoLoop where
  functors : Batch Functor
  stack : List Frame
  /-- `quit_` -/
  quit : Bool
  /-- `loop()` has returned, and the thread with it. -/
  exited : Bool

end TcpServer

open TcpServer in
/-- `shutting` are the other threads in `shutdown()` of a connection, past its
test. -/
structure TcpServer (Tid : Type) where
  name : Bytes
  hostport : Bytes
  numThreads : Nat
  /-- `next_` of the thread pool. -/
  next_ : Nat
  /-- `connections_`, in the order of the names. -/
  connections : List (Bytes × Nat)
  /-- The destructor has not returned. -/
  alive : Bool
  loop : Nat → IoLoop
  conn : Nat → Conn
  /-- `nextConnId_ - 1` -/
  created : Nat
  shutting : List (Tid × Nat)

namespace TcpServer

/-- A failed assertion, or a use of a server whose destructor has returned. -/
inductive Fault where
  | conn (f : LifeFault)
  | notInLoopThread
  /-- `assert(n == 1)` -/
  | erase
  | destroyed
deriving DecidableEq, Repr

/-- What happens: a step of a loop within the functions it is in (`step`) or
between them, an event of a socket, a call from user code. `read` and
`close` are `handleRead` with data and at the end of it. -/
inductive Event (Tid : Type) where
  | newConnection
  | read (c : Nat) | close (c : Nat)
  | step (l : Nat)
  | swap (l : Nat) | functor (l : Nat) | finish (l : Nat)
  | destroy
  | shutdown (c : Nat) | shutdownTest (t : Tid) (c : Nat) | shutdownSet (t : Tid) (c : Nat)

variable {Tid : Type}

/-- `TcpServer::TcpServer` and `start` -/
def new (name hostport : Bytes) (numThreads : Nat) : TcpServer Tid where
  name := name
  hostport := hostport
  numThreads := numThreads
  next_ := 0
  connections := []
  alive := true
  loop _ := ⟨.empty, [], false, false⟩
  conn _ := ⟨0, [], .new, []⟩
  created := 0
  shutting := []

/-! ## Changes -/

def setLoop (s : TcpServer Tid) (l : Nat) (b : IoLoop) : TcpServer Tid :=
  { s with loop := Function.update s.loop l b }

def setFunctors (s : TcpServer Tid) (l : Nat) (fs : Batch Functor) : TcpServer Tid :=
  s.setLoop l { s.loop l with functors := fs }

def setStack (s : TcpServer Tid) (l : Nat) (fs : List Frame) : TcpServer Tid :=
  s.setLoop l { s.loop l with stack := fs }

def setConn (s : TcpServer Tid) (c : Nat) (k : Conn) : TcpServer Tid :=
  { s with conn := Function.update s.conn c k }

def setLife (s : TcpServer Tid) (c : Nat) (life : Lifecycle) : TcpServer Tid :=
  s.setConn c { s.conn c with life := life }

def record (s : TcpServer Tid) (c l : Nat) (m : Mark) : TcpServer Tid :=
  s.setConn c { s.conn c with history := (s.conn c).history ++ [(l, m)] }

def enter (s : TcpServer Tid) (l : Nat) (f : Frame) : TcpServer Tid :=
  s.setStack l (f :: (s.loop l).stack)

def queueInLoop (s : TcpServer Tid) (l : Nat) (f : Functor) : TcpServer Tid :=
  s.setFunctors l ((s.loop l).functors.push f)

/-- `quit()` -/
def quit (s : TcpServer Tid) (l : Nat) : TcpServer Tid :=
  s.setLoop l { s.loop l with quit := true }

/-! ## The functions -/

def liftConn {α : Type} : Except LifeFault α → Except Fault α
  | .ok a => .ok a
  | .error f => .error (.conn f)

/-- Up to `connectionCallback_`. -/
def connectEstablished (s : TcpServer Tid) (l c : Nat) : Except Fault (TcpServer Tid) := do
  check (l = (s.conn c).loop) .notInLoopThread
  let life ← liftConn (s.conn c).life.connectEstablished
  return ((s.setLife c life).record c l .connectEstablished).enter l (.conn .established c)

/-- `channel_->remove()`, the end of `connectDestroyed`. -/
def remove (s : TcpServer Tid) (l c : Nat) : TcpServer Tid :=
  (s.setLife c (s.conn c).life.remove).record c l .destroyed

/-- Up to the test of `state_`, or to the end if it fails. -/
def connectDestroyed (s : TcpServer Tid) (l c : Nat) : Except Fault (TcpServer Tid) := do
  check (l = (s.conn c).loop) .notInLoopThread
  let s := s.record c l .connectDestroyed
  if (s.conn c).life.state = .kConnected then return s.enter l (.conn .destroying c)
  else return s.remove l c

def removeConnectionInLoop (s : TcpServer Tid) (l c : Nat) : Except Fault (TcpServer Tid) := do
  check (s.alive = true) .destroyed
  check (l = 0) .notInLoopThread
  let connName := (s.conn c).name
  let n := (s.connections.filter (·.1 = connName)).length
  check (n = 1) .erase
  let s := { s with connections := s.connections.filter (·.1 ≠ connName) }
  return (s.record c l .removeConnectionInLoop).queueInLoop (s.conn c).loop ⟨.connectDestroyed, c⟩

def call (s : TcpServer Tid) (l : Nat) (f : Functor) : Except Fault (TcpServer Tid) :=
  match f.method with
  | .connectEstablished => s.connectEstablished l f.conn
  | .connectDestroyed => s.connectDestroyed l f.conn
  | .removeConnectionInLoop => s.removeConnectionInLoop l f.conn

/-- `EventLoop::runInLoop` of loop `l`, called in loop `caller`. -/
def runInLoop (s : TcpServer Tid) (caller l : Nat) (f : Functor) :
    Except Fault (TcpServer Tid) :=
  if caller = l then s.call l f else .ok (s.queueInLoop l f)

/-- `EventLoopThreadPool::getNextLoop`, and `next_` after it. -/
def getNextLoop (s : TcpServer Tid) : Nat × Nat :=
  if s.numThreads = 0 then (0, s.next_)
  else (s.next_ + 1, if s.next_ + 1 ≥ s.numThreads then 0 else s.next_ + 1)

/-- The name of the next connection. -/
def connName (s : TcpServer Tid) : Bytes :=
  s.name ++ HttpResponse.snprintf32
    (str ":" ++ s.hostport ++ str "#" ++ HttpResponse.decimal (s.created + 1))

/-- `connections_[name] = conn` -/
def assign (m : List (Bytes × Nat)) (name : Bytes) (c : Nat) : List (Bytes × Nat) :=
  (m.filter (·.1 ≠ name)).orderedInsert (fun a b => a.1 < b.1) (name, c)

/-- Up to `runInLoop`. -/
def create (s : TcpServer Tid) : TcpServer Tid :=
  { s.setConn s.created ⟨s.getNextLoop.1, s.connName, .new, []⟩ with
    next_ := s.getNextLoop.2
    connections := assign s.connections s.connName s.created
    created := s.created + 1 }

def newConnection (s : TcpServer Tid) : Except Fault (TcpServer Tid) :=
  s.create.runInLoop 0 s.getNextLoop.1 ⟨.connectEstablished, s.created⟩

/-- `closeCallback_`, called in loop `l`. -/
def removeConnection (s : TcpServer Tid) (l c : Nat) : Except Fault (TcpServer Tid) := do
  check (s.alive = true) .destroyed
  s.runInLoop l 0 ⟨.removeConnectionInLoop, c⟩

/-- Up to `connectionCallback_`. -/
def handleClose (s : TcpServer Tid) (l c : Nat) : Except Fault (TcpServer Tid) := do
  let life ← liftConn (s.conn c).life.handleClose
  return ((s.setLife c life).record c l .handleClose).enter l (.conn .closing c)

/-- The body of `~TcpServer` for one connection, which leaves `connections_`. -/
def drop (s : TcpServer Tid) (l c : Nat) (rest : List (Bytes × Nat)) :
    Except Fault (TcpServer Tid) :=
  ({ s with connections := rest }.record c l .dropped).runInLoop l (s.conn c).loop
    ⟨.connectDestroyed, c⟩

/-- Loop `l` goes on in the function it is in. -/
def step (s : TcpServer Tid) (l : Nat) : Except Fault (TcpServer Tid) :=
  match (s.loop l).stack with
  | [] => .ok s
  | .conn .established _ :: fs => .ok (s.setStack l fs)
  | .conn .message _ :: fs => .ok (s.setStack l fs)
  | .conn .closing c :: fs => (s.setStack l (.conn .closed c :: fs)).removeConnection l c
  | .conn .closed c :: fs => .ok ((s.setStack l fs).record c l .closed)
  | .conn .destroying c :: fs =>
      .ok ((s.setLife c (s.conn c).life.goDown).setStack l (.conn .down c :: fs))
  | .conn .down c :: fs => .ok ((s.setStack l fs).remove l c)
  | .destructor :: fs =>
      match s.connections with
      | (_, c) :: rest => s.drop l c rest
      | [] => .ok (s.setStack l (.quitting 1 :: fs))
  | .quitting i :: fs =>
      if i ≤ s.numThreads then .ok ((s.quit i).setStack l (.joining i :: fs))
      else .ok { s.setStack l fs with alive := false }
  | .joining i :: fs => .ok (s.setStack l (.quitting (i + 1) :: fs))

/-! ## The system -/

/-- Loop `l` runs and is in no function of the server's. -/
def idle (s : TcpServer Tid) (l : Nat) : Bool :=
  l ≤ s.numThreads && !(s.loop l).exited && (s.loop l).stack.isEmpty

/-- User code may be running in loop `l`. -/
def inUser (s : TcpServer Tid) (l : Nat) : Bool :=
  match (s.loop l).stack with
  | [] => s.idle l
  | f :: _ => f.isUser

/-- `~TcpServer` has begun. -/
def destructing (s : TcpServer Tid) : Bool :=
  !s.alive || (s.loop 0).stack.any Frame.isDestructor

/-- An event of the connection's channel may be handled. -/
def ready (s : TcpServer Tid) (c : Nat) : Bool :=
  c < s.created && s.idle (s.conn c).loop && (s.loop (s.conn c).loop).functors.isHandling
    && (s.conn c).life.isPolled

/-- User code has been given the connection. -/
def given (s : TcpServer Tid) (c : Nat) : Bool :=
  c < s.created && !(s.conn c).life.reports.isEmpty

/-- Is loop `l` waiting for another to end? -/
def blocked (s : TcpServer Tid) (l : Nat) : Bool :=
  match (s.loop l).stack with
  | .joining i :: _ => !(s.loop i).exited
  | _ => false

section System

variable [DecidableEq Tid]

def enabled (s : TcpServer Tid) : Event Tid → Bool
  | .newConnection => s.alive && s.idle 0 && (s.loop 0).functors.isHandling
  | .read c => s.ready c
  | .close c => s.ready c
  | .step l => !(s.loop l).stack.isEmpty && !s.blocked l
  | .swap l => s.idle l && (s.loop l).functors.isHandling
  | .functor l => s.idle l && !(s.loop l).functors.todo.isEmpty
  | .finish l =>
      s.idle l && !(s.loop l).functors.isHandling && (s.loop l).functors.todo.isEmpty
  | .destroy => s.inUser 0 && !s.destructing
  | .shutdown c => s.given c && s.inUser (s.conn c).loop
  | .shutdownTest t c => s.given c && (t, c) ∉ s.shutting
  | .shutdownSet t c => (t, c) ∈ s.shutting

def next (s : TcpServer Tid) : Event Tid → Except Fault (TcpServer Tid)
  | .newConnection => s.newConnection
  | .read c =>
      .ok ((s.record c (s.conn c).loop .handleRead).enter (s.conn c).loop (.conn .message c))
  | .close c => s.handleClose (s.conn c).loop c
  | .step l => s.step l
  | .swap l => .ok (s.setFunctors l (s.loop l).functors.swap)
  | .functor l =>
      match (s.loop l).functors.todo with
      | [] => .ok s
      | f :: _ => (s.setFunctors l (s.loop l).functors.advance).call l f
  | .finish l =>
      .ok (s.setLoop l { s.loop l with
        functors := (s.loop l).functors.finish, exited := (s.loop l).quit })
  | .destroy => .ok (s.enter 0 .destructor)
  | .shutdown c => .ok (s.setLife c (s.conn c).life.shutdown)
  | .shutdownTest t c =>
      .ok (if (s.conn c).life.state = .kConnected then { s with shutting := (t, c) :: s.shutting }
        else s)
  | .shutdownSet t c =>
      .ok { s.setLife c (s.conn c).life.setDisconnecting with shutting := s.shutting.erase (t, c) }

/-- A server just started, and everything its loops, the peers and any threads
may do. -/
def system : Lts (TcpServer Tid) (Event Tid) Fault where
  init s := ∃ name hostport numThreads, s = new name hostport numThreads
  enabled s a := s.enabled a = true
  next := next

instance (s : TcpServer Tid) (a : Event Tid) : Decidable (system.enabled s a) :=
  inferInstanceAs (Decidable (_ = true))

end System

/-! ## What the functions do -/

variable {s s' : TcpServer Tid} {l c c' : Nat}

theorem loop_setLoop_self {b : IoLoop} : (s.setLoop l b).loop l = b := Function.update_self ..

theorem loop_setLoop_ne {b : IoLoop} {l' : Nat} (h : l' ≠ l) :
    (s.setLoop l b).loop l' = s.loop l' := Function.update_of_ne h ..

theorem conn_setConn_self {k : Conn} : (s.setConn c k).conn c = k := Function.update_self ..

theorem conn_setConn_ne {k : Conn} (h : c' ≠ c) : (s.setConn c k).conn c' = s.conn c' :=
  Function.update_of_ne h ..

theorem life_record {m : Mark} : ((s.record c l m).conn c').life = (s.conn c').life := by
  by_cases h : c' = c
  · rw [h, record, conn_setConn_self]
  · rw [record, conn_setConn_ne h]

theorem loop_record {m : Mark} : ((s.record c l m).conn c').loop = (s.conn c').loop := by
  by_cases h : c' = c
  · rw [h, record, conn_setConn_self]
  · rw [record, conn_setConn_ne h]

theorem liftConn_ok {α : Type} {x : Except LifeFault α} {a : α} (h : liftConn x = .ok a) :
    x = .ok a := by
  cases x with
  | ok b => exact congrArg Except.ok (Except.ok.inj h)
  | error f => cases h

theorem connectEstablished_ok (h : s.connectEstablished l c = .ok s') :
    l = (s.conn c).loop ∧ ∃ life, (s.conn c).life.connectEstablished = .ok life ∧
      s' = ((s.setLife c life).record c l .connectEstablished).enter l (.conn .established c) := by
  obtain ⟨_, hl, h⟩ := bind_eq_ok h
  obtain ⟨life, hlife, h⟩ := bind_eq_ok h
  cases h
  exact ⟨of_check hl, life, liftConn_ok hlife, rfl⟩

theorem connectDestroyed_ok (h : s.connectDestroyed l c = .ok s') :
    l = (s.conn c).loop ∧
      ((s.conn c).life.state = .kConnected ∧
          s' = (s.record c l .connectDestroyed).enter l (.conn .destroying c) ∨
        (s.conn c).life.state ≠ .kConnected ∧
          s' = (s.record c l .connectDestroyed).remove l c) := by
  obtain ⟨_, hl, h⟩ := bind_eq_ok h
  refine ⟨of_check hl, ?_⟩
  simp only [life_record] at h
  split at h
  · rename_i hstate
    cases h
    exact Or.inl ⟨hstate, rfl⟩
  · rename_i hstate
    cases h
    exact Or.inr ⟨hstate, rfl⟩

theorem removeConnectionInLoop_ok (h : s.removeConnectionInLoop l c = .ok s') :
    s.alive = true ∧ l = 0 ∧ (s.connections.filter (·.1 = (s.conn c).name)).length = 1 ∧
      s' = ({ s with connections := s.connections.filter (·.1 ≠ (s.conn c).name) }.record c l
        .removeConnectionInLoop).queueInLoop (s.conn c).loop ⟨.connectDestroyed, c⟩ := by
  obtain ⟨_, halive, h⟩ := bind_eq_ok h
  obtain ⟨_, hl, h⟩ := bind_eq_ok h
  obtain ⟨_, hn, h⟩ := bind_eq_ok h
  cases h
  exact ⟨of_check halive, of_check hl, of_check hn, rfl⟩

theorem handleClose_ok (h : s.handleClose l c = .ok s') :
    ∃ life, (s.conn c).life.handleClose = .ok life ∧
      s' = ((s.setLife c life).record c l .handleClose).enter l (.conn .closing c) := by
  obtain ⟨life, hlife, h⟩ := bind_eq_ok h
  cases h
  exact ⟨life, liftConn_ok hlife, rfl⟩

theorem runInLoop_ok {caller : Nat} {f : Functor} (h : s.runInLoop caller l f = .ok s') :
    caller = l ∧ s.call l f = .ok s' ∨ caller ≠ l ∧ s' = s.queueInLoop l f := by
  unfold runInLoop at h
  split at h
  · rename_i heq
    exact Or.inl ⟨heq, h⟩
  · rename_i hne
    cases h
    exact Or.inr ⟨hne, rfl⟩

theorem conn_create_self :
    s.create.conn s.created = ⟨s.getNextLoop.1, s.connName, .new, []⟩ := Function.update_self ..

theorem conn_create_ne (h : c < s.created) : s.create.conn c = s.conn c :=
  conn_setConn_ne (Nat.ne_of_lt h)

end TcpServer

end Muduo
