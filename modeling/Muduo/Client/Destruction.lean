import Muduo.Client.Ownership

/-!
# `~TcpClient` in another thread

A client and its connector in their loop, and the destructor in a thread `d`
of its own, interleaved: the lock, which copies `connection_`; with a
connection, the functor that replaces its close callback; without, the
assignment and the functor of `Connector::stop()`; the end. Before it begins
any thread may call the client; it begins when no call is in progress, and
none begins afterwards. A call of `connect()`, `stop()` or `disconnect()` is
the assignments it makes, one event each, which nothing here keeps together.

The loop thread goes in steps as in `TcpClient`, but that `newConnection` and
`removeConnection` have a step of their own before they lock `mutex_`. What
the destructor does to the connector once it is stopped (a timer that binds
it, the references it gives up) calls nobody, and the connector goes on. So
does the memory of the client; that the loop thread is in one of its
callbacks then is what is asked.
-/

namespace Muduo

open Lib

namespace Destruction

open TcpClient (CloseCallback Fault lift liftConn)

inductive Functor where
  | connectDestroyed (c : Nat)
  | setCloseCallback (c : Nat)
deriving DecidableEq, Repr

structure Conn where
  life : Lifecycle
  closeCallback : CloseCallback
deriving DecidableEq

/-- Where the loop thread is in the client's callbacks, the connector's
functions aside: `newConnection` called, and past its lock, in
`connectionCallback_`; in `messageCallback_`; in `connectionCallback_` of
`handleClose`; `removeConnection` called, past its lock, past its test, and
past the assignments of `restart()`; in `connectDestroyed`, past its test, and
in `connectionCallback_` there. -/
inductive Frame where
  | idle
  | newConnection | established (c : Nat)
  | message (c : Nat)
  | closing (c : Nat)
  | removeConnection (c : Nat) | removing (c : Nat) | restarting (c : Nat) | restarted (c : Nat)
  | destroying (c : Nat) | down (c : Nat)
deriving DecidableEq, Repr

namespace Frame

/-- Is the loop thread in user code? -/
def isUser : Frame → Bool
  | idle => true
  | established _ => true
  | message _ => true
  | closing _ => true
  | down _ => true
  | _ => false

/-- In `removeConnection`, past its lock. -/
def isRemoving : Frame → Bool
  | removing _ => true
  | restarting _ => true
  | restarted _ => true
  | _ => false

/-- In `TcpClient::newConnection` or `TcpClient::removeConnection`. -/
def isInside : Frame → Bool
  | newConnection => true
  | established _ => true
  | removeConnection _ => true
  | f => f.isRemoving

end Frame

/-- Where the destructor is: not begun; past the lock; in
`Connector::stop()`, `connect_` assigned; past what it does to the
connection or the connector; returned. -/
inductive Stage where
  | before | copied | stopping | leaving | returned
deriving DecidableEq, Repr

end Destruction

open Destruction in
structure Destruction (Tid : Type) where
  connector : Connector Tid Functor
  retry : Bool
  connect_ : Bool
  connection : Option Nat
  conn : Nat → Conn
  created : Nat
  frame : Frame
  stage : Stage
  /-- The destructor's `conn`. -/
  copy : Option Nat

namespace Destruction

open TcpClient (CloseCallback Fault lift liftConn)

variable {Tid : Type}

/-- `TcpClient::TcpClient` -/
def new : Destruction Tid where
  connector := .new
  retry := false
  connect_ := true
  connection := none
  conn _ := ⟨.new, .removeConnection⟩
  created := 0
  frame := .idle
  stage := .before
  copy := none

/-! ## The functions -/

def goTo (s : Destruction Tid) (f : Frame) : Destruction Tid := { s with frame := f }

def setConn (s : Destruction Tid) (c : Nat) (k : Conn) : Destruction Tid :=
  { s with conn := Function.update s.conn c k }

def setLife (s : Destruction Tid) (c : Nat) (life : Lifecycle) : Destruction Tid :=
  s.setConn c { s.conn c with life := life }

def setCloseCallback (s : Destruction Tid) (c : Nat) (cb : CloseCallback) : Destruction Tid :=
  s.setConn c { s.conn c with closeCallback := cb }

def queueInLoop (s : Destruction Tid) (f : Functor) : Destruction Tid :=
  { s with connector := s.connector.queueInLoop (.other f) }

/-- From the lock on, up to the end of `connectEstablished`'s callback. -/
def newConnection (s : Destruction Tid) : Except Fault (Destruction Tid) := do
  let conn := s.created
  let life ← liftConn Lifecycle.new.connectEstablished
  return { s.setConn conn ⟨life, .removeConnection⟩ with
    created := conn + 1
    connection := some conn
    frame := .established conn }

/-- From the lock on, up to the test. -/
def removeConnection (s : Destruction Tid) (conn : Nat) : Except Fault (Destruction Tid) := do
  check (s.connection = some conn) .removeConnection
  return ({ s with connection := none }.queueInLoop (.connectDestroyed conn)).goTo (.removing conn)

def closeCallback (s : Destruction Tid) (conn : Nat) : Destruction Tid :=
  match (s.conn conn).closeCallback with
  | .removeConnection => s.goTo (.removeConnection conn)
  | .detail => (s.queueInLoop (.connectDestroyed conn)).goTo .idle

/-- `channel_->remove()`, the end of `connectDestroyed`. -/
def remove (s : Destruction Tid) (c : Nat) : Destruction Tid :=
  s.setLife c (s.conn c).life.remove

/-- Up to the test of `state_`, or to the end if it fails. -/
def connectDestroyed (s : Destruction Tid) (c : Nat) : Destruction Tid :=
  if (s.conn c).life.state = .kConnected then s.goTo (.destroying c) else s.remove c

def disconnect (s : Destruction Tid) : Destruction Tid :=
  match s.connection with
  | some c => { s with connect_ := false }.setLife c (s.conn c).life.shutdown
  | none => { s with connect_ := false }

def step (s : Destruction Tid) : Except Fault (Destruction Tid) :=
  match s.frame with
  | .idle => .ok s
  | .newConnection => s.newConnection
  | .established _ => .ok (s.goTo .idle)
  | .message _ => .ok (s.goTo .idle)
  | .closing c => .ok (s.closeCallback c)
  | .removeConnection c => s.removeConnection c
  | .removing c => .ok (s.goTo (if s.retry && s.connect_ then .restarting c else .idle))
  | .restarting c => .ok ({ s with connector := s.connector.restart }.goTo (.restarted c))
  | .restarted _ => .ok (s.goTo .idle)
  | .destroying c => .ok ((s.setLife c (s.conn c).life.goDown).goTo (.down c))
  | .down c => .ok ((s.remove c).goTo .idle)

def runFunctor (s : Destruction Tid) : Functor → Destruction Tid
  | .connectDestroyed c => s.connectDestroyed c
  | .setCloseCallback c => s.setCloseCallback c .detail

/-- What a step of the connector has the client do: `newConnection` is called,
or a functor of its own is run. -/
def after (s : Destruction Tid) (e : Connector.Event Tid Functor)
    (connector : Connector Tid Functor) : Destruction Tid :=
  let s' := { s with connector := connector }
  match e, s.connector.pc, s.connector.functors.todo with
  | .step, .connected _, _ => if s.connector.connect_ then s'.goTo .newConnection else s'
  | .functor, _, .other f :: _ => s'.runFunctor f
  | _, _, _ => s'

/-! ## The system -/

/-- What happens: the client's members are written in a call; the loop thread
goes on in the client; an event of a connection; the parts of the destructor,
of which `stop` and `queueStop` are those of `connector_->stop()`. -/
inductive Event (Tid : Type) where
  | setConnect (connect_ : Bool) | enableRetry | disconnect
  | connector (e : Connector.Event Tid Functor)
  | step
  | message (c : Nat) | close (c : Nat)
  | copyConnection
  | queueSetCloseCallback
  | stop | queueStop
  | returned

/-- An event of the connection may be handled. -/
def ready (s : Destruction Tid) (c : Nat) : Bool :=
  s.connector.pc = .idle && s.frame = .idle && s.connector.functors.isHandling &&
    (s.conn c).life.isPolled

/-- The events of the connector: calls, before the destructor; its own and the
loop's. -/
def offers (s : Destruction Tid) : Connector.Event Tid Functor → Bool
  | .start .loop => s.stage = .before && s.frame.isUser
  | .stop .loop => s.stage = .before && s.frame.isUser
  | .start (.other _) => s.stage = .before
  | .stop (.other _) => s.stage = .before
  | .queueStart _ => s.stage = .before
  | .queueStop _ => s.stage = .before
  | .step => true
  | .connect _ => true
  | .swap => s.frame = .idle
  | .functor => s.frame = .idle
  | .finish => s.frame = .idle
  | .timer _ => s.frame = .idle
  | .channel _ _ => s.frame = .idle
  | .restart => false
  | .queueInLoop _ => false
  | .lost => false

/-- No call of the client is in progress. -/
def noCalls (s : Destruction Tid) : Bool :=
  s.connector.starting.isEmpty && s.connector.stopping.isEmpty &&
    (s.connector.pc = .idle || s.frame = .idle || s.frame.isRemoving)

section System

variable [DecidableEq Tid] (d : Tid)

def enabled (s : Destruction Tid) : Event Tid → Bool
  | .setConnect _ => s.stage = .before
  | .enableRetry => s.stage = .before
  | .disconnect => s.stage = .before
  | .connector e => s.offers e && s.connector.enabled e
  | .step => s.connector.pc = .idle && s.frame ≠ .idle
  | .message c => s.ready c
  | .close c => s.ready c
  | .copyConnection => s.stage = .before && s.noCalls
  | .queueSetCloseCallback => s.stage = .copied && s.copy.isSome
  | .stop => s.stage = .copied && s.copy.isNone
  | .queueStop => s.stage = .stopping
  | .returned => s.stage = .leaving

def next (s : Destruction Tid) : Event Tid → Except Fault (Destruction Tid)
  | .setConnect connect_ => .ok { s with connect_ := connect_ }
  | .enableRetry => .ok { s with retry := true }
  | .disconnect => .ok s.disconnect
  | .connector e => do
      let connector ← lift (s.connector.next e)
      return s.after e connector
  | .step => s.step
  | .message c => .ok (s.goTo (.message c))
  | .close c => do
      let life ← liftConn (s.conn c).life.handleClose
      return (s.setLife c life).goTo (.closing c)
  | .copyConnection => .ok { s with copy := s.connection, stage := .copied }
  | .queueSetCloseCallback =>
      match s.copy with
      | some c => .ok { s.queueInLoop (.setCloseCallback c) with stage := .leaving }
      | none => .ok s
  | .stop => do
      let connector ← lift (s.connector.next (.stop (.other d)))
      return { s with connector := connector, stage := .stopping }
  | .queueStop => do
      let connector ← lift (s.connector.next (.queueStop d))
      return { s with connector := connector, stage := .leaving }
  | .returned => .ok { s with stage := .returned }

/-- A client just constructed, everything the loop, the sockets and any
threads may do to it, and its destructor in `d`. -/
def destruction : Lts (Destruction Tid) (Event Tid) Fault where
  init s := s = new
  enabled s a := s.enabled a = true
  next := next d

instance (s : Destruction Tid) (a : Event Tid) : Decidable ((destruction d).enabled s a) :=
  inferInstanceAs (Decidable (_ = true))

end System

end Destruction

end Muduo
