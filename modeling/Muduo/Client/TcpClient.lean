import Muduo.Client.Connector
import Muduo.Net.Lifecycle

/-!
# `TcpClient`, step by step

A client over its `Connector`, in one event loop, with other threads that
call `connect()` and `stop()`. Both classes have a `connect_` of their own,
written without a lock, so each assignment is a step: `connect()` sets the
client's, then `Connector::start()` sets the connector's, then the functor is
queued. The loop thread goes in steps up to its next access to either, and
up to each callback, where user code may call the client or destroy it.

The connections the client has had are numbered; all are established as they
are created. A functor of the loop that is not the connector's is a
`connectDestroyed`, and binds the connection it is for. After `~TcpClient`
the connector goes on by itself, as it does while a timer binds it.

`destroyed`, `begun`, `flagged`, `returned` and `stops` are a record for the
theorems and not in the code.
-/

namespace Muduo

open Lib

namespace TcpClient

/-- What `closeCallback_` of a connection is bound to. -/
inductive CloseCallback where
  | removeConnection
  /-- `detail::removeConnection` -/
  | detail
deriving DecidableEq, Repr

structure Conn where
  life : Lifecycle
  closeCallback : CloseCallback
  /-- `connectDestroyed` has run. -/
  destroyed : Bool
deriving DecidableEq

/-- Where the loop thread is in the client's callbacks, the connector's
functions aside: in `connectionCallback_` as a connection comes up; in
`messageCallback_`; in `connectionCallback_` of `handleClose`; in
`removeConnection`, at its test, and past it with `restart()` to come; in
`connectDestroyed`, past its test; in `connectionCallback_` there. -/
inductive Frame where
  | idle
  | established (c : Nat) | message (c : Nat)
  | closing (c : Nat)
  | removing (c : Nat) | restarting (c : Nat)
  | destroying (c : Nat) | down (c : Nat)
deriving DecidableEq, Repr

/-- Is the loop thread in user code? -/
def Frame.isUser : Frame → Bool
  | idle => true
  | established _ => true
  | message _ => true
  | closing _ => true
  | down _ => true
  | _ => false

/-- A call the loop thread is in, past the client's `connect_`. -/
inductive LoopCall where
  | start | stop
deriving DecidableEq, Repr

end TcpClient

open TcpClient in
/-- `starting` and `stopping` are the other threads in `connect()` and
`stop()`, the client's `connect_` assigned and the connector's not yet. -/
structure TcpClient (Tid : Type) where
  connector : Connector Tid Nat
  retry : Bool
  connect_ : Bool
  connection : Option Nat
  /-- The destructor has not run. -/
  alive : Bool
  conn : Nat → Conn
  created : Nat
  frame : Frame
  call : Option LoopCall
  starting : List Tid
  stopping : List Tid
  /-- Threads in `stop()`, no `connect()` having begun since. -/
  begun : List Tid
  /-- Of these, those past `Connector::stop()`'s assignment, no
  `Connector::start()` having been called since. -/
  flagged : List Tid
  /-- Such a call has returned, and its functor was the one of that number. -/
  returned : Option Nat
  /-- How many `stopInLoop` functors have been queued. -/
  stops : Nat

namespace TcpClient

/-- `assert(connection_ == conn)`, and a callback to a client destroyed. -/
inductive Fault where
  | connector (f : Connector.Fault)
  | conn (f : LifeFault)
  | removeConnection
  | destroyed
deriving DecidableEq, Repr

/-- What happens. `connectorStart` and `connectorStop` are the second
assignments of `connect()` and `stop()`; `step` is the loop thread going on
in the client; `message` and `close` are events of a connection. -/
inductive Event (Tid : Type) where
  | connect (t : Caller Tid) | connectorStart (t : Caller Tid)
  | stop (t : Caller Tid) | connectorStop (t : Caller Tid)
  | disconnect | enableRetry | destroy
  | step
  | message (c : Nat) | close (c : Nat)
  | connector (e : Connector.Event Tid Nat)

variable {Tid : Type}

/-- `TcpClient::TcpClient` -/
def new : TcpClient Tid where
  connector := .new
  retry := false
  connect_ := true
  connection := none
  alive := true
  conn _ := ⟨.new, .removeConnection, false⟩
  created := 0
  frame := .idle
  call := none
  starting := []
  stopping := []
  begun := []
  flagged := []
  returned := none
  stops := 0

/-! ## The functions -/

def goTo (s : TcpClient Tid) (f : Frame) : TcpClient Tid := { s with frame := f }

def setConn (s : TcpClient Tid) (c : Nat) (k : Conn) : TcpClient Tid :=
  { s with conn := fun c' => if c' = c then k else s.conn c' }

def setLife (s : TcpClient Tid) (c : Nat) (life : Lifecycle) : TcpClient Tid :=
  s.setConn c { s.conn c with life := life }

def queueInLoop (s : TcpClient Tid) (f : Connector.Functor Nat) : TcpClient Tid :=
  { s with connector := s.connector.queueInLoop f }

/-- A step of the connector. -/
def lift {α : Type} : Except Connector.Fault α → Except Fault α
  | .ok a => .ok a
  | .error f => .error (.connector f)

def liftConn {α : Type} : Except LifeFault α → Except Fault α
  | .ok a => .ok a
  | .error f => .error (.conn f)

/-- Up to the end of `connectEstablished`'s callback. -/
def newConnection (s : TcpClient Tid) : Except Fault (TcpClient Tid) := do
  check (s.alive = true) .destroyed
  let conn := s.created
  let life ← liftConn Lifecycle.new.connectEstablished
  return { s.setConn conn ⟨life, .removeConnection, false⟩ with
    created := conn + 1
    connection := some conn
    frame := .established conn }

/-- Up to the test. -/
def removeConnection (s : TcpClient Tid) (conn : Nat) : Except Fault (TcpClient Tid) := do
  check (s.alive = true) .destroyed
  check (s.connection = some conn) .removeConnection
  return ({ s with connection := none }.queueInLoop (.other conn)).goTo (.removing conn)

def closeCallback (s : TcpClient Tid) (conn : Nat) : Except Fault (TcpClient Tid) :=
  match (s.conn conn).closeCallback with
  | .removeConnection => s.removeConnection conn
  | .detail => .ok ((s.queueInLoop (.other conn)).goTo .idle)

/-- `channel_->remove()`, the end of `connectDestroyed`. -/
def remove (s : TcpClient Tid) (c : Nat) : TcpClient Tid :=
  s.setConn c { s.conn c with life := (s.conn c).life.remove, destroyed := true }

/-- Up to the test of `state_`, or to the end if it fails. -/
def connectDestroyed (s : TcpClient Tid) (c : Nat) : TcpClient Tid :=
  if (s.conn c).life.state = .kConnected then s.goTo (.destroying c) else s.remove c

/-- `TcpClient::~TcpClient` -/
def destroy (s : TcpClient Tid) : TcpClient Tid :=
  match s.connection with
  | some c =>
      { s.setConn c { s.conn c with closeCallback := .detail } with
        connection := none, alive := false }
  | none => { s with alive := false, call := some .stop }

def disconnect (s : TcpClient Tid) : TcpClient Tid :=
  match s.connection with
  | some c => { s with connect_ := false }.setLife c (s.conn c).life.shutdown
  | none => { s with connect_ := false }

def step (s : TcpClient Tid) : Except Fault (TcpClient Tid) :=
  match s.frame with
  | .idle => .ok s
  | .established _ => .ok (s.goTo .idle)
  | .message _ => .ok (s.goTo .idle)
  | .closing c => s.closeCallback c
  | .removing c => .ok (s.goTo (if s.retry && s.connect_ then .restarting c else .idle))
  | .restarting _ => .ok ({ s with connector := s.connector.restart }.goTo .idle)
  | .destroying c => .ok ((s.setLife c (s.conn c).life.goDown).goTo (.down c))
  | .down c => .ok ((s.remove c).goTo .idle)

/-- What a step of the connector has the client do: take a connection, or run
a functor of its own. -/
def after (s : TcpClient Tid) (e : Connector.Event Tid Nat) (connector : Connector Tid Nat) :
    Except Fault (TcpClient Tid) :=
  match e, s.connector.pc, s.connector.functors.todo with
  | .step, .connected _, _ =>
      if s.connector.connect_ then { s with connector := connector }.newConnection
      else .ok { s with connector := connector }
  | .functor, _, .other c :: _ => .ok ({ s with connector := connector }.connectDestroyed c)
  | _, _, _ => .ok { s with connector := connector }

/-! ## The system -/

/-- The loop thread is in user code. -/
def inUser (s : TcpClient Tid) : Bool :=
  s.call = none && s.connector.pc = .idle && s.frame.isUser

/-- The loop thread is in the loop. -/
def inLoop (s : TcpClient Tid) : Bool :=
  s.call = none && s.connector.pc = .idle && s.frame = .idle

/-- An event of the connection may be handled. -/
def ready (s : TcpClient Tid) (c : Nat) : Bool :=
  s.inLoop && s.connector.functors.isHandling && (s.conn c).life.isPolled

section System

variable [DecidableEq Tid]

/-- A thread other than the loop's may begin a call. -/
def free (s : TcpClient Tid) : Caller Tid → Bool
  | .loop => s.inUser && s.alive
  | .other t => s.alive && t ∉ s.starting && t ∉ s.stopping && s.connector.free (.other t)

/-- The events of the connector that are its own or the loop's; the others are
those of the client. -/
def ownEvent (s : TcpClient Tid) : Connector.Event Tid Nat → Bool
  | .queueStart _ => true
  | .queueStop _ => true
  | .step => true
  | .connect _ => true
  | .swap => s.inLoop
  | .functor => s.inLoop
  | .finish => s.inLoop
  | .timer _ => s.inLoop
  | .channel _ _ => s.inLoop
  | _ => false

def enabled (s : TcpClient Tid) : Event Tid → Bool
  | .connect t => s.free t
  | .connectorStart .loop => s.call = some .start
  | .connectorStart (.other t) => t ∈ s.starting
  | .stop t => s.free t
  | .connectorStop .loop => s.call = some .stop
  | .connectorStop (.other t) => t ∈ s.stopping
  | .disconnect => s.inUser && s.alive
  | .enableRetry => s.alive
  | .destroy => s.inUser && s.alive && s.starting.isEmpty && s.stopping.isEmpty
  | .step => s.call = none && s.connector.pc = .idle && s.frame ≠ .idle
  | .message c => s.ready c
  | .close c => s.ready c
  | .connector e => s.ownEvent e && s.connector.enabled e

def next (s : TcpClient Tid) : Event Tid → Except Fault (TcpClient Tid)
  | .connect .loop =>
      .ok { s with
        connect_ := true, call := some .start, begun := [], flagged := [], returned := none }
  | .connect (.other t) =>
      .ok { s with
        connect_ := true, starting := t :: s.starting
        begun := [], flagged := [], returned := none }
  | .connectorStart .loop => do
      let connector ← lift (s.connector.next (.start .loop))
      return { s with connector := connector, call := none, flagged := [], returned := none }
  | .connectorStart (.other t) => do
      let connector ← lift (s.connector.next (.start (.other t)))
      return { s with
        connector := connector, starting := s.starting.erase t, flagged := [], returned := none }
  | .stop .loop => .ok { s with connect_ := false, call := some .stop }
  | .stop (.other t) =>
      .ok { s with connect_ := false, stopping := t :: s.stopping, begun := t :: s.begun }
  | .connectorStop .loop => do
      let connector ← lift (s.connector.next (.stop .loop))
      return { s with connector := connector, call := none }
  | .connectorStop (.other t) => do
      let connector ← lift (s.connector.next (.stop (.other t)))
      return { s with
        connector := connector, stopping := s.stopping.erase t
        begun := s.begun.erase t
        flagged := if t ∈ s.begun then t :: s.flagged else s.flagged }
  | .disconnect => .ok s.disconnect
  | .enableRetry => .ok { s with retry := true }
  | .destroy => .ok s.destroy
  | .step => s.step
  | .message c => .ok (s.goTo (.message c))
  | .close c => do
      let life ← liftConn (s.conn c).life.handleClose
      return (s.setLife c life).goTo (.closing c)
  | .connector (.queueStop t) => do
      let connector ← lift (s.connector.next (.queueStop t))
      return { s with
        connector := connector, stops := s.stops + 1
        flagged := s.flagged.erase t
        returned := s.returned.or (if t ∈ s.flagged then some (s.stops + 1) else none) }
  | .connector e => do
      let connector ← lift (s.connector.next e)
      s.after e connector

/-- A client just constructed, and everything the loop, the sockets and any
threads may do to it. -/
def system : Lts (TcpClient Tid) (Event Tid) Fault where
  init s := s = new
  enabled s a := s.enabled a = true
  next := next

instance (s : TcpClient Tid) (a : Event Tid) : Decidable (system.enabled s a) :=
  inferInstanceAs (Decidable (_ = true))

end System

/-! ## Connections -/

variable {s : TcpClient Tid} {c c' : Nat} {k : Conn} {life : Lifecycle}

theorem conn_setConn_self : (s.setConn c k).conn c = k := if_pos rfl

theorem conn_setConn_ne (h : c' ≠ c) : (s.setConn c k).conn c' = s.conn c' := if_neg h

theorem conn_setLife_self : (s.setLife c life).conn c = { s.conn c with life := life } :=
  if_pos rfl

theorem conn_setLife_ne (h : c' ≠ c) : (s.setLife c life).conn c' = s.conn c' := if_neg h

/-! ## The connector's steps -/

variable {s' : TcpClient Tid} {e : Connector.Event Tid Nat} {connector : Connector Tid Nat}

/-- A step of the connector establishes a connection, runs a functor of the
client's, or does nothing to the client. -/
inductive After (s : TcpClient Tid) (e : Connector.Event Tid Nat) (connector : Connector Tid Nat)
    (s' : TcpClient Tid) : Prop
  | established {sockfd : Nat} (event : e = .step) (pc : s.connector.pc = .connected sockfd)
      (flag : s.connector.connect_ = true)
      (result : { s with connector := connector }.newConnection = .ok s')
  | destroyed {c : Nat} {fs : List (Connector.Functor Nat)} (event : e = .functor)
      (todo : s.connector.functors.todo = .other c :: fs)
      (result : s' = { s with connector := connector }.connectDestroyed c)
  | nothing (todo : e = .functor → ∀ c fs, s.connector.functors.todo ≠ .other c :: fs)
      (result : s' = { s with connector := connector })

theorem after_of_ok (h : s.after e connector = .ok s') : After s e connector s' := by
  unfold after at h
  split at h
  · rename_i hpc
    split at h
    · rename_i hflag
      exact .established rfl hpc hflag h
    · cases h
      exact .nothing (fun hf => by cases hf) rfl
  · rename_i hf
    cases h
    exact .destroyed rfl hf rfl
  · rename_i hother
    cases h
    exact .nothing (fun he c fs hf => hother c fs he hf) rfl

theorem inLoop_idle (h : s.inLoop = true) : s.connector.pc = .idle ∧ s.frame = .idle := by
  simp only [inLoop, Bool.and_eq_true, decide_eq_true_eq] at h
  exact ⟨h.1.2, h.2⟩

theorem lift_ok {α : Type} {x : Except Connector.Fault α} {a : α} (h : lift x = .ok a) :
    x = .ok a := by
  cases x with
  | ok b => exact congrArg Except.ok (Except.ok.inj h)
  | error f => cases h

theorem liftConn_ok {α : Type} {x : Except LifeFault α} {a : α} (h : liftConn x = .ok a) :
    x = .ok a := by
  cases x with
  | ok b => exact congrArg Except.ok (Except.ok.inj h)
  | error f => cases h

theorem isOwn_of_ownEvent (h : s.ownEvent e = true) : e.isOwn = true := by
  cases e with
  | start t => cases h
  | stop t => cases h
  | restart => cases h
  | _ => rfl

variable [DecidableEq Tid]

/-- The events of the connector but for the end of a `stop()`, which the record
follows. -/
theorem next_connector (h : ∀ t, e ≠ .queueStop t) :
    s.next (.connector e) = lift (s.connector.next e) >>= s.after e := by
  cases e with
  | queueStop t => exact absurd rfl (h t)
  | _ => rfl

end TcpClient

end Muduo
