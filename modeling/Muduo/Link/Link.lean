import Muduo.Server.TcpServer

/-!
# One connection and those who call it

A `TcpConnection`, its loop, its owner (a server or a client) and any number
of threads that hold a `TcpConnectionPtr`. A step is that of one thread:
`send` and `shutdown` in a thread other than the loop's test `state_` in one
step and queue their functor in another, and anything may come in between.

Those functors bind `this`. `connectEstablished`, `connectDestroyed` and the
client's `setCloseCallback` are queued with a pointer, which lasts until the
end of the pass that runs them (`Batch.held`).

The destructor of the owner is one step, as far as this connection goes.
Nothing in `TcpConnection.cc` calls `enableWriting`. What `write(2)` accepts
is a parameter (`Kernel`).

`sent` is a record for the theorems and not in the code.
-/

namespace Muduo

open Lib

namespace Link

open TcpServer (Point)

/-- What the queue of the loop has of the connection: bound to `this`, or to a
`TcpConnectionPtr`. -/
inductive Functor where
  | raw (f : ConnFunctor)
  | connectEstablished | connectDestroyed | setCloseCallback
deriving DecidableEq

def Functor.isRaw : Functor → Bool
  | raw _ => true
  | _ => false

/-- A server, of whose acceptor the connection's loop is the loop or is not; a
client. -/
inductive Owner where
  | server (sameLoop : Bool) | client
deriving DecidableEq

/-- Where a thread is: in `send`, past its test; in `shutdown`, past its test; past
`setState` there. -/
inductive Progress where
  | send (message : Bytes) | shutdown | shutdownInLoop
deriving DecidableEq

end Link

open Link in
structure Link (Tid : Type) where
  owner : Owner
  life : Lifecycle
  socket : Socket
  functors : Batch Functor
  /-- The functions of the connection that its loop is in. -/
  stack : List TcpServer.Point
  /-- `connections_` of the server has it, or it is `connection_` of the client. -/
  slot : Bool
  /-- The `removeConnectionInLoop`s in the queue of the acceptor's loop. -/
  removing : Nat
  /-- The owner is not destroyed. -/
  alive : Bool
  /-- `closeCallback_` is `detail::removeConnection`. -/
  detached : Bool
  /-- The holders of a pointer, once for each. -/
  callers : List Tid
  calls : List (Tid × Progress)
  /-- The messages `send` has accepted. -/
  sent : List Bytes

namespace Link

open TcpServer (Point)

/-- A failed assertion, a use of an owner destroyed, or of the connection itself. -/
inductive Fault where
  | conn (f : LifeFault)
  /-- `assert(n == 1)`, or `assert(connection_ == conn)` -/
  | slot
  | destroyed
  | freed
deriving DecidableEq, Repr

/-- What happens: in the loop; to the owner; in the other threads. -/
inductive Event (Tid : Type) where
  | read | close | step | swap | functor | finish
  | send (message : Bytes) | shutdown
  | removeConnectionInLoop | destroy (inLoop : Bool)
  | share (t : Tid) | drop (t : Tid)
  | callSend (t : Tid) (message : Bytes) | queueSend (t : Tid) (message : Bytes)
  | callShutdown (t : Tid) | setDisconnecting (t : Tid) | queueShutdown (t : Tid)

variable {Tid : Type}

/-- Past the constructor, and in the owner's hands. -/
def new (owner : Owner) : Link Tid where
  owner := owner
  life := .new
  socket := .new
  functors := .empty
  stack := []
  slot := true
  removing := 0
  alive := true
  detached := false
  callers := []
  calls := []
  sent := []

/-! ## References -/

/-- The references to the connection. A loop in a function of it has one, in the
guard of the channel's `tie`, in a functor or in a local variable. -/
def refs (s : Link Tid) : Nat :=
  (if s.slot then 1 else 0) + s.removing + s.stack.length + s.callers.length +
    s.functors.held.countP (!·.isRaw)

/-! ## Changes -/

def setLife (s : Link Tid) (life : Lifecycle) : Link Tid := { s with life := life }

def setStack (s : Link Tid) (ps : List Point) : Link Tid := { s with stack := ps }

def enter (s : Link Tid) (p : Point) : Link Tid := s.setStack (p :: s.stack)

def setFunctors (s : Link Tid) (fs : Batch Functor) : Link Tid := { s with functors := fs }

def queueInLoop (s : Link Tid) (f : Functor) : Link Tid := s.setFunctors (s.functors.push f)

/-! ## The functions -/

def Functor.unbound : Functor → Option ConnFunctor
  | raw f => some f
  | _ => none

/-- The sending side. -/
def tcp (s : Link Tid) : TcpConnection where
  state := s.life.state
  socket := s.socket
  isWriting := false
  outputBuffer := []
  queued := s.functors.queued.filterMap Functor.unbound

/-- `sendInLoop` or `shutdownInLoop` -/
def run (k : Kernel) (s : Link Tid) (f : ConnFunctor) : Link Tid :=
  { s with socket := (s.tcp.runFunctor k f).socket }

def liftConn {α : Type} : Except LifeFault α → Except Fault α
  | .ok a => .ok a
  | .error f => .error (.conn f)

/-- Up to `connectionCallback_`. -/
def connectEstablished (s : Link Tid) : Except Fault (Link Tid) := do
  let life ← liftConn s.life.connectEstablished
  return (s.setLife life).enter .established

/-- Up to the test of `state_`, or to the end if it fails. -/
def connectDestroyed (s : Link Tid) : Link Tid :=
  if s.life.state = .kConnected then s.enter .destroying else s.setLife s.life.remove

/-- Up to `connectionCallback_`. -/
def handleClose (s : Link Tid) : Except Fault (Link Tid) := do
  let life ← liftConn s.life.handleClose
  return (s.setLife life).enter .closing

/-- `removeConnectionInLoop` of a server, `removeConnection` of a client. -/
def remove (s : Link Tid) : Except Fault (Link Tid) := do
  check (s.alive = true) .destroyed
  check (s.slot = true) .slot
  return { s with slot := false }.queueInLoop .connectDestroyed

def closeCallback (s : Link Tid) : Except Fault (Link Tid) :=
  match s.owner with
  | .server true => s.remove
  | .server false => do
      check (s.alive = true) .destroyed
      return { s with removing := s.removing + 1 }
  | .client => if s.detached then .ok (s.queueInLoop .connectDestroyed) else s.remove

/-- The loop goes on in the function it is in. -/
def step (s : Link Tid) : Except Fault (Link Tid) :=
  match s.stack with
  | [] => .ok s
  | .established :: ps => .ok (s.setStack ps)
  | .message :: ps => .ok (s.setStack ps)
  | .closing :: ps => (s.setStack (.closed :: ps)).closeCallback
  | .closed :: ps => .ok (s.setStack ps)
  | .destroying :: ps => .ok ((s.setLife s.life.goDown).setStack (.down :: ps))
  | .down :: ps => .ok ((s.setLife s.life.remove).setStack ps)

/-- `~TcpServer` or `~TcpClient`, in the loop or in another thread. -/
def destroy (s : Link Tid) (inLoop : Bool) : Link Tid :=
  if s.slot then
    match s.owner with
    | .server true => { s with alive := false, slot := false }.connectDestroyed
    | .server false => { s with alive := false, slot := false }.queueInLoop .connectDestroyed
    | .client =>
        if inLoop then { s with alive := false, slot := false, detached := true }
        else { s with alive := false, slot := false }.queueInLoop .setCloseCallback
  else { s with alive := false }

def call (k : Kernel) (s : Link Tid) : Functor → Except Fault (Link Tid)
  | .raw f => do
      check (0 < s.refs) .freed
      return s.run k f
  | .connectEstablished => s.connectEstablished
  | .connectDestroyed => .ok s.connectDestroyed
  | .setCloseCallback => .ok { s with detached := true }

/-- `newConnection` of the owner, at its end: the connection is in another loop, or
it is established at once. -/
def start (owner : Owner) : Except Fault (Link Tid) :=
  match owner with
  | .server false => .ok ((new owner).queueInLoop .connectEstablished)
  | _ => (new owner).connectEstablished

/-! ## The system -/

def idle (s : Link Tid) : Bool := s.stack.isEmpty

/-- User code may be running in the loop. -/
def inUser (s : Link Tid) : Bool :=
  match s.stack with
  | [] => true
  | p :: _ => p.isUser

/-- User code has a pointer: the argument of a callback, its own, or that of
`TcpClient::connection()`. -/
def has (s : Link Tid) : Bool :=
  (s.inUser && !s.stack.isEmpty) || !s.callers.isEmpty || (s.owner = .client && s.slot)

/-- An event of the channel may be handled: the loop polls it, and its `tie` holds. -/
def ready (s : Link Tid) : Bool :=
  s.idle && s.functors.isHandling && s.life.isPolled && 0 < s.refs

/-- May the destructor run there? -/
def mayDestroy (s : Link Tid) (inLoop : Bool) : Bool :=
  s.alive && (!inLoop || s.inUser) &&
    match s.owner with
    | .server sameLoop => sameLoop = inLoop
    | .client => true

section System

variable [DecidableEq Tid]

/-- The thread has a pointer and is in no call. -/
def free (s : Link Tid) (t : Tid) : Bool := t ∈ s.callers && !s.calls.any (·.1 = t)

def enabled (s : Link Tid) : Event Tid → Bool
  | .read => s.ready
  | .close => s.ready
  | .step => !s.stack.isEmpty
  | .swap => s.idle && s.functors.isHandling
  | .functor => s.idle && !s.functors.todo.isEmpty
  | .finish => s.idle && !s.functors.isHandling && s.functors.todo.isEmpty
  | .send _ => s.inUser && s.has
  | .shutdown => s.inUser && s.has
  | .removeConnectionInLoop => 0 < s.removing
  | .destroy inLoop => s.mayDestroy inLoop
  | .share _ => s.has
  | .drop t => s.free t
  | .callSend t _ => s.free t
  | .queueSend t message => (t, .send message) ∈ s.calls
  | .callShutdown t => s.free t
  | .setDisconnecting t => (t, .shutdown) ∈ s.calls
  | .queueShutdown t => (t, .shutdownInLoop) ∈ s.calls

def next (k : Kernel) (s : Link Tid) : Event Tid → Except Fault (Link Tid)
  | .read => .ok (s.enter .message)
  | .close => s.handleClose
  | .step => s.step
  | .swap => .ok (s.setFunctors s.functors.swap)
  | .functor =>
      match s.functors.todo with
      | [] => .ok s
      | f :: _ => (s.setFunctors s.functors.advance).call k f
  | .finish => .ok (s.setFunctors s.functors.finish)
  | .send message =>
      .ok (if s.life.state = .kConnected then
        { s with sent := s.sent ++ [message] }.run k (.sendInLoop message) else s)
  | .shutdown =>
      .ok (if s.life.state = .kConnected then
        (s.setLife s.life.setDisconnecting).run k .shutdownInLoop else s)
  | .removeConnectionInLoop => { s with removing := s.removing - 1 }.remove
  | .destroy inLoop => .ok (s.destroy inLoop)
  | .share t => .ok { s with callers := t :: s.callers }
  | .drop t => .ok { s with callers := s.callers.erase t }
  | .callSend t message =>
      .ok (if s.life.state = .kConnected then
        { s with calls := (t, .send message) :: s.calls, sent := s.sent ++ [message] } else s)
  | .queueSend t message =>
      .ok ({ s with calls := s.calls.erase (t, .send message) }.queueInLoop
        (.raw (.sendInLoop message)))
  | .callShutdown t =>
      .ok (if s.life.state = .kConnected then { s with calls := (t, .shutdown) :: s.calls } else s)
  | .setDisconnecting t =>
      .ok { s.setLife s.life.setDisconnecting with
        calls := (t, .shutdownInLoop) :: s.calls.erase (t, .shutdown) }
  | .queueShutdown t =>
      .ok ({ s with calls := s.calls.erase (t, .shutdownInLoop) }.queueInLoop
        (.raw .shutdownInLoop))

/-- A connection from its beginning, and everything its loop, its owner, the peer
and any threads may do. -/
def system (k : Kernel) : Lts (Link Tid) (Event Tid) Fault where
  init s := ∃ owner, start owner = .ok s
  enabled s a := s.enabled a = true
  next := next k

instance (k : Kernel) (s : Link Tid) (a : Event Tid) : Decidable ((system k).enabled s a) :=
  inferInstanceAs (Decidable (_ = true))

end System

theorem liftConn_ok {α : Type} {x : Except LifeFault α} {a : α} (h : liftConn x = .ok a) :
    x = .ok a := by
  cases x with
  | ok b => exact congrArg Except.ok (Except.ok.inj h)
  | error f => cases h

variable {s s' s'' s₁ s₂ s₃ : Link Tid} {k : Kernel} {t : Tid} {message : Bytes}

/-! ## The end of the connection -/

/-- Queued on the way to the end. -/
def Functor.isLast : Functor → Bool
  | connectDestroyed => true
  | setCloseCallback => true
  | _ => false

theorem isRaw_of_isLast {f : Functor} (h : f.isLast = true) : f.isRaw = false := by
  cases f with
  | raw f => cases h
  | _ => rfl

/-- Nothing is written or called, no functor runs, and what is queued is for the end. -/
structure Silent (s s' : Link Tid) : Prop where
  state : s'.life.state = s.life.state
  reports : s'.life.reports = s.life.reports
  socket : s'.socket = s.socket
  sent : s'.sent = s.sent
  callers : s'.callers = s.callers
  calls : s'.calls = s.calls
  ran : s'.functors.ran = s.functors.ran
  todo : s'.functors.todo = s.functors.todo
  pending : ∃ fs, (∀ f ∈ fs, f.isLast = true) ∧
    s'.functors.pending = s.functors.pending ++ fs

theorem Silent.of_functors (hstate : s'.life.state = s.life.state)
    (hreports : s'.life.reports = s.life.reports) (hsocket : s'.socket = s.socket)
    (hsent : s'.sent = s.sent) (hcallers : s'.callers = s.callers)
    (hcalls : s'.calls = s.calls) (hfunctors : s'.functors = s.functors) : Silent s s' := by
  refine ⟨hstate, hreports, hsocket, hsent, hcallers, hcalls, ?_, ?_, [], by simp, ?_⟩
  all_goals simp [hfunctors]

theorem Silent.trans (h : Silent s s') (h' : Silent s' s'') : Silent s s'' where
  state := h'.state.trans h.state
  reports := h'.reports.trans h.reports
  socket := h'.socket.trans h.socket
  sent := h'.sent.trans h.sent
  callers := h'.callers.trans h.callers
  calls := h'.calls.trans h.calls
  ran := h'.ran.trans h.ran
  todo := h'.todo.trans h.todo
  pending := by
    obtain ⟨fs, hfs, heq⟩ := h.pending
    obtain ⟨fs', hfs', heq'⟩ := h'.pending
    refine ⟨fs ++ fs', fun f hf => ?_, by rw [heq', heq, List.append_assoc]⟩
    exact (List.mem_append.mp hf).elim (hfs f) (hfs' f)

theorem Silent.queued (h : Silent s s') : ∃ fs, (∀ f ∈ fs, f.isLast = true) ∧
    s'.functors.queued = s.functors.queued ++ fs := by
  obtain ⟨fs, hfs, heq⟩ := h.pending
  refine ⟨fs, hfs, ?_⟩
  rw [Batch.queued, Batch.queued, h.todo, heq, List.append_assoc]

theorem silent_queueInLoop {f : Functor} (hf : f.isLast = true) : Silent s (s.queueInLoop f) :=
  ⟨rfl, rfl, rfl, rfl, rfl, rfl, rfl, rfl, [f], by simpa using hf, rfl⟩

theorem silent_connectDestroyed : Silent s s.connectDestroyed := by
  unfold connectDestroyed
  split <;> exact .of_functors rfl rfl rfl rfl rfl rfl rfl

theorem silent_remove (h : s.remove = .ok s') : Silent s s' := by
  obtain ⟨_, _, h⟩ := bind_eq_ok h
  obtain ⟨_, _, h⟩ := bind_eq_ok h
  cases h
  have hslot : Silent s { s with slot := false } := .of_functors rfl rfl rfl rfl rfl rfl rfl
  exact hslot.trans (silent_queueInLoop rfl)

theorem silent_closeCallback (h : s.closeCallback = .ok s') : Silent s s' := by
  unfold closeCallback at h
  split at h
  · exact silent_remove h
  · obtain ⟨_, _, h⟩ := bind_eq_ok h
    cases h
    exact .of_functors rfl rfl rfl rfl rfl rfl rfl
  · split at h
    · cases h
      exact silent_queueInLoop rfl
    · exact silent_remove h

theorem silent_destroy {inLoop : Bool} : Silent s (s.destroy inLoop) := by
  have hslot : Silent s { s with alive := false, slot := false } :=
    .of_functors rfl rfl rfl rfl rfl rfl rfl
  unfold destroy
  split
  · split
    · exact hslot.trans silent_connectDestroyed
    · exact hslot.trans (silent_queueInLoop rfl)
    · split
      · exact .of_functors rfl rfl rfl rfl rfl rfl rfl
      · exact hslot.trans (silent_queueInLoop rfl)
  · exact .of_functors rfl rfl rfl rfl rfl rfl rfl

/-! ## `send` and `shutdown` -/

theorem tcp_queueInLoop (f : ConnFunctor) :
    (s.queueInLoop (.raw f)).tcp = { s.tcp with queued := s.tcp.queued ++ [f] } := by
  simp [tcp, queueInLoop, setFunctors, Functor.unbound]

variable [DecidableEq Tid]

/-- In the loop they are the functions of `TcpConnection`. -/
theorem tcp_send (h : s.next k (.send message) = .ok s') :
    s'.tcp = s.tcp.sendPiece k true message := by
  cases h
  by_cases hstate : s.life.state = .kConnected
  · rw [if_pos hstate, TcpConnection.sendPiece_connected hstate]
    rfl
  · rw [if_neg hstate]
    exact (if_neg hstate).symm

theorem tcp_shutdown (h : s.next k .shutdown = .ok s') : s'.tcp = s.tcp.shutdown k true := by
  cases h
  by_cases hstate : s.life.state = .kConnected
  · have hstate' : s.tcp.state = .kConnected := hstate
    rw [if_pos hstate, TcpConnection.shutdown, if_pos hstate']
    rfl
  · rw [if_neg hstate]
    exact (if_neg hstate).symm

/-- In another thread they are when nothing comes in between. -/
theorem tcp_queueSend (hstate : s.life.state = .kConnected)
    (h₁ : s.next k (.callSend t message) = .ok s₁)
    (h₂ : s₁.next k (.queueSend t message) = .ok s₂) :
    s₂.tcp = s.tcp.sendPiece k false message := by
  have hstate' : s.tcp.state = .kConnected := hstate
  simp only [next, if_pos hstate] at h₁
  cases h₁
  cases h₂
  rw [tcp_queueInLoop, TcpConnection.sendPiece, if_pos hstate']
  rfl

theorem tcp_queueShutdown (hstate : s.life.state = .kConnected)
    (h₁ : s.next k (.callShutdown t) = .ok s₁) (h₂ : s₁.next k (.setDisconnecting t) = .ok s₂)
    (h₃ : s₂.next k (.queueShutdown t) = .ok s₃) : s₃.tcp = s.tcp.shutdown k false := by
  have hstate' : s.tcp.state = .kConnected := hstate
  simp only [next, if_pos hstate] at h₁
  cases h₁
  cases h₂
  cases h₃
  rw [tcp_queueInLoop, TcpConnection.shutdown, if_pos hstate']
  rfl

end Link

end Muduo
