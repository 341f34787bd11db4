import Muduo.Base
import Muduo.Lib.Lts
import Muduo.Lib.Batch

/-!
# `Connector`, step by step

One connector in its event loop, and other threads that call `start()` and
`stop()`. `connect_` is shared without a lock, so a step of the loop thread
goes up to its next access to it; `state_`, `channel_` and the timers are
the loop thread's own. What `connect(2)`, `poll(2)`, `SO_ERROR` and the
self-connect test give comes with the events.

A descriptor is named by the number of descriptors created before it.
`Channel` and `Poller` appear by what they do to `channel_`: its callbacks
are called between two passes over the functors, only while it is
registered, the error callback before the write callback. `removeChannel`
asserts that no other channel still to be handled is removed, so nothing is
called on a channel that has left the poller.

`opened`, `handed`, `closed`, `destroyed`, `scheduled` and `up` are a record
for the theorems and not in the code.
-/

namespace Muduo

open Lib

/-- The values of `errno` that `Connector::connect` tells apart; `success` is
its `0`. -/
inductive Errno where
  | success | EINPROGRESS | EINTR | EISCONN
  | EAGAIN | EADDRINUSE | EADDRNOTAVAIL | ECONNREFUSED | ENETUNREACH
  | EACCES | EPERM | EAFNOSUPPORT | EALREADY | EBADF | EFAULT | ENOTSOCK
  | unexpected
deriving DecidableEq, Repr

/-- The three groups of the `switch`. -/
inductive ConnectOutcome where
  | connecting | retry | close
deriving DecidableEq, Repr

def Errno.outcome : Errno → ConnectOutcome
  | success | EINPROGRESS | EINTR | EISCONN => .connecting
  | EAGAIN | EADDRINUSE | EADDRNOTAVAIL | ECONNREFUSED | ENETUNREACH => .retry
  | EACCES | EPERM | EAFNOSUPPORT | EALREADY | EBADF | EFAULT | ENOTSOCK => .close
  | unexpected => .close

/-- Who makes a call. -/
inductive Caller (Tid : Type) where
  | loop
  | other (t : Tid)
deriving DecidableEq

namespace Connector

/-- `Connector::States` -/
inductive States where
  | kDisconnected | kConnecting | kConnected
deriving DecidableEq, Repr

/-- `Channel` -/
structure Channel where
  fd : Nat
  /-- It is in the poller. -/
  registered : Bool
deriving DecidableEq, Repr

/-- What `handleWrite` finds out about a writable socket: `SO_ERROR`, and
whether it is connected to itself. -/
structure Writable where
  err : Nat
  selfConnect : Bool
deriving DecidableEq, Repr

inductive Functor (G : Type) where
  | startInLoop | stopInLoop | resetChannel
  | other (g : G)
deriving DecidableEq

def Functor.isReset {G : Type} : Functor G → Bool
  | resetChannel => true
  | _ => false

/-- Where the loop thread is: not in the connector (`idle`); about to run one
of its functions; in `startInLoop`, past the test of `connect_`
(`connect`); in `retry`, before that test, with a write callback still to
come or not; in `handleWrite`, `kConnected` set, before the test. -/
inductive Pc where
  | idle
  | startInLoop | stopInLoop
  | handleError (write : Option Writable)
  | handleWrite (w : Writable)
  | connect
  | retry (write : Option Writable)
  | connected (sockfd : Nat)
deriving DecidableEq, Repr

/-- At the beginning of one of the functions the loop calls. -/
def Pc.isEntry : Pc → Bool
  | startInLoop => true
  | stopInLoop => true
  | handleError _ => true
  | handleWrite _ => true
  | _ => false

end Connector

open Connector in
/-- `starting` and `stopping` are the threads in `start()` and `stop()`,
`connect_` assigned and the functor not yet queued. -/
structure Connector (Tid G : Type) where
  connect_ : Bool
  state : States
  channel : Option Channel
  retryDelayMs : Nat
  /-- The delays of the retry timers that have not fired. -/
  timers : List Nat
  functors : Batch (Functor G)
  pc : Pc
  starting : List Tid
  stopping : List Tid
  opened : Nat
  /-- Given to `newConnectionCallback_`. -/
  handed : List Nat
  closed : List Nat
  /-- The channels `resetChannel` has destroyed. -/
  destroyed : List Channel
  /-- How many retries have been scheduled. -/
  scheduled : Nat
  /-- How many of the connections handed over have not been lost. -/
  up : Nat

namespace Connector

/-- The four assertions, and `channel_` used when it is null or not in the
poller. -/
inductive Fault where
  | startInLoop | channel | handleWrite | handleError
  | nullChannel | notInPoller
deriving DecidableEq, Repr

/-- What happens: a call begins; a call from another thread ends
(`queueStart`, `queueStop`); the loop thread goes on by one `step`, or with
the result of `connect(2)`; a pass begins, runs a functor, ends; the `i`-th
timer fires; the channel has an event; a connection handed over is lost. -/
inductive Event (Tid G : Type) where
  | start (t : Caller Tid) | queueStart (t : Tid)
  | stop (t : Caller Tid) | queueStop (t : Tid)
  | restart
  | queueInLoop (g : G)
  | step
  | connect (e : Errno)
  | swap | functor | finish
  | timer (i : Nat)
  | channel (error : Bool) (write : Option Writable)
  | lost

def kMaxRetryDelayMs : Nat := 30 * 1000

def kInitRetryDelayMs : Nat := 500

variable {Tid G : Type}

/-- An event of the connector's own or of its loop, not a call. -/
def Event.isOwn : Event Tid G → Bool
  | start _ => false
  | stop _ => false
  | restart => false
  | _ => true

/-- `Connector::Connector` -/
def new : Connector Tid G where
  connect_ := false
  state := .kDisconnected
  channel := none
  retryDelayMs := kInitRetryDelayMs
  timers := []
  functors := .empty
  pc := .idle
  starting := []
  stopping := []
  opened := 0
  handed := []
  closed := []
  destroyed := []
  scheduled := 0
  up := 0

/-! ## The functions -/

def goTo (s : Connector Tid G) (pc : Pc) : Connector Tid G := { s with pc := pc }

def setState (s : Connector Tid G) (st : States) : Connector Tid G := { s with state := st }

/-- `sockets::close` -/
def close (s : Connector Tid G) (sockfd : Nat) : Connector Tid G :=
  { s with closed := s.closed ++ [sockfd] }

def queueInLoop (s : Connector Tid G) (f : Functor G) : Connector Tid G :=
  { s with functors := s.functors.push f }

def startInLoop (s : Connector Tid G) : Except Fault (Connector Tid G) := do
  check (s.state = .kDisconnected) .startInLoop
  if s.connect_ then return s.goTo .connect else return s.goTo .idle

/-- Up to the test of `connect_`. -/
def retry (s : Connector Tid G) (sockfd : Nat) (write : Option Writable) : Connector Tid G :=
  ((s.close sockfd).setState .kDisconnected).goTo (.retry write)

/-- The rest of `retry`. -/
def runAfter (s : Connector Tid G) : Connector Tid G :=
  if s.connect_ then
    { s with
      timers := s.timers ++ [s.retryDelayMs]
      scheduled := s.scheduled + 1
      retryDelayMs := min (s.retryDelayMs * 2) kMaxRetryDelayMs }
  else s

def removeAndResetChannel (s : Connector Tid G) : Except Fault (Nat × Connector Tid G) :=
  match s.channel with
  | none => .error .nullChannel
  | some ⟨_, false⟩ => .error .notInPoller
  | some ⟨sockfd, true⟩ =>
      .ok (sockfd, { s with channel := some ⟨sockfd, false⟩ }.queueInLoop .resetChannel)

def resetChannel (s : Connector Tid G) : Connector Tid G :=
  { s with channel := none, destroyed := s.destroyed ++ s.channel.toList }

def stopInLoop (s : Connector Tid G) : Except Fault (Connector Tid G) := do
  if s.state = .kConnecting then
    let (sockfd, s) ← (s.setState .kDisconnected).removeAndResetChannel
    return s.retry sockfd none
  else return s.goTo .idle

def connecting (s : Connector Tid G) (sockfd : Nat) : Except Fault (Connector Tid G) := do
  check (s.channel = none) .channel
  return { s.setState .kConnecting with channel := some ⟨sockfd, true⟩ }

def connect (s : Connector Tid G) (savedErrno : Errno) : Except Fault (Connector Tid G) :=
  let sockfd := s.opened
  let s := { s.goTo .idle with opened := s.opened + 1 }
  match savedErrno.outcome with
  | .connecting => s.connecting sockfd
  | .retry => .ok (s.retry sockfd none)
  | .close => .ok (s.close sockfd)

/-- `SO_ERROR` is only logged. -/
def handleError (s : Connector Tid G) (write : Option Writable) :
    Except Fault (Connector Tid G) := do
  check (s.state = .kConnecting) .handleError
  let (sockfd, s) ← s.removeAndResetChannel
  return s.retry sockfd write

/-- Up to the test of `connect_`. -/
def handleWrite (s : Connector Tid G) (w : Writable) : Except Fault (Connector Tid G) := do
  if s.state = .kConnecting then
    let (sockfd, s) ← s.removeAndResetChannel
    if w.err ≠ 0 then return s.retry sockfd none
    else if w.selfConnect then return s.retry sockfd none
    else return (s.setState .kConnected).goTo (.connected sockfd)
  else
    check (s.state = .kDisconnected) .handleWrite
    return s.goTo .idle

/-- The rest of `handleWrite`. -/
def established (s : Connector Tid G) (sockfd : Nat) : Connector Tid G :=
  if s.connect_ then { s.goTo .idle with handed := s.handed ++ [sockfd], up := s.up + 1 }
  else (s.goTo .idle).close sockfd

def restart (s : Connector Tid G) : Connector Tid G :=
  { s.setState .kDisconnected with
    retryDelayMs := kInitRetryDelayMs
    connect_ := true
    pc := .startInLoop }

def step (s : Connector Tid G) : Except Fault (Connector Tid G) :=
  match s.pc with
  | .idle => .ok s
  | .connect => .ok s
  | .startInLoop => s.startInLoop
  | .stopInLoop => s.stopInLoop
  | .handleError write => s.handleError write
  | .handleWrite w => s.handleWrite w
  | .retry none => .ok (s.runAfter.goTo .idle)
  | .retry (some w) => .ok (s.runAfter.goTo (.handleWrite w))
  | .connected sockfd => .ok (s.established sockfd)

def runFunctor (s : Connector Tid G) : Functor G → Connector Tid G
  | .startInLoop => s.goTo .startInLoop
  | .stopInLoop => s.goTo .stopInLoop
  | .resetChannel => s.resetChannel
  | .other _ => s

def isRegistered (s : Connector Tid G) : Bool := s.channel.any Channel.registered

/-- `Channel::handleEvent` -/
def handleEvent (s : Connector Tid G) (error : Bool) (write : Option Writable) : Connector Tid G :=
  if error then s.goTo (.handleError write)
  else match write with
    | some w => s.goTo (.handleWrite w)
    | none => s

/-! ## The system -/

section System

variable [DecidableEq Tid]

/-- A call may begin: the loop thread is in user code, another thread is not
in a call. -/
def free (s : Connector Tid G) : Caller Tid → Bool
  | .loop => s.pc = .idle
  | .other t => t ∉ s.starting ∧ t ∉ s.stopping

def enabled (s : Connector Tid G) : Event Tid G → Bool
  | .start t => s.free t
  | .stop t => s.free t
  | .queueStart t => t ∈ s.starting
  | .queueStop t => t ∈ s.stopping
  | .restart => s.pc = .idle
  | .queueInLoop _ => true
  | .step => s.pc ≠ .idle && s.pc ≠ .connect
  | .connect _ => s.pc = .connect
  | .swap => s.pc = .idle && s.functors.isHandling
  | .functor => s.pc = .idle && !s.functors.todo.isEmpty
  | .finish => s.pc = .idle && !s.functors.isHandling && s.functors.todo.isEmpty
  | .timer i => s.pc = .idle && s.functors.isHandling && i < s.timers.length
  | .channel _ _ => s.pc = .idle && s.functors.isHandling && s.isRegistered
  | .lost => 0 < s.up

def next (s : Connector Tid G) : Event Tid G → Except Fault (Connector Tid G)
  | .start .loop => .ok { s with connect_ := true, pc := .startInLoop }
  | .start (.other t) => .ok { s with connect_ := true, starting := t :: s.starting }
  | .queueStart t =>
      .ok ({ s with starting := s.starting.erase t }.queueInLoop .startInLoop)
  | .stop .loop => .ok { s with connect_ := false, pc := .stopInLoop }
  | .stop (.other t) => .ok { s with connect_ := false, stopping := t :: s.stopping }
  | .queueStop t =>
      .ok ({ s with stopping := s.stopping.erase t }.queueInLoop .stopInLoop)
  | .restart => .ok s.restart
  | .queueInLoop g => .ok (s.queueInLoop (.other g))
  | .step => s.step
  | .connect e => s.connect e
  | .swap => .ok { s with functors := s.functors.swap }
  | .functor =>
      match s.functors.todo with
      | [] => .ok s
      | f :: _ => .ok ({ s with functors := s.functors.advance }.runFunctor f)
  | .finish => .ok { s with functors := s.functors.finish }
  | .timer i => .ok { s with timers := s.timers.eraseIdx i, pc := .startInLoop }
  | .channel error write => .ok (s.handleEvent error write)
  | .lost => .ok { s with up := s.up - 1 }

/-- A connector just constructed, and everything the loop, the sockets and any
threads may do to it. -/
def system : Lts (Connector Tid G) (Event Tid G) Fault where
  init s := s = new
  enabled s a := s.enabled a = true
  next := next

instance (s : Connector Tid G) (a : Event Tid G) : Decidable (system.enabled s a) :=
  inferInstanceAs (Decidable (_ = true))

end System

/-! ## All a step can do -/

variable {s s' : Connector Tid G}

/-- The channel leaves the poller, its reset queued. -/
def removed (s : Connector Tid G) (sockfd : Nat) : Connector Tid G :=
  { s with channel := some ⟨sockfd, false⟩ }.queueInLoop .resetChannel

theorem removeAndResetChannel_ok {sockfd : Nat}
    (h : s.removeAndResetChannel = .ok (sockfd, s')) :
    s.channel = some ⟨sockfd, true⟩ ∧ s' = s.removed sockfd := by
  unfold removeAndResetChannel at h
  split at h
  · cases h
  · cases h
  · rename_i sockfd hc
    cases h
    exact ⟨hc, rfl⟩

theorem removeAndResetChannel_error {f : Fault} (h : s.removeAndResetChannel = .error f) :
    s.isRegistered = false ∧ (f = .nullChannel ∨ f = .notInPoller) := by
  unfold removeAndResetChannel at h
  unfold isRegistered
  split at h
  · rename_i hc
    rw [hc]
    exact ⟨rfl, .inl (Except.error.inj h).symm⟩
  · rename_i hc
    rw [hc]
    exact ⟨rfl, .inr (Except.error.inj h).symm⟩
  · cases h

/-- What a step of the loop thread makes of the state, and from which. `drop`
is the end of an attempt that has failed or been stopped. -/
inductive Step (s : Connector Tid G) : Connector Tid G → Prop
  | start (pc : s.pc = .startInLoop) (state : s.state = .kDisconnected) :
      Step s (s.goTo (if s.connect_ then .connect else .idle))
  | drop {sockfd : Nat} {write : Option Writable}
      (pc : (s.pc = .stopInLoop ∧ write = none) ∨ s.pc = .handleError write ∨
        ∃ w, s.pc = .handleWrite w ∧ write = none)
      (state : s.state = .kConnecting) (channel : s.channel = some ⟨sockfd, true⟩) :
      Step s ((s.removed sockfd).retry sockfd write)
  | stopped (pc : s.pc = .stopInLoop) (state : s.state ≠ .kConnecting) : Step s (s.goTo .idle)
  | write {w : Writable} (pc : s.pc = .handleWrite w) (state : s.state = .kDisconnected) :
      Step s (s.goTo .idle)
  | succeed {w : Writable} {sockfd : Nat} (pc : s.pc = .handleWrite w)
      (state : s.state = .kConnecting) (channel : s.channel = some ⟨sockfd, true⟩) :
      Step s (((s.removed sockfd).setState .kConnected).goTo (.connected sockfd))
  | retry {write : Option Writable} (pc : s.pc = .retry write) :
      Step s (s.runAfter.goTo (write.elim .idle .handleWrite))
  | established {sockfd : Nat} (pc : s.pc = .connected sockfd) : Step s (s.established sockfd)

theorem startInLoop_ok (h : s.startInLoop = .ok s') :
    s.state = .kDisconnected ∧ s' = s.goTo (if s.connect_ then .connect else .idle) := by
  obtain ⟨_, hstate, h⟩ := bind_eq_ok h
  refine ⟨of_check hstate, ?_⟩
  split at h
  · rename_i hc
    cases h
    rw [if_pos hc]
  · rename_i hc
    cases h
    rw [if_neg hc]

/-- Every step that does not fault is one of these. -/
theorem step_of_next (hidle : s.pc ≠ .idle) (hconnect : s.pc ≠ .connect)
    (h : s.step = .ok s') : Step s s' := by
  unfold step at h
  split at h
  · rename_i hpc
    exact absurd hpc hidle
  · rename_i hpc
    exact absurd hpc hconnect
  · rename_i hpc
    obtain ⟨hstate, rfl⟩ := startInLoop_ok h
    exact .start hpc hstate
  · rename_i hpc
    unfold stopInLoop at h
    split at h
    · rename_i hstate
      obtain ⟨⟨sockfd, s₁⟩, hr, h⟩ := bind_eq_ok h
      obtain ⟨hc, rfl⟩ := removeAndResetChannel_ok hr
      cases h
      exact .drop (.inl ⟨hpc, rfl⟩) hstate hc
    · rename_i hstate
      cases h
      exact .stopped hpc hstate
  · rename_i write hpc
    obtain ⟨_, hstate, h⟩ := bind_eq_ok h
    obtain ⟨⟨sockfd, s₁⟩, hr, h⟩ := bind_eq_ok h
    obtain ⟨hc, rfl⟩ := removeAndResetChannel_ok hr
    cases h
    exact .drop (.inr (.inl hpc)) (of_check hstate) hc
  · rename_i w hpc
    unfold handleWrite at h
    split at h
    · rename_i hstate
      obtain ⟨⟨sockfd, s₁⟩, hr, h⟩ := bind_eq_ok h
      obtain ⟨hc, rfl⟩ := removeAndResetChannel_ok hr
      dsimp only at h
      split at h
      · cases h
        exact .drop (.inr (.inr ⟨w, hpc, rfl⟩)) hstate hc
      · split at h
        · cases h
          exact .drop (.inr (.inr ⟨w, hpc, rfl⟩)) hstate hc
        · cases h
          exact .succeed hpc hstate hc
    · obtain ⟨_, hstate, h⟩ := bind_eq_ok h
      cases h
      exact .write hpc (of_check hstate)
  · rename_i hpc
    cases h
    exact .retry hpc
  · rename_i w hpc
    cases h
    exact .retry hpc
  · rename_i sockfd hpc
    cases h
    exact .established hpc

/-- What `connect()` makes of the state: a descriptor is opened in each case. -/
inductive Opens (s : Connector Tid G) (e : Errno) : Connector Tid G → Prop
  | connecting (outcome : e.outcome = .connecting) (channel : s.channel = none) :
      Opens s e { (s.goTo .idle).setState .kConnecting with
        opened := s.opened + 1, channel := some ⟨s.opened, true⟩ }
  | retry (outcome : e.outcome = .retry) :
      Opens s e ({ s with opened := s.opened + 1 }.retry s.opened none)
  | close (outcome : e.outcome = .close) :
      Opens s e ({ s.goTo .idle with opened := s.opened + 1 }.close s.opened)

theorem opens_of_next {e : Errno} (h : s.connect e = .ok s') : Opens s e s' := by
  unfold connect at h
  dsimp only at h
  split at h
  · rename_i ho
    obtain ⟨_, hc, h⟩ := bind_eq_ok h
    cases h
    exact .connecting ho (of_check hc)
  · rename_i ho
    cases h
    exact .retry ho
  · rename_i ho
    cases h
    exact .close ho

/-- An attempt under way finds the slot occupied. -/
theorem connect_error {e : Errno} (ho : e.outcome = .connecting) (hc : s.channel ≠ none) :
    s.connect e = .error .channel := by
  unfold connect
  dsimp only
  split
  · exact congrArg (· >>= _) (check_not hc _)
  · rename_i h
    rw [ho] at h
    cases h
  · rename_i h
    rw [ho] at h
    cases h

/-! ## All an event can do -/

/-- How many resets are queued. -/
def resets (s : Connector Tid G) : Nat := s.functors.queued.countP Functor.isReset

theorem resets_queueInLoop (f : Functor G) :
    (s.queueInLoop f).resets = s.resets + if f.isReset then 1 else 0 := by
  simp [resets, queueInLoop, List.countP_append, List.countP_singleton]

/-- Running a queued functor takes it out of the count. -/
theorem resets_advance {f : Functor G} {fs : List (Functor G)} (hf : s.functors.todo = f :: fs) :
    s.resets = { s with functors := s.functors.advance }.resets + if f.isReset then 1 else 0 := by
  rw [resets, Batch.queued_advance hf, List.countP_cons]
  rfl

/-- Nothing but calls, the queue and what the loop is about to run has
changed. -/
structure Frame (s s' : Connector Tid G) : Prop where
  state : s'.state = s.state
  channel : s'.channel = s.channel
  resets : s'.resets = s.resets
  destroyed : s'.destroyed = s.destroyed
  opened : s'.opened = s.opened
  handed : s'.handed = s.handed
  closed : s'.closed = s.closed
  pc : s'.pc = s.pc ∨ (s.pc = .idle ∧ s'.pc.isEntry = true)

theorem Frame.of_queueInLoop {f : Functor G} (h : Frame s s') (hf : f.isReset = false) :
    Frame s (s'.queueInLoop f) :=
  { h with resets := by rw [resets_queueInLoop, hf, h.resets]; rfl }

theorem frame_handleEvent (hpc : s.pc = .idle) (error : Bool) (write : Option Writable) :
    Frame s (s.handleEvent error write) := by
  unfold handleEvent
  split
  · exact ⟨rfl, rfl, rfl, rfl, rfl, rfl, rfl, .inr ⟨hpc, rfl⟩⟩
  · split
    · exact ⟨rfl, rfl, rfl, rfl, rfl, rfl, rfl, .inr ⟨hpc, rfl⟩⟩
    · exact ⟨rfl, rfl, rfl, rfl, rfl, rfl, rfl, .inl rfl⟩

/-- A functor other than the reset only says what the loop is about to run. -/
theorem frame_runFunctor {f : Functor G} {fs : List (Functor G)} (hpc : s.pc = .idle)
    (hf : s.functors.todo = f :: fs) (hreset : f ≠ .resetChannel) :
    Frame s ({ s with functors := s.functors.advance }.runFunctor f) := by
  have hr := resets_advance hf
  cases f with
  | resetChannel => exact absurd rfl hreset
  | startInLoop => exact ⟨rfl, rfl, hr.symm, rfl, rfl, rfl, rfl, .inr ⟨hpc, rfl⟩⟩
  | stopInLoop => exact ⟨rfl, rfl, hr.symm, rfl, rfl, rfl, rfl, .inr ⟨hpc, rfl⟩⟩
  | other g => exact ⟨rfl, rfl, hr.symm, rfl, rfl, rfl, rfl, .inl rfl⟩

/-- The transitions, by what they do to the descriptors and the slot. -/
inductive Move (s : Connector Tid G) : Event Tid G → Connector Tid G → Prop
  | step {s' : Connector Tid G} (m : Step s s') : Move s .step s'
  | connect {e : Errno} {s' : Connector Tid G} (pc : s.pc = .connect) (m : Opens s e s') :
      Move s (.connect e) s'
  | reset {fs : List (Functor G)} (pc : s.pc = .idle)
      (todo : s.functors.todo = .resetChannel :: fs) :
      Move s .functor { s with functors := s.functors.advance }.resetChannel
  | restart (pc : s.pc = .idle) : Move s .restart s.restart
  | quiet {a : Event Tid G} {s' : Connector Tid G} (frame : Frame s s') : Move s a s'

/-- The assertions, where and when they fail. -/
inductive Fails (s : Connector Tid G) : Event Tid G → Fault → Prop
  | startInLoop (pc : s.pc = .startInLoop) (state : s.state ≠ .kDisconnected) :
      Fails s .step .startInLoop
  | channel {e : Errno} (outcome : e.outcome = .connecting) (channel : s.channel ≠ none) :
      Fails s (.connect e) .channel
  | handleWrite {w : Writable} (pc : s.pc = .handleWrite w) (state : s.state = .kConnected) :
      Fails s .step .handleWrite
  | handleError {w : Option Writable} (pc : s.pc = .handleError w)
      (state : s.state ≠ .kConnecting) : Fails s .step .handleError
  | slot {f : Fault} (channel : s.isRegistered = false)
      (fault : f = .nullChannel ∨ f = .notInPoller) : Fails s .step f

theorem fails_step {f : Fault} (h : s.step = .error f) :
    Fails s (.step : Event Tid G) f := by
  unfold step at h
  split at h
  · cases h
  · cases h
  · rename_i hpc
    rcases bind_eq_error h with h | ⟨_, -, h⟩
    · obtain ⟨hstate, rfl⟩ := check_eq_error h
      exact .startInLoop hpc hstate
    · split at h <;> cases h
  · unfold stopInLoop at h
    split at h
    · rcases bind_eq_error h with h | ⟨_, -, h⟩
      · obtain ⟨hc, hf⟩ := removeAndResetChannel_error h
        exact .slot hc hf
      · cases h
    · cases h
  · rename_i hpc
    rcases bind_eq_error h with h | ⟨_, -, h⟩
    · obtain ⟨hstate, rfl⟩ := check_eq_error h
      exact .handleError hpc hstate
    · rcases bind_eq_error h with h | ⟨_, -, h⟩
      · obtain ⟨hc, hf⟩ := removeAndResetChannel_error h
        exact .slot hc hf
      · cases h
  · rename_i hpc
    unfold Connector.handleWrite at h
    split at h
    · rcases bind_eq_error h with h | ⟨_, -, h⟩
      · obtain ⟨hc, hf⟩ := removeAndResetChannel_error h
        exact .slot hc hf
      · dsimp only at h
        split at h
        · cases h
        · split at h <;> cases h
    · rename_i hne
      rcases bind_eq_error h with h | ⟨_, -, h⟩
      · obtain ⟨hstate, rfl⟩ := check_eq_error h
        refine .handleWrite hpc ?_
        cases hst : s.state with
        | kConnected => rfl
        | kConnecting => exact absurd hst hne
        | kDisconnected => exact absurd hst hstate
      · cases h
  · cases h
  · cases h
  · cases h

variable [DecidableEq Tid] {a : Event Tid G}

/-- Every event that is enabled and does not fault is one of these. -/
theorem move_of_next (he : s.enabled a = true) (hn : s.next a = .ok s') : Move s a s' := by
  cases a with
  | start t =>
      cases t with
      | loop =>
          cases hn
          exact .quiet ⟨rfl, rfl, rfl, rfl, rfl, rfl, rfl, .inr ⟨of_decide_eq_true he, rfl⟩⟩
      | other t =>
          cases hn
          exact .quiet ⟨rfl, rfl, rfl, rfl, rfl, rfl, rfl, .inl rfl⟩
  | stop t =>
      cases t with
      | loop =>
          cases hn
          exact .quiet ⟨rfl, rfl, rfl, rfl, rfl, rfl, rfl, .inr ⟨of_decide_eq_true he, rfl⟩⟩
      | other t =>
          cases hn
          exact .quiet ⟨rfl, rfl, rfl, rfl, rfl, rfl, rfl, .inl rfl⟩
  | queueStart t =>
      cases hn
      exact .quiet (.of_queueInLoop ⟨rfl, rfl, rfl, rfl, rfl, rfl, rfl, .inl rfl⟩ rfl)
  | queueStop t =>
      cases hn
      exact .quiet (.of_queueInLoop ⟨rfl, rfl, rfl, rfl, rfl, rfl, rfl, .inl rfl⟩ rfl)
  | restart =>
      cases hn
      exact .restart (of_decide_eq_true he)
  | queueInLoop g =>
      cases hn
      exact .quiet (.of_queueInLoop ⟨rfl, rfl, rfl, rfl, rfl, rfl, rfl, .inl rfl⟩ rfl)
  | step =>
      simp only [enabled, Bool.and_eq_true, decide_eq_true_eq] at he
      exact .step (step_of_next he.1 he.2 hn)
  | connect e => exact .connect (of_decide_eq_true he) (opens_of_next hn)
  | swap =>
      simp only [enabled, Bool.and_eq_true, decide_eq_true_eq] at he
      cases hn
      have hr := congrArg (List.countP Functor.isReset) (Batch.queued_swap he.2)
      exact .quiet ⟨rfl, rfl, hr, rfl, rfl, rfl, rfl, .inl rfl⟩
  | functor =>
      simp only [enabled, Bool.and_eq_true, decide_eq_true_eq] at he
      simp only [next] at hn
      split at hn
      · rename_i hf
        rw [hf] at he
        cases he.2
      · rename_i f fs hf
        cases hn
        by_cases hreset : f = .resetChannel
        · subst hreset
          exact .reset he.1 hf
        · exact .quiet (frame_runFunctor he.1 hf hreset)
  | finish =>
      simp only [enabled, Bool.and_eq_true, List.isEmpty_iff] at he
      cases hn
      have hr := congrArg (List.countP Functor.isReset) (Batch.queued_finish he.2)
      exact .quiet ⟨rfl, rfl, hr, rfl, rfl, rfl, rfl, .inl rfl⟩
  | timer i =>
      simp only [enabled, Bool.and_eq_true, decide_eq_true_eq] at he
      cases hn
      exact .quiet ⟨rfl, rfl, rfl, rfl, rfl, rfl, rfl, .inr ⟨he.1.1, rfl⟩⟩
  | channel error write =>
      simp only [enabled, Bool.and_eq_true, decide_eq_true_eq] at he
      cases hn
      exact .quiet (frame_handleEvent he.1.1 error write)
  | lost =>
      cases hn
      exact .quiet ⟨rfl, rfl, rfl, rfl, rfl, rfl, rfl, .inl rfl⟩

/-- Every event that faults does so in one of these ways. -/
theorem fails_of_next {f : Fault} (hn : s.next a = .error f) : Fails s a f := by
  cases a with
  | step => exact fails_step hn
  | connect e =>
      unfold next connect at hn
      dsimp only at hn
      split at hn
      · rename_i ho
        rcases bind_eq_error hn with hn | ⟨_, -, hn⟩
        · obtain ⟨hc, rfl⟩ := check_eq_error hn
          exact .channel ho hc
        · cases hn
      · cases hn
      · cases hn
  | start t => cases t <;> cases hn
  | stop t => cases t <;> cases hn
  | functor =>
      simp only [next] at hn
      split at hn <;> cases hn
  | _ => cases hn

end Connector

end Muduo
