import Muduo.Net.TcpConnection

/-!
# The life of a `TcpConnection`

`connectEstablished`, `handleClose` and `connectDestroyed`, as far as they
touch `state_`, the channel's place in the poller and the user: which events
it waits for, whether the poller has it, what `connected()` gives at each
call of `connectionCallback_`. The functions stop where other code may run,
the callbacks and, for what other threads may write, the test of `state_` in
`connectDestroyed`. The sending side is left to `TcpConnection`.

`reports` and `emptied` are a record for the theorems and not in the code.
-/

namespace Muduo

/-- The assertions on entry to `connectEstablished` and `handleClose`. -/
inductive LifeFault where
  | connectEstablished | handleClose
deriving DecidableEq, Repr

structure Lifecycle where
  state : StateE
  /-- `!channel_->isNoneEvent()` -/
  interest : Bool
  /-- The poller has the channel. -/
  added : Bool
  /-- `connected()` at each call of `connectionCallback_`. -/
  reports : List Bool
  /-- Whether the interest set was empty at `channel_->remove()`. -/
  emptied : Option Bool
deriving DecidableEq, Repr

namespace Lifecycle

/-- `TcpConnection::TcpConnection` -/
def new : Lifecycle := ⟨.kConnecting, false, false, [], none⟩

def setState (c : Lifecycle) (s : StateE) : Lifecycle := { c with state := s }

def connected (c : Lifecycle) : Bool := c.state = .kConnected

def enableReading (c : Lifecycle) : Lifecycle := { c with interest := true, added := true }

def disableAll (c : Lifecycle) : Lifecycle := { c with interest := false }

/-- `channel_->remove()` -/
def remove (c : Lifecycle) : Lifecycle := { c with added := false, emptied := some !c.interest }

/-- `connectionCallback_(shared_from_this())` -/
def report (c : Lifecycle) : Lifecycle := { c with reports := c.reports ++ [c.connected] }

def connectEstablished (c : Lifecycle) : Except LifeFault Lifecycle := do
  check (c.state = .kConnecting) .connectEstablished
  return (c.setState .kConnected).enableReading.report

/-- Up to `closeCallback_`. -/
def handleClose (c : Lifecycle) : Except LifeFault Lifecycle := do
  check (c.state = .kConnected ∨ c.state = .kDisconnecting) .handleClose
  return (c.setState .kDisconnected).disableAll.report

/-- The branch of `connectDestroyed` for a connection that is up. -/
def goDown (c : Lifecycle) : Lifecycle := (c.setState .kDisconnected).disableAll.report

/-- `shutdown()` past its test, as far as `state_` goes. -/
def setDisconnecting (c : Lifecycle) : Lifecycle := c.setState .kDisconnecting

/-- `shutdown()` in the loop thread. -/
def shutdown (c : Lifecycle) : Lifecycle :=
  if c.state = .kConnected then c.setDisconnecting else c

variable {c c' : Lifecycle}

/-- A channel that may be called: in the poller, waiting for something. -/
def isPolled (c : Lifecycle) : Bool := c.added && c.interest

theorem connectEstablished_ok (h : c.connectEstablished = .ok c') :
    c.state = .kConnecting ∧
      c' = { c with
        state := .kConnected, interest := true, added := true
        reports := c.reports ++ [true] } := by
  obtain ⟨_, hstate, h⟩ := bind_eq_ok h
  cases h
  exact ⟨of_check hstate, rfl⟩

theorem handleClose_ok (h : c.handleClose = .ok c') :
    (c.state = .kConnected ∨ c.state = .kDisconnecting) ∧
      c' = { c with
        state := .kDisconnected, interest := false, reports := c.reports ++ [false] } := by
  obtain ⟨_, hstate, h⟩ := bind_eq_ok h
  cases h
  exact ⟨of_check hstate, rfl⟩

theorem goDown_eq : c.goDown = { c with
    state := .kDisconnected, interest := false, reports := c.reports ++ [false] } := rfl

@[simp] theorem interest_shutdown : c.shutdown.interest = c.interest := by
  unfold shutdown
  split <;> rfl

@[simp] theorem added_shutdown : c.shutdown.added = c.added := by
  unfold shutdown
  split <;> rfl

@[simp] theorem reports_shutdown : c.shutdown.reports = c.reports := by
  unfold shutdown
  split <;> rfl

@[simp] theorem emptied_shutdown : c.shutdown.emptied = c.emptied := by
  unfold shutdown
  split <;> rfl

/-- Only a connection that is up changes its state. -/
theorem state_shutdown : c.shutdown.state = c.state ∨
    (c.state = .kConnected ∧ c.shutdown.state = .kDisconnecting) := by
  unfold shutdown
  split
  · rename_i h
    exact Or.inr ⟨h, rfl⟩
  · exact Or.inl rfl

end Lifecycle

end Muduo
