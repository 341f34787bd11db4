import Muduo.Client.Connector
import Mathlib.Data.List.Nodup
import Mathlib.Logic.Function.Basic

/-!
# Channels removed while events are handled

One `EventLoop` and all that removes channels from it: the `TcpServer`s that
accept in it, the connections it handles (`here`), which may also be those of
a `TcpServer` of another loop or of a `TcpClient`, and the `Connector`s. User
code runs before `loop()`, in every handler and in every functor, destructors
of servers within one another's callbacks included; other threads queue
whatever they like.

A step whose own assertion fails, other than that of `removeChannel`, is not
among the steps. The poller is the set of channels it knows, `channel_` of a
connector the number of the channel it made last; its deferred reset touches
neither the poller nor `activeChannels_`.
-/

namespace Muduo

open Lib Connector

namespace Dispatch

/-- The channels of a loop: an `Acceptor`'s, a `TcpConnection`'s, the `n`-th
of a `Connector`, and the loop's own, which are in the poller from the
beginning and never removed. -/
inductive Chan (S C K : Type) where
  | acceptor (sv : S)
  | connection (c : C)
  | connector (k : K) (n : Nat)
  | other (fd : Nat)
deriving DecidableEq

/-- Where the close callback of a connection leads: to a `TcpServer` of this
loop, a `TcpClient`, or a `TcpServer` of another loop. -/
inductive Owner (S : Type) where
  | server (sv : S) | client | otherLoop
deriving DecidableEq

inductive Functor (S C K : Type) where
  | listen (sv : S)
  | connectEstablished (c : C) | connectDestroyed (c : C) | removeConnectionInLoop (c : C)
  | startInLoop (k : K) | stopInLoop (k : K)
  | other
deriving DecidableEq

/-- Where `loop()` is: not yet called; at `poll`; in the loop over
`activeChannels_` between two handlers; in a handler; in
`doPendingFunctors` between two functors; in a functor. -/
inductive Place where
  | before | poll | handlers | handler | functors | functor
deriving DecidableEq

/-- May user code be running? -/
def Place.isUser : Place → Bool
  | before | handler | functor => true
  | poll | handlers | functors => false

def Place.isHandling : Place → Bool
  | handlers | handler => true
  | before | poll | functors | functor => false

/-- `assert(currentActiveChannel_ == channel || std::find(…) == activeChannels_.end())` -/
inductive Fault where
  | stillActive
deriving DecidableEq

/-- The fields of a `Connector`. -/
structure Attempt where
  connect_ : Bool
  state : States
  channel : Nat
deriving DecidableEq

end Dispatch

open Dispatch in
structure Dispatch (S C K : Type) where
  place : Place
  eventHandling : Bool
  currentActiveChannel : Option (Chan S C K)
  activeChannels : List (Chan S C K)
  /-- `activeChannels_` from the iterator on. -/
  waiting : List (Chan S C K)
  /-- The poller knows the channel. -/
  channels : Chan S C K → Bool
  pendingFunctors : List (Functor S C K)
  /-- What `doPendingFunctors` has taken and not yet called. -/
  functors : List (Functor S C K)
  connectors : K → Attempt
  connections : S → List C
  destroyed : S → Bool
  /-- The `~TcpServer`s being run, the innermost first, each with the
  connections still before it. -/
  destructors : List (S × List C)

namespace Dispatch

variable {S C K : Type} [DecidableEq S] [DecidableEq C] [DecidableEq K]
variable (here : C → Bool) (owner : C → Owner S)

def new : Dispatch S C K where
  place := .before
  eventHandling := false
  currentActiveChannel := none
  activeChannels := []
  waiting := []
  channels ch := match ch with
    | .other _ => true
    | .acceptor _ | .connection _ | .connector _ _ => false
  pendingFunctors := []
  functors := []
  connectors _ := ⟨false, .kDisconnected, 0⟩
  connections _ := []
  destroyed _ := false
  destructors := []

def queueInLoop (s : Dispatch S C K) (f : Functor S C K) : Dispatch S C K :=
  { s with pendingFunctors := s.pendingFunctors ++ [f] }

/-- `enableReading()` and `enableWriting()`. -/
def updateChannel (s : Dispatch S C K) (ch : Chan S C K) : Dispatch S C K :=
  { s with channels := Function.update s.channels ch true }

def removeChannel (s : Dispatch S C K) (ch : Chan S C K) :
    Except Fault (Dispatch S C K) := do
  if s.eventHandling then
    check (s.currentActiveChannel = some ch ∨ ch ∉ s.activeChannels) .stillActive
  return { s with channels := Function.update s.channels ch false }

/-! ## `TcpServer` and `TcpConnection` -/

def connectEstablished (s : Dispatch S C K) (c : C) : Dispatch S C K :=
  s.updateChannel (.connection c)

def connectDestroyed (s : Dispatch S C K) (c : C) : Except Fault (Dispatch S C K) :=
  s.removeChannel (.connection c)

/-- The functor of a connection of another loop is queued there. -/
def newConnection (s : Dispatch S C K) (sv : S) (c : C) : Dispatch S C K :=
  let s := { s with connections := Function.update s.connections sv (s.connections sv ++ [c]) }
  if here c then s.connectEstablished c else s

def removeConnectionInLoop (s : Dispatch S C K) (sv : S) (c : C) : Dispatch S C K :=
  let s := { s with connections := Function.update s.connections sv ((s.connections sv).erase c) }
  if here c then s.queueInLoop (.connectDestroyed c) else s

/-- `TcpConnection::handleClose`, by what its close callback does here. -/
def handleClose (s : Dispatch S C K) (c : C) : Dispatch S C K :=
  match owner c with
  | .server sv => s.removeConnectionInLoop here sv c
  | .client => s.queueInLoop (.connectDestroyed c)
  | .otherLoop => s

/-- `TcpServer::removeConnectionInLoop` would find the connection. -/
def Listed (s : Dispatch S C K) (c : C) : Prop :=
  match owner c with
  | .server sv => s.destroyed sv = false ∧ c ∈ s.connections sv
  | .client | .otherLoop => True

instance (s : Dispatch S C K) (c : C) : Decidable (s.Listed owner c) := by
  unfold Listed
  split <;> infer_instance

/-- `~TcpServer` begins. -/
def destroyServer (s : Dispatch S C K) (sv : S) : Dispatch S C K :=
  { s with
    destroyed := Function.update s.destroyed sv true
    destructors := (sv, s.connections sv) :: s.destructors }

/-- One turn of its loop. The connections are taken in any order, which is
that of their names. -/
def destroyConnection (s : Dispatch S C K) (c : C) : Except Fault (Dispatch S C K) :=
  match s.destructors with
  | [] => .ok s
  | (sv, conns) :: rest =>
      let s := { s with destructors := (sv, conns.erase c) :: rest }
      if here c then s.connectDestroyed c else .ok s

/-- The members go, `acceptor_` among them. -/
def destroyAcceptor (s : Dispatch S C K) : Except Fault (Dispatch S C K) :=
  match s.destructors with
  | [] => .ok s
  | (sv, _) :: rest =>
      let s := { s with
        connections := Function.update s.connections sv []
        destructors := rest }
      s.removeChannel (.acceptor sv)

/-! ## `Connector` -/

def setConnector (s : Dispatch S C K) (k : K) (a : Attempt) : Dispatch S C K :=
  { s with connectors := Function.update s.connectors k a }

def setState (s : Dispatch S C K) (k : K) (state : States) : Dispatch S C K :=
  s.setConnector k { s.connectors k with state := state }

def setConnect (s : Dispatch S C K) (k : K) (connect_ : Bool) : Dispatch S C K :=
  s.setConnector k { s.connectors k with connect_ := connect_ }

def connecting (s : Dispatch S C K) (k : K) : Dispatch S C K :=
  let n := (s.connectors k).channel + 1
  let s := s.setConnector k { s.connectors k with state := .kConnecting, channel := n }
  s.updateChannel (.connector k n)

def removeAndResetChannel (s : Dispatch S C K) (k : K) : Except Fault (Dispatch S C K) :=
  s.removeChannel (.connector k (s.connectors k).channel)

/-- The timer it may set calls `startInLoop`. -/
def retry (s : Dispatch S C K) (k : K) : Dispatch S C K := s.setState k .kDisconnected

/-- `connect(2)` gives `e`. -/
def connect (s : Dispatch S C K) (k : K) (e : Errno) : Dispatch S C K :=
  match e.outcome with
  | .connecting => s.connecting k
  | .retry => s.retry k
  | .close => s

def startInLoop (s : Dispatch S C K) (k : K) (e : Errno) : Dispatch S C K :=
  if (s.connectors k).connect_ then s.connect k e else s

/-- In the loop thread, as `stop`. -/
def start (s : Dispatch S C K) (k : K) (e : Errno) : Dispatch S C K :=
  (s.setConnect k true).startInLoop k e

def restart (s : Dispatch S C K) (k : K) (e : Errno) : Dispatch S C K :=
  ((s.setState k .kDisconnected).setConnect k true).startInLoop k e

def stopInLoop (s : Dispatch S C K) (k : K) : Except Fault (Dispatch S C K) :=
  if (s.connectors k).state = .kConnecting then do
    let s ← (s.setState k .kDisconnected).removeAndResetChannel k
    return s.retry k
  else .ok s

def stop (s : Dispatch S C K) (k : K) : Except Fault (Dispatch S C K) :=
  (s.setConnect k false).stopInLoop k

/-- `c` is the connection that `TcpClient::newConnection` makes. -/
def handleWrite (s : Dispatch S C K) (k : K) (w : Writable) (c : C) :
    Except Fault (Dispatch S C K) :=
  if (s.connectors k).state = .kConnecting then do
    let s ← s.removeAndResetChannel k
    if w.err ≠ 0 then return s.retry k
    else if w.selfConnect then return s.retry k
    else
      let s := s.setState k .kConnected
      if (s.connectors k).connect_ then return s.connectEstablished c else return s
  else .ok s

def handleError (s : Dispatch S C K) (k : K) : Except Fault (Dispatch S C K) := do
  let s ← s.removeAndResetChannel k
  return s.retry k

/-! ## The loop -/

/-- `e` is for a `startInLoop`. -/
def call (s : Dispatch S C K) (f : Functor S C K) (e : Errno) : Except Fault (Dispatch S C K) :=
  match f with
  | .listen sv => .ok (s.updateChannel (.acceptor sv))
  | .connectEstablished c => .ok (s.connectEstablished c)
  | .connectDestroyed c => s.connectDestroyed c
  | .removeConnectionInLoop c =>
      match owner c with
      | .server sv => .ok (s.removeConnectionInLoop here sv c)
      | .client | .otherLoop => .ok s
  | .startInLoop k => .ok (s.startInLoop k e)
  | .stopInLoop k => s.stopInLoop k
  | .other => .ok s

/-- The assertions of the functor hold, and what it is bound to exists. -/
def Callable (s : Dispatch S C K) : Functor S C K → Prop
  | .listen sv => s.destroyed sv = false
  | .removeConnectionInLoop c => s.Listed owner c
  | .startInLoop k => (s.connectors k).state = .kDisconnected
  | _ => True

instance (s : Dispatch S C K) (f : Functor S C K) : Decidable (s.Callable owner f) := by
  cases f <;> unfold Callable <;> infer_instance

/-- `loop()` and its parts; what the handlers of the current channel do
themselves; what user code may do; the parts of `~TcpServer`; what other
threads do. -/
inductive Event (S C K : Type) where
  | loop
  | poll (activeChannels : List (Chan S C K))
  | handleEvent | endHandlers
  | callFunctor (e : Errno) | endFunctors
  | returned
  | newConnection (sv : S) (c : C)
  | handleClose (c : C)
  | handleWrite (k : K) (n : Nat) (w : Writable) (c : C)
  | handleError (k : K) (n : Nat)
  | listen (sv : S) | destroyServer (sv : S)
  | start (k : K) (e : Errno) | startInLoop (k : K) (e : Errno) | restart (k : K) (e : Errno)
  | stop (k : K)
  | destroyConnection (c : C) | destroyAcceptor
  | queueInLoop (f : Functor S C K)
  | setConnect (k : K) (connect_ : Bool)

/-- The handler of `ch` is running, and not in a destructor. -/
def InHandler (s : Dispatch S C K) (ch : Chan S C K) : Prop :=
  s.place = .handler ∧ s.destructors = [] ∧ s.currentActiveChannel = some ch

instance (s : Dispatch S C K) (ch : Chan S C K) : Decidable (s.InHandler ch) :=
  inferInstanceAs (Decidable (_ ∧ _ ∧ _))

def enabled (s : Dispatch S C K) : Event S C K → Prop
  | .loop => s.place = .before ∧ s.destructors = []
  | .poll activeChannels => s.place = .poll ∧ activeChannels.Nodup ∧
      ∀ ch ∈ activeChannels, s.channels ch = true
  | .handleEvent => s.place = .handlers ∧ s.waiting ≠ []
  | .endHandlers => s.place = .handlers ∧ s.waiting = []
  | .callFunctor _ => s.place = .functors ∧ ∃ f ∈ s.functors.head?, s.Callable owner f
  | .endFunctors => s.place = .functors ∧ s.functors = []
  | .returned => (s.place = .handler ∨ s.place = .functor) ∧ s.destructors = []
  | .newConnection sv c => s.InHandler (.acceptor sv) ∧ s.destroyed sv = false ∧
      owner c = .server sv ∧ c ∉ s.connections sv ∧ s.channels (.connection c) = false
  | .handleClose c => s.InHandler (.connection c) ∧ s.Listed owner c
  | .handleWrite k n _ c => s.InHandler (.connector k n) ∧
      (s.connectors k).state ≠ .kConnected ∧
      owner c = .client ∧ here c = true ∧ s.channels (.connection c) = false
  | .handleError k n => s.InHandler (.connector k n) ∧ (s.connectors k).state = .kConnecting
  | .listen sv | .destroyServer sv => s.place.isUser = true ∧ s.destroyed sv = false
  | .start k _ | .startInLoop k _ =>
      s.place.isUser = true ∧ (s.connectors k).state = .kDisconnected
  | .restart k _ => s.place.isUser = true ∧ (s.connectors k).state = .kConnected
  | .stop _ => s.place.isUser = true
  | .destroyConnection c => ∃ d ∈ s.destructors.head?, c ∈ d.2
  | .destroyAcceptor => ∃ d ∈ s.destructors.head?, d.2 = []
  | .queueInLoop _ | .setConnect _ _ => True

instance (s : Dispatch S C K) (a : Event S C K) : Decidable (s.enabled here owner a) := by
  cases a <;> unfold enabled <;> infer_instance

def next (s : Dispatch S C K) : Event S C K → Except Fault (Dispatch S C K)
  | .loop => .ok { s with place := .poll }
  | .poll activeChannels => .ok { s with
      place := .handlers, activeChannels := activeChannels, waiting := activeChannels
      eventHandling := true }
  | .handleEvent => .ok { s with
      place := .handler, currentActiveChannel := s.waiting.head?, waiting := s.waiting.tail }
  | .endHandlers => .ok { s with
      place := .functors, currentActiveChannel := none, eventHandling := false
      functors := s.pendingFunctors, pendingFunctors := [] }
  | .callFunctor e =>
      match s.functors with
      | [] => .ok s
      | f :: rest => { s with place := .functor, functors := rest }.call here owner f e
  | .endFunctors => .ok { s with place := .poll }
  | .returned => .ok { s with
      place := if s.place = .handler then .handlers else .functors }
  | .newConnection sv c => .ok (s.newConnection here sv c)
  | .handleClose c => .ok (s.handleClose here owner c)
  | .handleWrite k _ w c => s.handleWrite k w c
  | .handleError k _ => s.handleError k
  | .listen sv => .ok (s.updateChannel (.acceptor sv))
  | .destroyServer sv => .ok (s.destroyServer sv)
  | .start k e => .ok (s.start k e)
  | .startInLoop k e => .ok (s.startInLoop k e)
  | .restart k e => .ok (s.restart k e)
  | .stop k => s.stop k
  | .destroyConnection c => s.destroyConnection here c
  | .destroyAcceptor => s.destroyAcceptor
  | .queueInLoop f => .ok (s.queueInLoop f)
  | .setConnect k connect_ => .ok (s.setConnect k connect_)

def dispatch : Lts (Dispatch S C K) (Event S C K) Fault where
  init s := s = .new
  enabled := enabled here owner
  next := next here owner

instance (s : Dispatch S C K) (a : Event S C K) :
    Decidable ((dispatch here owner).enabled s a) :=
  inferInstanceAs (Decidable (s.enabled here owner a))

end Dispatch

end Muduo
