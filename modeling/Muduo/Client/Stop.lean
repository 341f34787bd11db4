import Muduo.Client.TcpClient

/-!
# Is `stop()` undone?

`TcpClient::stop()` from another thread: the client's `connect_`, the
connector's, the functor. Once its `stopInLoop` has run, a connector whose
`connect_` is still false opens nothing, hands nothing over and sets no timer
(`Calm`), whatever else happens in the loop.

What may set the flag again without a new `connect()` is `restart()`, called
by `removeConnection` after it has tested the client's flag. A `stop()` that
comes in between is undone (`stop_undone`); any other is kept
(`stop_kept`).
-/

namespace Muduo

open Lib

namespace Connector

variable {Tid G : Type} {s s' : Connector Tid G}

/-- On the way to a new descriptor or a new connection. -/
def Pc.isOpening : Pc → Bool
  | connect => true
  | connected _ => true
  | _ => false

/-- What a stopped connector must not add to: descriptors, connections,
retries. -/
def record (s : Connector Tid G) : Nat × List Nat × Nat := (s.opened, s.handed, s.scheduled)

/-- `connect_` is false, and the loop thread is about to run `stopInLoop` or
there is nothing for it to do. -/
structure Calm (s : Connector Tid G) : Prop where
  flag : s.connect_ = false
  still : s.pc = .stopInLoop ∨ (s.state ≠ .kConnecting ∧ s.pc.isOpening = false)

theorem Calm.still_of (h : Calm s) (hpc : s.pc ≠ .stopInLoop) :
    s.state ≠ .kConnecting ∧ s.pc.isOpening = false :=
  h.still.resolve_left hpc

/-- Calls in progress and the queue do not matter. -/
theorem Calm.congr (h : Calm s) (hflag : s'.connect_ = s.connect_) (hstate : s'.state = s.state)
    (hpc : s'.pc = s.pc) : Calm s' := by
  obtain ⟨h₁, h₂⟩ := h
  rw [← hflag] at h₁
  rw [← hstate, ← hpc] at h₂
  exact ⟨h₁, h₂⟩

/-- The loop thread goes on to a point from which nothing is opened. -/
theorem Calm.goTo (h : Calm s) (hpc : s.pc ≠ .stopInLoop) {pc : Pc} (hnext : pc.isOpening = false) :
    Calm (s.goTo pc) := ⟨h.flag, .inr ⟨(h.still_of hpc).1, hnext⟩⟩

theorem Calm.step (h : Calm s) (m : Step s s') : Calm s' ∧ s'.record = s.record := by
  cases m with
  | start hpc _ =>
      rw [if_neg (by rw [h.flag]; exact Bool.false_ne_true)]
      exact ⟨h.goTo (by rw [hpc]; simp) rfl, rfl⟩
  | drop _ _ _ =>
      exact ⟨⟨h.flag, .inr ⟨by simp [Connector.retry, Connector.goTo, setState], rfl⟩⟩, rfl⟩
  | stopped _ hstate => exact ⟨⟨h.flag, .inr ⟨hstate, rfl⟩⟩, rfl⟩
  | write hpc _ => exact ⟨h.goTo (by rw [hpc]; simp) rfl, rfl⟩
  | succeed hpc hstate _ => exact absurd hstate (h.still_of (by rw [hpc]; simp)).1
  | @retry write hpc =>
      have hsame : s.runAfter = s := by
        unfold runAfter
        rw [if_neg (by rw [h.flag]; exact Bool.false_ne_true)]
      rw [hsame]
      exact ⟨h.goTo (by rw [hpc]; simp) (by cases write <;> rfl), rfl⟩
  | established hpc =>
      have hopening := (h.still_of (by rw [hpc]; simp)).2
      rw [hpc] at hopening
      cases hopening

theorem Calm.runFunctor (h : Calm s) (hpc : s.pc = .idle) (f : Functor G) :
    Calm ({ s with functors := s.functors.advance }.runFunctor f) := by
  have hstate := (h.still_of (by rw [hpc]; simp)).1
  cases f with
  | startInLoop => exact ⟨h.flag, .inr ⟨hstate, rfl⟩⟩
  | stopInLoop => exact ⟨h.flag, .inl rfl⟩
  | resetChannel => exact h.congr rfl rfl rfl
  | other g => exact h.congr rfl rfl rfl

theorem record_runFunctor (f : Functor G) : (s.runFunctor f).record = s.record := by
  cases f <;> rfl

theorem record_handleEvent (error : Bool) (write : Option Writable) :
    (s.handleEvent error write).record = s.record := by
  unfold handleEvent
  split
  · rfl
  · split <;> rfl

/-! ## The flag and the queued stops -/

def Functor.isStop : Functor G → Bool
  | stopInLoop => true
  | _ => false

/-- How many `stopInLoop` functors are queued. -/
def stopsQueued (s : Connector Tid G) : Nat := s.functors.queued.countP Functor.isStop

theorem stopsQueued_queueInLoop (f : Functor G) :
    (s.queueInLoop f).stopsQueued = s.stopsQueued + if f.isStop then 1 else 0 := by
  simp [stopsQueued, queueInLoop, List.countP_append, List.countP_singleton]

/-- At most a functor that is not the connector's has been queued. -/
structure Queues (s s' : Connector Tid G) : Prop where
  connect_ : s'.connect_ = s.connect_
  state : s'.state = s.state
  pc : s'.pc = s.pc
  stopsQueued : s'.stopsQueued = s.stopsQueued
  record : s'.record = s.record

theorem Queues.refl (s : Connector Tid G) : Queues s s := ⟨rfl, rfl, rfl, rfl, rfl⟩

theorem queues_other (g : G) : Queues s (s.queueInLoop (.other g)) :=
  ⟨rfl, rfl, rfl, stopsQueued_queueInLoop (.other g), rfl⟩

theorem Calm.queues (h : Calm s) (hq : Queues s s') : Calm s' :=
  h.congr hq.connect_ hq.state hq.pc

theorem flag_step (m : Step s s') : s'.connect_ = s.connect_ ∧ s'.stopsQueued = s.stopsQueued := by
  cases m with
  | drop _ _ _ =>
      exact ⟨rfl, stopsQueued_queueInLoop (s := { s with channel := _ }) .resetChannel⟩
  | succeed _ _ _ =>
      exact ⟨rfl, stopsQueued_queueInLoop (s := { s with channel := _ }) .resetChannel⟩
  | retry _ => unfold runAfter; split <;> exact ⟨rfl, rfl⟩
  | established _ => unfold established; split <;> exact ⟨rfl, rfl⟩
  | _ => exact ⟨rfl, rfl⟩

/-! ## Events -/

variable [DecidableEq Tid] {e : Event Tid G}

/-- **One event** of a connector that is stopped. -/
theorem Calm.next (h : Calm s) (hown : e.isOwn = true) (he : s.enabled e = true)
    (hn : s.next e = .ok s') : Calm s' ∧ s'.record = s.record := by
  cases e with
  | start t => cases hown
  | stop t => cases hown
  | restart => cases hown
  | queueStart t =>
      cases hn
      exact ⟨h.congr rfl rfl rfl, rfl⟩
  | queueStop t =>
      cases hn
      exact ⟨h.congr rfl rfl rfl, rfl⟩
  | queueInLoop g =>
      cases hn
      exact ⟨h.congr rfl rfl rfl, rfl⟩
  | step =>
      simp only [enabled, Bool.and_eq_true, decide_eq_true_eq] at he
      exact h.step (step_of_next he.1 he.2 hn)
  | connect e =>
      have hpc : s.pc = .connect := of_decide_eq_true he
      have hopening := (h.still_of (by rw [hpc]; simp)).2
      rw [hpc] at hopening
      cases hopening
  | swap =>
      cases hn
      exact ⟨h.congr rfl rfl rfl, rfl⟩
  | functor =>
      simp only [enabled, Bool.and_eq_true, decide_eq_true_eq] at he
      simp only [Connector.next] at hn
      split at hn
      · cases hn
        exact ⟨h, rfl⟩
      · cases hn
        exact ⟨h.runFunctor he.1 _, record_runFunctor _⟩
  | finish =>
      cases hn
      exact ⟨h.congr rfl rfl rfl, rfl⟩
  | timer i =>
      simp only [enabled, Bool.and_eq_true, decide_eq_true_eq] at he
      have hstate := (h.still_of (by rw [he.1.1]; simp)).1
      cases hn
      exact ⟨⟨h.flag, .inr ⟨hstate, rfl⟩⟩, rfl⟩
  | channel error write =>
      simp only [enabled, Bool.and_eq_true, decide_eq_true_eq] at he
      have hpc : s.pc ≠ .stopInLoop := by rw [he.1.1]; simp
      cases hn
      refine ⟨?_, record_handleEvent error write⟩
      unfold handleEvent
      split
      · exact h.goTo hpc rfl
      · split
        · exact h.goTo hpc rfl
        · exact h
  | lost =>
      cases hn
      exact ⟨h.congr rfl rfl rfl, rfl⟩

/-- Only calls change the flag, and a `stopInLoop` leaves the queue to be
run. -/
theorem flag_next (hown : e.isOwn = true) (hstop : ∀ t, e ≠ .queueStop t)
    (he : s.enabled e = true) (hn : s.next e = .ok s') :
    s'.connect_ = s.connect_ ∧ (s'.stopsQueued = s.stopsQueued ∨ s'.pc = .stopInLoop) := by
  cases e with
  | start t => cases hown
  | stop t => cases hown
  | restart => cases hown
  | queueStop t => exact absurd rfl (hstop t)
  | queueStart t =>
      cases hn
      exact ⟨rfl, .inl (stopsQueued_queueInLoop (s := { s with starting := _ }) .startInLoop)⟩
  | queueInLoop g =>
      cases hn
      exact ⟨rfl, .inl (stopsQueued_queueInLoop (.other g))⟩
  | step =>
      simp only [enabled, Bool.and_eq_true, decide_eq_true_eq] at he
      have hflag := flag_step (step_of_next he.1 he.2 hn)
      exact ⟨hflag.1, .inl hflag.2⟩
  | connect e => cases opens_of_next hn <;> exact ⟨rfl, .inl rfl⟩
  | swap =>
      simp only [enabled, Bool.and_eq_true, decide_eq_true_eq] at he
      cases hn
      exact ⟨rfl, .inl (congrArg (List.countP Functor.isStop) (Batch.queued_swap he.2))⟩
  | functor =>
      simp only [Connector.next] at hn
      split at hn
      · cases hn
        exact ⟨rfl, .inl rfl⟩
      · rename_i f fs hf
        have hcount : s.stopsQueued =
            { s with functors := s.functors.advance }.stopsQueued + if f.isStop then 1 else 0 := by
          rw [stopsQueued, Batch.queued_advance hf, List.countP_cons]
          rfl
        cases hn
        cases f with
        | stopInLoop => exact ⟨rfl, .inr rfl⟩
        | _ => exact ⟨rfl, .inl hcount.symm⟩
  | finish =>
      simp only [enabled, Bool.and_eq_true, List.isEmpty_iff] at he
      cases hn
      exact ⟨rfl, .inl (congrArg (List.countP Functor.isStop) (Batch.queued_finish he.2))⟩
  | timer i =>
      cases hn
      exact ⟨rfl, .inl rfl⟩
  | channel error write =>
      cases hn
      unfold handleEvent
      split
      · exact ⟨rfl, .inl rfl⟩
      · split <;> exact ⟨rfl, .inl rfl⟩
  | lost =>
      cases hn
      exact ⟨rfl, .inl rfl⟩

end Connector

namespace TcpClient

variable {Tid : Type} {s s' : TcpClient Tid}

/-! ## A call of `stop()` that has not been undone -/

/-- Both flags are false, and no `restart()` is about to set one. -/
structure Off (s : TcpClient Tid) : Prop where
  client : s.connect_ = false
  connector : s.connector.connect_ = false
  restart : ∀ c, s.frame ≠ .restarting c

/-- `stop()` has returned and its `stopInLoop` has run, no `connect()` or
`start()` having been called since. -/
def Stopped (s : TcpClient Tid) : Prop :=
  s.connector.pc = .idle ∧ ∃ n, s.returned = some n ∧ n + s.connector.stopsQueued ≤ s.stops

structure Stopping (s : TcpClient Tid) : Prop where
  begun : s.begun ≠ [] → s.connect_ = false
  flagged : s.flagged ≠ [] → s.Off
  returned : ∀ n, s.returned = some n →
    s.Off ∧ (n + s.connector.stopsQueued ≤ s.stops → s.connector.Calm)

theorem stopping_new : Stopping (new : TcpClient Tid) where
  begun h := absurd rfl h
  flagged h := absurd rfl h
  returned n h := by cases h

/-- The calls, the client's flag and `restart()` are as they were. -/
structure Same (s s' : TcpClient Tid) : Prop where
  connect_ : s'.connect_ = s.connect_
  begun : s'.begun = s.begun
  flagged : s'.flagged = s.flagged
  returned : s'.returned = s.returned
  stops : s'.stops = s.stops
  restart : ∀ c, s'.frame = .restarting c → s.frame = .restarting c

theorem Off.congr (h : Off s) (hclient : s'.connect_ = false)
    (hconnector : s'.connector.connect_ = s.connector.connect_)
    (hrestart : ∀ c, s'.frame = .restarting c → s.frame = .restarting c) : Off s' :=
  ⟨hclient, hconnector.trans h.connector, fun c hc => h.restart c (hrestart c hc)⟩

/-- Where only the connector moves, its flag as it was. -/
theorem Stopping.same (h : Stopping s) (hs : Same s s')
    (hflag : s'.connector.connect_ = s.connector.connect_)
    (hcalm : s.Off → ∀ n, (n + s.connector.stopsQueued ≤ s.stops → s.connector.Calm) →
      n + s'.connector.stopsQueued ≤ s.stops → s'.connector.Calm) : Stopping s' := by
  have hoff : s.Off → s'.Off := fun hoff =>
    hoff.congr (hs.connect_.trans hoff.client) hflag hs.restart
  refine ⟨fun hne => ?_, fun hne => ?_, fun n hn => ?_⟩
  · rw [hs.begun] at hne
    exact hs.connect_.trans (h.begun hne)
  · rw [hs.flagged] at hne
    exact hoff (h.flagged hne)
  · rw [hs.returned] at hn
    obtain ⟨hoff', hc⟩ := h.returned n hn
    rw [hs.stops]
    exact ⟨hoff hoff', hcalm hoff' n hc⟩

theorem Stopping.queues (h : Stopping s) (hs : Same s s')
    (hq : Connector.Queues s.connector s'.connector) : Stopping s' :=
  h.same hs hq.connect_ fun _ n hc hn => (hc (by rwa [← hq.stopsQueued])).queues hq

theorem Stopping.of_connector (h : Stopping s) (hs : Same s s')
    (hconn : s'.connector = s.connector) : Stopping s' :=
  h.queues hs (hconn ▸ .refl _)

/-- The client's flag is cleared, by `stop()` of the threads `begun` or by
`disconnect()`. -/
theorem Stopping.clear (h : Stopping s) (begun : List Tid) :
    Stopping { s with connect_ := false, begun := begun } := by
  refine ⟨fun _ => rfl, fun hne => ?_, fun n hr => ?_⟩
  · exact ⟨rfl, (h.flagged hne).connector, (h.flagged hne).restart⟩
  · obtain ⟨hoff, hcalm⟩ := h.returned n hr
    exact ⟨⟨rfl, hoff.connector, hoff.restart⟩, hcalm⟩

/-! ## What the functions leave alone -/

theorem same_goTo {f : Frame} (h : ∀ c, f ≠ .restarting c) : Same s (s.goTo f) :=
  ⟨rfl, rfl, rfl, rfl, rfl, fun c hc => absurd hc (h c)⟩

theorem same_destroy : Same s s.destroy ∧ s.destroy.connector = s.connector := by
  unfold destroy
  split <;> exact ⟨⟨rfl, rfl, rfl, rfl, rfl, fun _ hc => hc⟩, rfl⟩

theorem same_disconnect :
    Same { s with connect_ := false } s.disconnect ∧ s.disconnect.connector = s.connector := by
  unfold disconnect
  split <;> exact ⟨⟨rfl, rfl, rfl, rfl, rfl, fun _ hc => hc⟩, rfl⟩

theorem same_newConnection (h : s.newConnection = .ok s') :
    Same s s' ∧ s'.connector = s.connector := by
  obtain ⟨_, _, h⟩ := bind_eq_ok h
  obtain ⟨life, _, h⟩ := bind_eq_ok h
  cases h
  exact ⟨⟨rfl, rfl, rfl, rfl, rfl, fun _ hc => by cases hc⟩, rfl⟩

theorem same_connectDestroyed (c : Nat) :
    Same s (s.connectDestroyed c) ∧ (s.connectDestroyed c).connector = s.connector := by
  unfold connectDestroyed
  split
  · exact ⟨⟨rfl, rfl, rfl, rfl, rfl, fun _ hc => by cases hc⟩, rfl⟩
  · exact ⟨⟨rfl, rfl, rfl, rfl, rfl, fun _ hc => hc⟩, rfl⟩

theorem Same.of_connector {k : Connector Tid Nat} (h : Same { s with connector := k } s') :
    Same s s' := ⟨h.1, h.2, h.3, h.4, h.5, h.6⟩

theorem same_after {e : Connector.Event Tid Nat} {k : Connector Tid Nat}
    (h : s.after e k = .ok s') : Same s s' ∧ s'.connector = k := by
  cases after_of_ok h with
  | established _ _ _ h =>
      obtain ⟨hsame, hk⟩ := same_newConnection h
      exact ⟨hsame.of_connector, hk⟩
  | destroyed _ _ h =>
      subst h
      exact ⟨(same_connectDestroyed _).1.of_connector, (same_connectDestroyed _).2⟩
  | nothing _ h =>
      subst h
      exact ⟨⟨rfl, rfl, rfl, rfl, rfl, fun _ hc => hc⟩, rfl⟩

/-- What a step of the loop thread in the client does: it passes the test of
`removeConnection`, it calls `restart()`, or neither. -/
inductive StepKind (s s' : TcpClient Tid) : Prop
  | test (c : Nat) (flag : s.connect_ = true) (result : s' = s.goTo (.restarting c))
  | restart (c : Nat) (frame : s.frame = .restarting c)
      (result : s' = { s with connector := s.connector.restart }.goTo .idle)
  | other (same : Same s s') (connector : Connector.Queues s.connector s'.connector)

theorem closeCallback_kind {c : Nat} (h : s.closeCallback c = .ok s') : StepKind s s' := by
  unfold closeCallback at h
  split at h
  · obtain ⟨_, _, h⟩ := bind_eq_ok h
    obtain ⟨_, _, h⟩ := bind_eq_ok h
    cases h
    exact .other ⟨rfl, rfl, rfl, rfl, rfl, fun _ hc => by cases hc⟩ (Connector.queues_other c)
  · cases h
    exact .other ⟨rfl, rfl, rfl, rfl, rfl, fun _ hc => by cases hc⟩ (Connector.queues_other c)

theorem step_kind (h : s.step = .ok s') : StepKind s s' := by
  unfold step at h
  split at h
  · cases h
    exact .other ⟨rfl, rfl, rfl, rfl, rfl, fun _ hc => hc⟩ (.refl _)
  · cases h
    exact .other (same_goTo (by simp)) (.refl _)
  · cases h
    exact .other (same_goTo (by simp)) (.refl _)
  · exact closeCallback_kind h
  · rename_i c _
    cases h
    by_cases htest : (s.retry && s.connect_) = true
    · rw [if_pos htest]
      exact .test c (Bool.and_eq_true _ _ ▸ htest).2 rfl
    · rw [if_neg htest]
      exact .other (same_goTo (by simp)) (.refl _)
  · rename_i c hf
    cases h
    exact .restart c hf rfl
  · cases h
    exact .other ⟨rfl, rfl, rfl, rfl, rfl, fun _ hc => by cases hc⟩ (.refl _)
  · cases h
    exact .other ⟨rfl, rfl, rfl, rfl, rfl, fun _ hc => by cases hc⟩ (.refl _)

/-- The connector's flag is set by `restart()` alone, and that is not about to
be called while both are off. -/
theorem Stopping.step (h : Stopping s) (m : StepKind s s') : Stopping s' := by
  cases m with
  | test c hset hs' =>
      subst hs'
      refine ⟨h.begun, fun hne => ?_, fun n hn => ?_⟩
      · rw [(h.flagged hne).client] at hset
        cases hset
      · rw [(h.returned n hn).1.client] at hset
        cases hset
  | restart c hf hs' =>
      subst hs'
      refine ⟨h.begun, fun hne => ?_, fun n hn => ?_⟩
      · exact absurd hf ((h.flagged hne).restart c)
      · exact absurd hf ((h.returned n hn).1.restart c)
  | other hsame hq => exact h.queues hsame hq

/-! ## Events -/

/-- The side condition on events: `stop()` clears the connector's flag at no
time at which `removeConnection` has passed its test and not yet called
`restart()`. -/
def StopsOutside (s : TcpClient Tid) : Event Tid → Prop
  | .connectorStop _ => ∀ c, s.frame ≠ .restarting c
  | _ => True

/-- `connect()` or `Connector::start()` is called. -/
def Event.isStart : Event Tid → Bool
  | connect _ => true
  | connectorStart _ => true
  | _ => false

def Frame.isRestarting : Frame → Bool
  | restarting _ => true
  | _ => false

theorem Frame.isRestarting_eq_false {f : Frame} :
    f.isRestarting = false ↔ ∀ c, f ≠ .restarting c := by
  cases f with
  | restarting c => exact ⟨(fun h => by cases h), fun h => absurd rfl (h c)⟩
  | _ => exact ⟨(fun _ _ h => by cases h), fun _ => rfl⟩

instance (s : TcpClient Tid) : ∀ a, Decidable (s.StopsOutside a)
  | .connectorStop _ => decidable_of_iff _ Frame.isRestarting_eq_false
  | .connect _ | .connectorStart _ | .stop _ | .disconnect | .enableRetry | .destroy | .step
  | .message _ | .close _ | .connector _ => .isTrue trivial

variable [DecidableEq Tid] {a : Event Tid}

instance (s : TcpClient Tid) (a : Event Tid) :
    Decidable ((system.guarded StopsOutside).enabled s a) :=
  inferInstanceAs (Decidable (s.enabled a = true ∧ s.StopsOutside a))

/-- **An event of the connector** other than a call and the end of one. -/
theorem Stopping.connector (h : Stopping s) {e : Connector.Event Tid Nat}
    (hown : e.isOwn = true) (hstop : ∀ t, e ≠ .queueStop t) (he : s.connector.enabled e = true)
    {k : Connector Tid Nat} (hk : s.connector.next e = .ok k) (hn : s.after e k = .ok s') :
    Stopping s' := by
  obtain ⟨hsame, hconn⟩ := same_after hn
  obtain ⟨hflag, hstops⟩ := Connector.flag_next hown hstop he hk
  refine h.same hsame (hconn ▸ hflag) fun hoff n hcalm hle => ?_
  rw [hconn] at hle ⊢
  rcases hstops with hstops | hpc
  · rw [hstops] at hle
    exact ((hcalm hle).next hown he hk).1
  · exact ⟨hflag.trans hoff.connector, .inl hpc⟩

/-- The end of a `stop()`: its functor is the last of the queue. -/
theorem Stopping.queueStop (h : Stopping s) {t : Tid} {k : Connector Tid Nat}
    (hk : s.connector.next (.queueStop t) = .ok k) : Stopping { s with
      connector := k, stops := s.stops + 1, flagged := s.flagged.erase t
      returned := s.returned.or (if t ∈ s.flagged then some (s.stops + 1) else none) } := by
  cases hk
  have hcount := Connector.stopsQueued_queueInLoop
    (s := { s.connector with stopping := s.connector.stopping.erase t }) .stopInLoop
  change _ = s.connector.stopsQueued + 1 at hcount
  refine ⟨h.begun, fun hne => ?_, fun n hn => ?_⟩
  · exact (h.flagged fun hnil => hne (by rw [hnil]; rfl)).congr
      (h.flagged fun hnil => hne (by rw [hnil]; rfl)).client rfl fun _ hc => hc
  · dsimp only at hn ⊢
    cases hr : s.returned with
    | some m =>
        rw [hr, Option.some_or] at hn
        obtain rfl := Option.some.inj hn
        obtain ⟨hoff, hcalm⟩ := h.returned m hr
        refine ⟨hoff.congr hoff.client rfl fun _ hc => hc, fun hle => ?_⟩
        rw [hcount] at hle
        exact (hcalm (by omega)).congr rfl rfl rfl
    | none =>
        rw [hr, Option.none_or] at hn
        split at hn
        · rename_i ht
          obtain rfl := Option.some.inj hn
          have hoff := h.flagged (List.ne_nil_of_mem ht)
          refine ⟨hoff.congr hoff.client rfl fun _ hc => hc, fun hle => ?_⟩
          rw [hcount] at hle
          omega
        · cases hn

/-- The assignment of `Connector::stop()`. -/
theorem Stopping.connectorStop (h : Stopping s) (hC : ∀ c, s.frame ≠ .restarting c) {t : Tid}
    {k : Connector Tid Nat} (hk : s.connector.next (.stop (.other t)) = .ok k) :
    Stopping { s with
      connector := k, stopping := s.stopping.erase t, begun := s.begun.erase t
      flagged := if t ∈ s.begun then t :: s.flagged else s.flagged } := by
  cases hk
  refine ⟨fun hne => ?_, fun hne => ?_, fun n hn => ?_⟩
  · exact h.begun fun hnil => hne (by rw [hnil]; rfl)
  · refine ⟨?_, rfl, hC⟩
    dsimp only at hne
    split at hne
    · rename_i ht
      exact h.begun (List.ne_nil_of_mem ht)
    · exact (h.flagged hne).client
  · obtain ⟨hoff, hcalm⟩ := h.returned n hn
    exact ⟨⟨hoff.client, rfl, hC⟩, fun hle =>
      ⟨rfl, (hcalm hle).still⟩⟩

/-- **One event** under the side condition. -/
theorem Stopping.next (h : Stopping s) (he : s.enabled a = true) (hC : s.StopsOutside a)
    (hn : s.next a = .ok s') : Stopping s' := by
  cases a with
  | connect t =>
      cases t <;> cases hn <;>
        exact ⟨fun h => absurd rfl h, fun h => absurd rfl h, fun _ h => by cases h⟩
  | connectorStart t =>
      cases t with
      | loop =>
          obtain ⟨k, _, hn⟩ := bind_eq_ok hn
          cases hn
          exact ⟨h.begun, fun h => absurd rfl h, fun _ h => by cases h⟩
      | other t =>
          obtain ⟨k, _, hn⟩ := bind_eq_ok hn
          cases hn
          exact ⟨h.begun, fun h => absurd rfl h, fun _ h => by cases h⟩
  | stop t =>
      cases t with
      | loop =>
          cases hn
          exact (h.clear s.begun).of_connector ⟨rfl, rfl, rfl, rfl, rfl, fun _ hc => hc⟩ rfl
      | other t =>
          cases hn
          exact (h.clear (t :: s.begun)).of_connector
            ⟨rfl, rfl, rfl, rfl, rfl, fun _ hc => hc⟩ rfl
  | connectorStop t =>
      cases t with
      | loop =>
          obtain ⟨k, hk, hn⟩ := bind_eq_ok hn
          cases lift_ok hk
          cases hn
          refine ⟨h.begun, fun hne => ?_, fun n hr => ?_⟩
          · exact ⟨(h.flagged hne).client, rfl, hC⟩
          · exact ⟨⟨(h.returned n hr).1.client, rfl, hC⟩, fun _ => ⟨rfl, .inl rfl⟩⟩
      | other t =>
          obtain ⟨k, hk, hn⟩ := bind_eq_ok hn
          cases hn
          exact h.connectorStop hC (lift_ok hk)
  | disconnect =>
      cases hn
      exact (h.clear s.begun).of_connector same_disconnect.1 same_disconnect.2
  | enableRetry =>
      cases hn
      exact h.of_connector ⟨rfl, rfl, rfl, rfl, rfl, fun _ hc => hc⟩ rfl
  | destroy =>
      cases hn
      exact h.of_connector same_destroy.1 same_destroy.2
  | step => exact h.step (step_kind hn)
  | message c =>
      cases hn
      exact h.of_connector (same_goTo (by simp)) rfl
  | close c =>
      obtain ⟨life, _, hn⟩ := bind_eq_ok hn
      cases hn
      exact h.of_connector ⟨rfl, rfl, rfl, rfl, rfl, fun _ hc => by cases hc⟩ rfl
  | connector e =>
      simp only [enabled, Bool.and_eq_true] at he
      by_cases hstop : ∃ t, e = .queueStop t
      · obtain ⟨t, rfl⟩ := hstop
        obtain ⟨k, hk, hn⟩ := bind_eq_ok hn
        cases hn
        exact h.queueStop (lift_ok hk)
      · have hne : ∀ t, e ≠ .queueStop t := fun t ht => hstop ⟨t, ht⟩
        rw [next_connector hne] at hn
        obtain ⟨k, hk, hn⟩ := bind_eq_ok hn
        exact h.connector (isOwn_of_ownEvent he.1) hne he.2 (lift_ok hk) hn

/-! ## Whole runs -/

/-- Both flags are off, and there is nothing for the connector to do. -/
structure Halted (s : TcpClient Tid) : Prop where
  off : s.Off
  calm : s.connector.Calm

omit [DecidableEq Tid] in
theorem Halted.queues (h : Halted s) (hs : Same s s')
    (hq : Connector.Queues s.connector s'.connector) : Halted s' :=
  ⟨h.off.congr (hs.connect_.trans h.off.client) hq.connect_ hs.restart, h.calm.queues hq⟩

/-- Halted is for good, until a call to start: no other event adds to the
record. -/
theorem Halted.next (h : Halted s) (ha : a.isStart = false) (he : s.enabled a = true)
    (hn : s.next a = .ok s') :
    Halted s' ∧ s'.connector.record = s.connector.record := by
  obtain ⟨hoff, hcalm⟩ := h
  cases a with
  | connect t => cases ha
  | connectorStart t => cases ha
  | stop t =>
      cases t <;> cases hn <;>
        exact ⟨⟨⟨rfl, hoff.connector, hoff.restart⟩, hcalm⟩, rfl⟩
  | connectorStop t =>
      cases t with
      | loop =>
          obtain ⟨k, hk, hn⟩ := bind_eq_ok hn
          cases lift_ok hk
          cases hn
          exact ⟨⟨⟨hoff.client, rfl, hoff.restart⟩, ⟨rfl, .inl rfl⟩⟩, rfl⟩
      | other t =>
          obtain ⟨k, hk, hn⟩ := bind_eq_ok hn
          cases lift_ok hk
          cases hn
          exact ⟨⟨⟨hoff.client, rfl, hoff.restart⟩, ⟨rfl, hcalm.still⟩⟩, rfl⟩
  | disconnect =>
      cases hn
      have hclear : Halted { s with connect_ := false } :=
        ⟨⟨rfl, hoff.connector, hoff.restart⟩, hcalm⟩
      obtain ⟨hsame, hconn⟩ := same_disconnect (s := s)
      exact ⟨hclear.queues hsame (hconn ▸ .refl _), congrArg Connector.record hconn⟩
  | enableRetry =>
      cases hn
      exact ⟨⟨⟨hoff.client, hoff.connector, hoff.restart⟩, hcalm⟩, rfl⟩
  | destroy =>
      cases hn
      obtain ⟨hsame, hconn⟩ := same_destroy (s := s)
      exact ⟨Halted.queues ⟨hoff, hcalm⟩ hsame (hconn ▸ .refl _), congrArg Connector.record hconn⟩
  | step =>
      cases step_kind hn with
      | test c hset _ =>
          rw [hoff.client] at hset
          cases hset
      | restart c hf _ => exact absurd hf (hoff.restart c)
      | other hsame hq => exact ⟨Halted.queues ⟨hoff, hcalm⟩ hsame hq, hq.record⟩
  | message c =>
      cases hn
      exact ⟨Halted.queues ⟨hoff, hcalm⟩ (same_goTo (by simp)) (.refl _), rfl⟩
  | close c =>
      obtain ⟨life, _, hn⟩ := bind_eq_ok hn
      cases hn
      exact ⟨⟨⟨hoff.client, hoff.connector, fun _ hc => by cases hc⟩, hcalm⟩, rfl⟩
  | connector e =>
      simp only [enabled, Bool.and_eq_true] at he
      have hown := isOwn_of_ownEvent he.1
      by_cases hstop : ∃ t, e = .queueStop t
      · obtain ⟨t, rfl⟩ := hstop
        obtain ⟨k, hk, hn⟩ := bind_eq_ok hn
        obtain ⟨hk', hrecord⟩ := hcalm.next hown he.2 (lift_ok hk)
        cases hn
        exact ⟨⟨⟨hoff.client, hk'.flag, hoff.restart⟩, hk'⟩, hrecord⟩
      · have hne : ∀ t, e ≠ .queueStop t := fun t ht => hstop ⟨t, ht⟩
        rw [next_connector hne] at hn
        obtain ⟨k, hk, hn⟩ := bind_eq_ok hn
        obtain ⟨hk', hrecord⟩ := hcalm.next hown he.2 (lift_ok hk)
        obtain ⟨hsame, rfl⟩ := same_after hn
        exact ⟨⟨hoff.congr (hsame.connect_.trans hoff.client)
          (hk'.flag.trans hoff.connector.symm) hsame.restart, hk'⟩, hrecord⟩

theorem stopping_reachable (hs : (system.guarded StopsOutside).Reachable s) : Stopping s := by
  have hinv : ((system : Lts (TcpClient Tid) _ _).guarded StopsOutside).Invariant Stopping := {
    init := by
      rintro s hs
      rw [show s = new from hs]
      exact stopping_new
    step := fun s a s' h he hn => h.next he.1 he.2 hn }
  exact hinv.reachable hs

/-- **A `stop()` is kept.** In every run under the side condition, from a state
in which `stop()` has returned and its `stopInLoop` has run: no run without a
new `connect()` opens a descriptor, hands over a connection or sets a
timer. -/
theorem stop_kept {as : List (Event Tid)} (hs : (system.guarded StopsOutside).Reachable s)
    (hstop : s.Stopped) (hrun : (system.guarded StopsOutside).Run s as s')
    (has : ∀ a ∈ as, a.isStart = false) : s'.connector.record = s.connector.record := by
  obtain ⟨-, n, hr, hle⟩ := hstop
  obtain ⟨hoff, hcalm⟩ := (stopping_reachable hs).returned n hr
  have hquiet := hrun.guarded_of_all has
  have hinv := hquiet.invariant
    (I := fun x => Halted x ∧ x.connector.record = s.connector.record)
    (fun x a x' hx he hn => by
      obtain ⟨hh, hrecord⟩ := hx.1.next he.2 he.1.1 hn
      exact ⟨hh, hrecord.trans hx.2⟩)
    ⟨⟨hoff, hcalm hle⟩, rfl⟩
  exact hinv.2

/-- A client that has lost its connection and found the port closed: `stop()`
comes while the retry timer is set, and the timer fires after it. -/
theorem stop_kept_stopped : ∃ s s' : TcpClient Nat, s.Stopped ∧ s.created = 1 ∧
    s.connector.timers = [500] ∧
      system.Run s [.connector .finish, .connector (.timer 0), .connector .step] s' ∧
        s'.connector.timers = [] ∧ s'.connector.record = s.connector.record := by
  let after : List (Event Nat) := [.connector .finish, .connector (.timer 0), .connector .step]
  let L : Lts (TcpClient Nat) (Event Nat) Fault := system.guarded StopsOutside
  obtain ⟨s, hs, hp⟩ := Lts.exists_reachable_of_exec (L := L)
    [.enableRetry, .connect .loop, .connectorStart .loop, .connector .step,
      .connector (.connect .success), .connector (.channel false (some ⟨0, false⟩)),
      .connector .step, .connector .step, .step,
      .connector .swap, .connector .functor, .connector .finish,
      .close 0, .step, .step, .step,
      .connector .step, .connector (.connect .ECONNREFUSED), .connector .step,
      .stop (.other 0), .connectorStop (.other 0), .connector (.queueStop 0),
      .connector .swap, .connector .functor, .connector .functor, .connector .step]
    (fun s => s.connector.pc = .idle &&
      s.returned.any (fun n => n + s.connector.stopsQueued ≤ s.stops) && s.created = 1 &&
        s.connector.timers = [500] &&
          (L.exec s after).any fun s' => s'.connector.timers = []) rfl (by decide +kernel)
  simp only [Bool.and_eq_true, decide_eq_true_eq, Option.any_eq_true] at hp
  obtain ⟨⟨⟨⟨hpc, n, hn, hle⟩, hcreated⟩, htimers⟩, s', hexec, hfired⟩ := hp
  have hstop : s.Stopped := ⟨hpc, n, hn, hle⟩
  have hrun := Lts.run_of_exec hexec
  exact ⟨s, s', hstop, hcreated, htimers, hrun.of_guarded, hfired,
    stop_kept hs hstop hrun (by simp [after, Event.isStart])⟩

/-- Stopped in `s`, and yet `as` adds to the record. -/
def undone (as : List (Event Nat)) (s : TcpClient Nat) : Bool :=
  s.connector.pc = .idle && s.returned.any (fun n => n + s.connector.stopsQueued ≤ s.stops) &&
    (system.exec s as).any fun s' => s'.connector.record ≠ s.connector.record

/-- The loop thread has passed the test of `removeConnection`; both
assignments of `stop()` come before `restart()`, its functor after. -/
theorem stop_undone :
    ¬∀ (s s' : TcpClient Nat) (as : List (Event Nat)), system.Reachable s → s.Stopped →
      system.Run s as s' → (∀ a ∈ as, a.isStart = false) →
        s'.connector.record = s.connector.record := by
  intro h
  let after : List (Event Nat) := [.connector .finish, .connector .swap, .connector .functor,
    .connector .finish, .connector (.timer 0), .connector .step, .connector (.connect .EINPROGRESS)]
  obtain ⟨s, hs, hundone⟩ := Lts.exists_reachable_of_exec
    (L := (system : Lts (TcpClient Nat) (Event Nat) Fault))
    [.enableRetry, .connect .loop, .connectorStart .loop, .connector .step,
      .connector (.connect .success), .connector (.channel false (some ⟨0, false⟩)),
      .connector .step, .connector .step, .step,
      .connector .swap, .connector .functor, .connector .finish,
      .close 0, .step, .step, .stop (.other 0), .connectorStop (.other 0), .step,
      .connector (.queueStop 0), .connector .step, .connector (.connect .EINPROGRESS),
      .connector .swap, .connector .functor, .connector .functor, .connector .step,
      .connector .step]
    (undone after) rfl (by decide +kernel)
  simp only [undone, Bool.and_eq_true, decide_eq_true_eq, Option.any_eq_true] at hundone
  obtain ⟨⟨hpc, n, hn, hle⟩, s', hexec, hne⟩ := hundone
  refine hne (h s s' after hs ⟨hpc, n, hn, hle⟩ (Lts.run_of_exec hexec) ?_)
  simp [after, Event.isStart]

end TcpClient

end Muduo
