import Muduo.Client.Stop

/-!
# Who keeps a client's connection

References to a connection are counted where they are: `connection_`, the
functors that bind it, run or not until their pass ends, and the callback on
the stack, which holds one by the guard of `Channel::handleEvent`, by the
local of `newConnection` or by `guardThis`. User code keeps none.

A connection passes from `connection_` to its `connectDestroyed` functor in
`handleClose`, and nowhere else. `~TcpClient` lets go of `connection_` without
queueing one, so unless the close is under way already the connection is
freed while its channel is in the poller (`freed_while_up`); if it is, the
connection outlives its `connectDestroyed` (`owned_until_destroyed`).
-/

namespace Muduo

open Lib

namespace Connector

variable {Tid G : Type} {s s' : Connector Tid G}

/-- What the client relies on: its functors stay queued, and an established
connector stays so. -/
structure Keeps (s s' : Connector Tid G) : Prop where
  queued : ∀ g, .other g ∈ s'.functors.queued ↔ .other g ∈ s.functors.queued
  up : s.state = .kConnected → s.pc.isOpening = false →
    s'.state = .kConnected ∧ s'.pc.isOpening = false
  connected : (∀ fd, s.pc = .connected fd → s.state = .kConnected) →
    ∀ fd, s'.pc = .connected fd → s'.state = .kConnected

theorem Keeps.of_queued
    (hqueued : ∀ g, .other g ∈ s'.functors.queued ↔ .other g ∈ s.functors.queued)
    (hstate : s'.state = s.state) (hpc : s'.pc = s.pc) : Keeps s s' := by
  refine ⟨hqueued, fun hst hop => ?_, fun h fd hfd => ?_⟩
  · rw [hstate, hpc]
    exact ⟨hst, hop⟩
  · rw [hstate]
    exact h fd (hpc.symm.trans hfd)

theorem Keeps.refl (s : Connector Tid G) : Keeps s s := .of_queued (fun _ => .rfl) rfl rfl

/-- The loop thread goes on, to a point that says nothing of the state. -/
theorem Keeps.of_pc (hqueued : ∀ g, .other g ∈ s'.functors.queued ↔ .other g ∈ s.functors.queued)
    (hstate : s'.state = s.state) (hpc : s'.pc.isOpening = false) : Keeps s s' := by
  refine ⟨hqueued, fun hst _ => ⟨hstate.trans hst, hpc⟩, fun _ fd hfd => ?_⟩
  rw [hfd] at hpc
  cases hpc

theorem queued_queueInLoop {f : Functor G} (hf : ∀ g, f ≠ .other g) (g : G) :
    .other g ∈ (s.queueInLoop f).functors.queued ↔ .other g ∈ s.functors.queued := by
  simp only [queueInLoop, Batch.queued_push, List.mem_append, List.mem_singleton]
  constructor
  · rintro (h | h)
    · exact h
    · exact absurd h.symm (hf g)
  · exact Or.inl

theorem keeps_step (m : Step s s') : Keeps s s' := by
  have hreset (sockfd : Nat) (g : G) := queued_queueInLoop
    (s := { s with channel := some ⟨sockfd, false⟩ }) (f := .resetChannel) (by simp) g
  cases m with
  | start _ hstate =>
      refine ⟨fun _ => .rfl, fun hst => ?_, fun _ fd hfd => ?_⟩
      · rw [hstate] at hst
        cases hst
      · unfold goTo at hfd
        split at hfd <;> cases hfd
  | drop _ hstate _ =>
      refine ⟨hreset _, fun hst => ?_, fun _ fd hfd => by cases hfd⟩
      rw [hstate] at hst
      cases hst
  | stopped _ _ => exact .of_pc (fun _ => .rfl) rfl rfl
  | write _ _ => exact .of_pc (fun _ => .rfl) rfl rfl
  | succeed _ hstate _ =>
      refine ⟨hreset _, fun hst => ?_, fun _ _ _ => rfl⟩
      rw [hstate] at hst
      cases hst
  | @retry write _ =>
      have hq : s.runAfter.functors = s.functors := by unfold runAfter; split <;> rfl
      have hst : s.runAfter.state = s.state := by unfold runAfter; split <;> rfl
      exact .of_pc (fun _ => by rw [← hq]; rfl) hst (by cases write <;> rfl)
  | established _ =>
      unfold established
      split <;> exact .of_pc (fun _ => .rfl) rfl rfl

theorem keeps_connect (hpc : s.pc = .connect) {e : Errno} (m : Opens s e s') : Keeps s s' := by
  have hop : s.pc.isOpening = false → False := by
    rw [hpc]
    exact fun h => by cases h
  cases m <;> exact ⟨fun _ => .rfl, fun _ h => (hop h).elim, fun _ fd hfd => by cases hfd⟩

variable [DecidableEq Tid] {e : Event Tid G}

/-- A call that begins in the connector. -/
theorem keeps_call (hcall : e.isOwn = false) (hrestart : e ≠ .restart)
    (hn : s.next e = .ok s') : Keeps s s' := by
  cases e with
  | start t =>
      cases t with
      | loop =>
          cases hn
          exact .of_pc (fun _ => .rfl) rfl rfl
      | other t =>
          cases hn
          exact .of_queued (fun _ => .rfl) rfl rfl
  | stop t =>
      cases t with
      | loop =>
          cases hn
          exact .of_pc (fun _ => .rfl) rfl rfl
      | other t =>
          cases hn
          exact .of_queued (fun _ => .rfl) rfl rfl
  | restart => exact absurd rfl hrestart
  | _ => cases hcall

/-- An event of its own, unless it runs a functor that is not. -/
theorem keeps_own (hown : e.isOwn = true) (hqueue : ∀ g, e ≠ .queueInLoop g)
    (hother : e = .functor → ∀ g fs, s.functors.todo ≠ .other g :: fs)
    (he : s.enabled e = true) (hn : s.next e = .ok s') : Keeps s s' := by
  cases e with
  | start t => cases hown
  | stop t => cases hown
  | restart => cases hown
  | queueInLoop g => exact absurd rfl (hqueue g)
  | queueStart t =>
      cases hn
      exact .of_queued (queued_queueInLoop (s := { s with starting := _ }) (by simp)) rfl rfl
  | queueStop t =>
      cases hn
      exact .of_queued (queued_queueInLoop (s := { s with stopping := _ }) (by simp)) rfl rfl
  | step =>
      simp only [enabled, Bool.and_eq_true, decide_eq_true_eq] at he
      exact keeps_step (step_of_next he.1 he.2 hn)
  | connect e => exact keeps_connect (of_decide_eq_true he) (opens_of_next hn)
  | swap =>
      simp only [enabled, Bool.and_eq_true, decide_eq_true_eq] at he
      cases hn
      exact .of_queued (fun g => by rw [Batch.queued_swap he.2]) rfl rfl
  | functor =>
      simp only [next] at hn
      split at hn
      · cases hn
        exact .refl s
      · rename_i f fs hf
        have hmem (g : G) : .other g ∈ s.functors.advance.queued ↔
            .other g ∈ s.functors.queued := by
          rw [Batch.queued_advance hf, List.mem_cons]
          constructor
          · exact Or.inr
          · rintro (h | h)
            · exact absurd (h ▸ hf) (hother rfl g fs)
            · exact h
        cases hn
        cases f with
        | startInLoop => exact .of_pc hmem rfl rfl
        | stopInLoop => exact .of_pc hmem rfl rfl
        | resetChannel => exact .of_queued hmem rfl rfl
        | other g => exact absurd hf (hother rfl g fs)
  | finish =>
      simp only [enabled, Bool.and_eq_true, List.isEmpty_iff] at he
      cases hn
      exact .of_queued (fun g => by rw [Batch.queued_finish he.2]) rfl rfl
  | timer i =>
      cases hn
      exact .of_pc (fun _ => .rfl) rfl rfl
  | channel error write =>
      cases hn
      unfold handleEvent
      split
      · exact .of_pc (fun _ => .rfl) rfl rfl
      · split
        · exact .of_pc (fun _ => .rfl) rfl rfl
        · exact .refl s
  | lost =>
      cases hn
      exact .of_queued (fun _ => .rfl) rfl rfl

end Connector

namespace TcpClient

variable {Tid : Type} {s s' : TcpClient Tid}

/-! ## Counting references -/

/-- The connection the loop thread holds on its stack. In `connectDestroyed`
it holds none: the functor does. -/
def Frame.guard : Frame → Option Nat
  | established c => some c
  | message c => some c
  | closing c => some c
  | removing c => some c
  | restarting c => some c
  | _ => none

/-- `shared_ptr`s to connection `c`. -/
def refs (s : TcpClient Tid) (c : Nat) : Nat :=
  (if s.connection = some c then 1 else 0) + s.connector.functors.held.count (.other c) +
    if s.frame.guard = some c then 1 else 0

/-- Is a `connectDestroyed` for `c` queued? -/
def Bound (s : TcpClient Tid) (c : Nat) : Prop :=
  Connector.Functor.other c ∈ s.connector.functors.queued

/-- Where each connection is, and what goes with it. -/
structure Owned (s : TcpClient Tid) : Prop where
  placed : ∀ c < s.created,
    s.connection = some c ∨ s.frame = .closing c ∨ s.Bound c ∨ (s.conn c).destroyed = true
  interest : ∀ c, (s.conn c).life.interest = true → s.connection = some c ∧ s.frame ≠ .closing c
  closed : ∀ c, s.connection = some c → (s.conn c).life.state = .kDisconnected →
    s.frame = .closing c
  closing : ∀ c, s.frame = .closing c → (s.conn c).life.state = .kDisconnected ∧
    c < s.created ∧ (s.alive = true → s.connection = some c)
  queued : ∀ c, s.Bound c → (s.conn c).life.state = .kDisconnected ∧ c < s.created
  frame : ∀ c, s.frame ≠ .destroying c ∧ s.frame ≠ .down c
  removing : ∀ c, s.frame = .removing c ∨ s.frame = .restarting c → s.connection = none
  up : s.connection ≠ none →
    s.connector.state = .kConnected ∧ s.connector.pc.isOpening = false
  connected : ∀ fd, s.connector.pc = .connected fd → s.connector.state = .kConnected
  bound : ∀ c, s.connection = some c → c < s.created
  dead : s.alive = false → s.connection = none
  detail : ∀ c, (s.conn c).closeCallback = .detail → s.alive = false
  added : ∀ c, (s.conn c).life.added = true → c < s.created ∧ (s.conn c).destroyed = false

theorem owned_new : Owned (new : TcpClient Tid) := by
  constructor <;> simp [new, Bound, Connector.new, Lifecycle.new]

/-- The references a connection has. -/
theorem Owned.refs_pos (h : Owned s) {c : Nat} (hc : c < s.created)
    (hd : (s.conn c).destroyed = false) : 0 < s.refs c := by
  unfold refs
  rcases h.placed c hc with hconn | hframe | hq | hdest
  · rw [if_pos hconn]
    omega
  · have hg : s.frame.guard = some c := by rw [hframe]; rfl
    rw [if_pos hg]
    omega
  · have hheld : Connector.Functor.other c ∈ s.connector.functors.held :=
      List.mem_append_right _ hq
    have hcount := List.count_pos_iff.mpr hheld
    omega
  · rw [hd] at hdest
    cases hdest

/-! ## Steps -/

/-- Only the connector moves. -/
theorem Owned.keeps (h : Owned s) (hk : Connector.Keeps s.connector s'.connector)
    (hconn : s'.conn = s.conn) (hconnection : s'.connection = s.connection)
    (halive : s'.alive = s.alive) (hcreated : s'.created = s.created)
    (hframe : s'.frame = s.frame) : Owned s' := by
  have hbound (c : Nat) : s'.Bound c ↔ s.Bound c := hk.queued c
  constructor
  case placed =>
    intro c hc
    rw [hconnection, hframe, hbound, hconn]
    exact h.placed c (hcreated ▸ hc)
  case interest => rw [hconn, hconnection, hframe]; exact h.interest
  case closed => rw [hconn, hconnection, hframe]; exact h.closed
  case closing => rw [hconn, hconnection, hframe, halive, hcreated]; exact h.closing
  case queued =>
    intro c hc
    rw [hconn, hcreated]
    exact h.queued c ((hbound c).mp hc)
  case frame => rw [hframe]; exact h.frame
  case removing => rw [hframe, hconnection]; exact h.removing
  case up =>
    rw [hconnection]
    intro hne
    exact hk.up (h.up hne).1 (h.up hne).2
  case connected => exact hk.connected h.connected
  case bound => rw [hconnection, hcreated]; exact h.bound
  case dead => rw [halive, hconnection]; exact h.dead
  case detail => rw [hconn, halive]; exact h.detail
  case added => rw [hconn, hcreated]; exact h.added

/-- A point where the loop thread is with nothing under way. -/
def Frame.isPlain : Frame → Bool
  | idle => true
  | established _ => true
  | message _ => true
  | _ => false

/-- The loop thread leaves a callback other than that of `handleClose`. -/
theorem Owned.goTo (h : Owned s) (hf : ∀ c, s.frame ≠ .closing c) {f : Frame}
    (hplain : f.isPlain = true) : Owned (s.goTo f) := by
  have hne (g : Frame) (hg : g.isPlain = false) : f ≠ g := by
    rintro rfl
    rw [hplain] at hg
    cases hg
  exact { h with
    placed := fun c hc => by
      rcases h.placed c hc with hconn | hframe | hq
      · exact Or.inl hconn
      · exact absurd hframe (hf c)
      · exact Or.inr (Or.inr hq)
    interest := fun c hi => ⟨(h.interest c hi).1, hne _ rfl⟩
    closed := fun c hconn hst => absurd (h.closed c hconn hst) (hf c)
    closing := fun c hfc => absurd hfc (hne _ rfl)
    frame := fun c => ⟨hne _ rfl, hne _ rfl⟩
    removing := fun c hfc => hfc.elim (fun hfc => absurd hfc (hne _ rfl))
      fun hfc => absurd hfc (hne _ rfl) }

/-- `removeConnection` goes on to `restart()`. -/
theorem Owned.goTo_restarting (h : Owned s) {c : Nat} (hf : s.frame = .removing c) :
    Owned (s.goTo (.restarting c)) := by
  have hnone := h.removing c (.inl hf)
  exact { h with
    placed := fun c' hc => by
      rcases h.placed c' hc with hconn | hframe | hq
      · exact Or.inl hconn
      · rw [hf] at hframe
        cases hframe
      · exact Or.inr (Or.inr hq)
    interest := fun c' hi => ⟨(h.interest c' hi).1, fun hfc => by cases hfc⟩
    closed := fun c' hconn _ => by
      rw [show s.connection = some c' from hconn] at hnone
      cases hnone
    closing := fun c' hfc => by cases hfc
    frame := fun c' => ⟨fun hfc => (by cases hfc), fun hfc => (by cases hfc)⟩
    removing := fun _ _ => hnone }

theorem Owned.restart (h : Owned s) (hnone : s.connection = none) :
    Owned { s with connector := s.connector.restart } :=
  { h with
    up := fun hne => absurd hnone hne
    connected := fun fd hfd => by cases hfd }

/-- A functor of the client's is queued. -/
theorem bound_queueInLoop (c c' : Nat) :
    (s.queueInLoop (.other c)).Bound c' ↔ s.Bound c' ∨ c' = c := by
  simp [Bound, queueInLoop, Connector.queueInLoop, Batch.queued_push]

/-- The end of `handleClose`: the connection passes to its functor. `s` has
let go of `connection_` already. -/
theorem Owned.handOver (h : Owned s) {c : Nat} (hf : s.frame = .closing c)
    (hconn : ∀ c', s.connection = some c' → c' = c) {f : Frame}
    (hplain : f = .removing c ∨ f.isPlain = true) :
    Owned ((({ s with connection := none }).queueInLoop (.other c)).goTo f) := by
  obtain ⟨hstate, hlt, -⟩ := h.closing c hf
  have hne (g : Frame) (hg : g.isPlain = false) (hr : g ≠ .removing c) : f ≠ g := by
    rintro rfl
    rcases hplain with hp | hp
    · exact hr hp
    · rw [hp] at hg
      cases hg
  have hbound (c' : Nat) := bound_queueInLoop (s := { s with connection := none }) c c'
  have hinterest (c' : Nat) : (s.conn c').life.interest ≠ true := fun hi => by
    obtain ⟨hc', hclosing⟩ := h.interest c' hi
    exact hclosing (hconn c' hc' ▸ hf)
  constructor
  case placed =>
    intro c' hc'
    refine Or.inr (Or.inr ?_)
    rcases h.placed c' hc' with hplace | hframe | hq | hdest
    · exact Or.inl ((hbound c').mpr (.inr (hconn c' hplace)))
    · rw [hf] at hframe
      exact Or.inl ((hbound c').mpr (.inr (Frame.closing.inj hframe).symm))
    · exact Or.inl ((hbound c').mpr (.inl hq))
    · exact Or.inr hdest
  case interest => exact fun c' hi => absurd hi (hinterest c')
  case closed => exact fun c' hc' => by cases hc'
  case closing => exact fun c' hfc => absurd hfc (hne _ rfl (by simp))
  case queued =>
    intro c' hq
    rcases (hbound c').mp hq with hq | rfl
    · exact h.queued c' hq
    · exact ⟨hstate, hlt⟩
  case frame => exact fun c' => ⟨hne _ rfl (by simp), hne _ rfl (by simp)⟩
  case removing => exact fun _ _ => rfl
  case up => exact fun hne => absurd rfl hne
  case connected => exact h.connected
  case bound => exact fun c' hc' => by cases hc'
  case dead => exact fun _ => rfl
  case detail => exact h.detail
  case added => exact h.added

theorem Owned.closeCallback (h : Owned s) {c : Nat} (hf : s.frame = .closing c)
    (hn : s.closeCallback c = .ok s') : Owned s' := by
  unfold TcpClient.closeCallback at hn
  split at hn
  · obtain ⟨_, _, hn⟩ := bind_eq_ok hn
    obtain ⟨_, hconn, hn⟩ := bind_eq_ok hn
    have hconn := of_check hconn
    cases hn
    exact h.handOver hf (fun c' hc' => Option.some.inj (hc'.symm.trans hconn)) (.inl rfl)
  · rename_i hcb
    have hnone := h.dead (h.detail c hcb)
    cases hn
    have hsame : { s with connection := none } = s := by rw [← hnone]
    have := h.handOver hf (f := .idle) (fun c' hc' => by rw [hnone] at hc'; cases hc') (.inr rfl)
    rwa [hsame] at this

/-- A peer close: `handleClose` up to the callback. -/
theorem Owned.close (h : Owned s) {c : Nat} (hidle : s.frame = .idle)
    (hi : (s.conn c).life.interest = true) {life : Lifecycle}
    (hlife : (s.conn c).life.handleClose = .ok life) :
    Owned ((s.setLife c life).goTo (.closing c)) := by
  obtain ⟨hconn, -⟩ := h.interest c hi
  have honly {c' : Nat} (hc' : s.connection = some c') : c' = c :=
    Option.some.inj (hc'.symm.trans hconn)
  have hself : ((s.setLife c life).goTo (.closing c)).conn c = { s.conn c with life := life } :=
    conn_setLife_self
  have hother {c' : Nat} (hc' : c' ≠ c) :
      ((s.setLife c life).goTo (.closing c)).conn c' = s.conn c' := conn_setLife_ne hc'
  obtain ⟨-, rfl⟩ := Lifecycle.handleClose_ok hlife
  constructor
  case placed =>
    intro c' hc'
    by_cases heq : c' = c
    · exact Or.inl (heq ▸ hconn)
    · rw [hother heq]
      rcases h.placed c' hc' with hplace | hframe | hq
      · exact Or.inl hplace
      · rw [hidle] at hframe
        cases hframe
      · exact Or.inr (Or.inr hq)
  case interest =>
    intro c' hi'
    by_cases heq : c' = c
    · rw [heq, hself] at hi'
      cases hi'
    · rw [hother heq] at hi'
      exact absurd (honly (h.interest c' hi').1) heq
  case closed => exact fun c' hc' _ => by rw [honly hc']; rfl
  case closing =>
    intro c' hfc
    obtain rfl := Frame.closing.inj hfc
    rw [hself]
    exact ⟨rfl, h.bound _ hconn, fun _ => hconn⟩
  case queued =>
    intro c' hq
    by_cases heq : c' = c
    · rw [heq, hself]
      exact ⟨rfl, h.bound _ hconn⟩
    · rw [hother heq]
      exact h.queued c' hq
  case frame => exact fun c' => ⟨fun hfc => (by cases hfc), fun hfc => (by cases hfc)⟩
  case removing => exact fun c' hfc => by rcases hfc with hfc | hfc <;> cases hfc
  case up => exact h.up
  case connected => exact h.connected
  case bound => exact h.bound
  case dead => exact h.dead
  case detail =>
    intro c' hcb
    by_cases heq : c' = c
    · rw [heq, hself] at hcb
      exact h.detail c hcb
    · rw [hother heq] at hcb
      exact h.detail c' hcb
  case added =>
    intro c' ha
    by_cases heq : c' = c
    · rw [heq, hself] at ha ⊢
      exact h.added c ha
    · rw [hother heq] at ha ⊢
      exact h.added c' ha

/-- A new connection takes the place of none. -/
theorem Owned.newConnection (h : Owned s) (hnone : s.connection = none)
    (hup : s.connector.state = .kConnected ∧ s.connector.pc.isOpening = false)
    (hn : s.newConnection = .ok s') : Owned s' := by
  obtain ⟨_, halive, hn⟩ := bind_eq_ok hn
  have halive := of_check halive
  obtain ⟨life, hlife, hn⟩ := bind_eq_ok hn
  obtain ⟨-, rfl⟩ := Lifecycle.connectEstablished_ok (liftConn_ok hlife)
  cases hn
  have hfresh {c : Nat} (hc : c < s.created) : c ≠ s.created := Nat.ne_of_lt hc
  constructor
  case placed =>
    intro c hc
    rcases Nat.lt_succ_iff_lt_or_eq.mp hc with hc | rfl
    · refine Or.inr (Or.inr ?_)
      rcases h.placed c hc with hplace | hframe | hq
      · rw [hnone] at hplace
        cases hplace
      · have hconn := (h.closing c hframe).2.2 halive
        rw [hnone] at hconn
        cases hconn
      · rcases hq with hq | hdest
        · exact Or.inl hq
        · refine Or.inr ?_
          change ((s.setConn s.created _).conn c).destroyed = true
          rw [conn_setConn_ne (hfresh hc)]
          exact hdest
    · exact Or.inl rfl
  case interest =>
    intro c hi
    refine ⟨?_, fun hfc => by cases hfc⟩
    by_cases heq : c = s.created
    · exact congrArg some heq.symm
    · change ((s.setConn s.created _).conn c).life.interest = true at hi
      rw [conn_setConn_ne heq] at hi
      have hconn := (h.interest c hi).1
      rw [hnone] at hconn
      cases hconn
  case closed =>
    intro c hc hst
    obtain rfl := Option.some.inj hc
    change ((s.setConn s.created _).conn s.created).life.state = .kDisconnected at hst
    rw [conn_setConn_self] at hst
    cases hst
  case closing => exact fun c hfc => by cases hfc
  case queued =>
    intro c hq
    obtain ⟨hst, hc⟩ := h.queued c hq
    refine ⟨?_, Nat.lt_succ_of_lt hc⟩
    change ((s.setConn s.created _).conn c).life.state = .kDisconnected
    rw [conn_setConn_ne (hfresh hc)]
    exact hst
  case frame => exact fun c => ⟨fun hfc => (by cases hfc), fun hfc => (by cases hfc)⟩
  case removing => exact fun c hfc => by rcases hfc with hfc | hfc <;> cases hfc
  case up => exact fun _ => hup
  case connected => exact h.connected
  case bound =>
    intro c hc
    obtain rfl := Option.some.inj hc
    exact Nat.lt_succ_self _
  case dead =>
    intro hdead
    rw [show s.alive = false from hdead] at halive
    cases halive
  case detail =>
    intro c hcb
    by_cases heq : c = s.created
    · change ((s.setConn s.created _).conn c).closeCallback = .detail at hcb
      rw [heq, conn_setConn_self] at hcb
      cases hcb
    · change ((s.setConn s.created _).conn c).closeCallback = .detail at hcb
      rw [conn_setConn_ne heq] at hcb
      exact h.detail c hcb
  case added =>
    intro c ha
    by_cases heq : c = s.created
    · refine ⟨heq ▸ Nat.lt_succ_self _, ?_⟩
      change ((s.setConn s.created _).conn c).destroyed = false
      rw [heq, conn_setConn_self]
    · change ((s.setConn s.created _).conn c).life.added = true at ha
      rw [conn_setConn_ne heq] at ha
      obtain ⟨hc, hd⟩ := h.added c ha
      refine ⟨Nat.lt_succ_of_lt hc, ?_⟩
      change ((s.setConn s.created _).conn c).destroyed = false
      rw [conn_setConn_ne heq]
      exact hd

/-- A connection changes, and neither comes up nor goes down. -/
theorem Owned.setConn (h : Owned s) {c : Nat} {k : Conn}
    (hinterest : k.life.interest = (s.conn c).life.interest)
    (hstate : k.life.state = .kDisconnected ↔ (s.conn c).life.state = .kDisconnected)
    (hcallback : k.closeCallback = .detail → s.alive = false)
    (hadded : k.life.added = true → (s.conn c).life.added = true ∧ k.destroyed = false)
    (hdestroyed : (s.conn c).destroyed = true → k.destroyed = true) : Owned (s.setConn c k) := by
  have hst (c' : Nat) : ((s.setConn c k).conn c').life.state = .kDisconnected ↔
      (s.conn c').life.state = .kDisconnected := by
    by_cases heq : c' = c
    · rw [heq, conn_setConn_self]
      exact hstate
    · rw [conn_setConn_ne heq]
  exact { h with
    placed := fun c' hc' => by
      rcases h.placed c' hc' with hplace | hframe | hq | hdest
      · exact Or.inl hplace
      · exact Or.inr (Or.inl hframe)
      · exact Or.inr (Or.inr (Or.inl hq))
      · refine Or.inr (Or.inr (Or.inr ?_))
        by_cases heq : c' = c
        · rw [heq, conn_setConn_self]
          exact hdestroyed (heq ▸ hdest)
        · rwa [conn_setConn_ne heq]
    interest := fun c' hi => by
      by_cases heq : c' = c
      · rw [heq, conn_setConn_self, hinterest] at hi
        exact heq ▸ h.interest c hi
      · rw [conn_setConn_ne heq] at hi
        exact h.interest c' hi
    closed := fun c' hc' hs' => h.closed c' hc' ((hst c').mp hs')
    closing := fun c' hfc => ⟨(hst c').mpr (h.closing c' hfc).1, (h.closing c' hfc).2⟩
    queued := fun c' hq => ⟨(hst c').mpr (h.queued c' hq).1, (h.queued c' hq).2⟩
    detail := fun c' hcb => by
      by_cases heq : c' = c
      · rw [heq, conn_setConn_self] at hcb
        exact hcallback hcb
      · rw [conn_setConn_ne heq] at hcb
        exact h.detail c' hcb
    added := fun c' ha => by
      by_cases heq : c' = c
      · rw [heq, conn_setConn_self] at ha ⊢
        exact ⟨(h.added c (hadded ha).1).1, (hadded ha).2⟩
      · rw [conn_setConn_ne heq] at ha ⊢
        exact h.added c' ha }

/-- The functor of a connection runs: `connectDestroyed`, to its end. -/
theorem Owned.connectDestroyed (h : Owned s) {c : Nat} {fs : List (Connector.Functor Nat)}
    (hf : s.connector.functors.todo = .other c :: fs) :
    Owned ({ s with connector :=
      { s.connector with functors := s.connector.functors.advance } }.connectDestroyed c) := by
  have hq := Batch.queued_advance hf
  have hb : s.Bound c := Batch.mem_queued_of_todo hf
  have hstate := (h.queued c hb).1
  have hsub (c' : Nat) (hb' : Connector.Functor.other c' ∈ s.connector.functors.advance.queued) :
      s.Bound c' := by
    rw [Bound, hq]
    exact List.mem_cons_of_mem _ hb'
  -- `remove` first, then take the functor off
  have hremoved : Owned (s.remove c) :=
    h.setConn rfl .rfl (h.detail c) (fun ha => by cases ha) fun _ => rfl
  unfold TcpClient.connectDestroyed
  rw [if_neg (by simp [hstate])]
  exact { hremoved with
    placed := fun c' hc' => by
      rcases hremoved.placed c' hc' with hplace | hframe | hb' | hdest
      · exact Or.inl hplace
      · exact Or.inr (Or.inl hframe)
      · rw [Bound, show (s.remove c).connector.functors.queued = _ from hq] at hb'
        rcases List.mem_cons.mp hb' with heq | hb'
        · obtain rfl := Connector.Functor.other.inj heq
          refine Or.inr (Or.inr (Or.inr ?_))
          exact congrArg Conn.destroyed conn_setConn_self
        · exact Or.inr (Or.inr (Or.inl hb'))
      · exact Or.inr (Or.inr (Or.inr hdest))
    queued := fun c' hb' => hremoved.queued c' (hsub c' hb') }

theorem Owned.disconnect (h : Owned s) : Owned s.disconnect := by
  have hclear : Owned { s with connect_ := false } := { h with }
  unfold TcpClient.disconnect
  split
  · rename_i c hc
    refine hclear.setConn Lifecycle.interest_shutdown ?_ (h.detail c) (fun ha => ?_) id
    · rcases (s.conn c).life.state_shutdown with heq | ⟨hup, heq⟩
      · rw [heq]
      · have hconn : ({ s with connect_ := false } : TcpClient Tid).conn c = s.conn c := rfl
        rw [heq, hconn, hup]
        simp
    · rw [Lifecycle.added_shutdown] at ha
      exact ⟨ha, (h.added c ha).2⟩
  · exact hclear

/-- `~TcpClient`, the close of its connection being under way. -/
theorem Owned.destroy (h : Owned s)
    (hC : ∀ c, s.connection = some c → (s.conn c).life.state = .kDisconnected) :
    Owned s.destroy := by
  have hinterest (c : Nat) : (s.conn c).life.interest ≠ true := fun hi => by
    obtain ⟨hconn, hf⟩ := h.interest c hi
    exact hf (h.closed c hconn (hC c hconn))
  have hgone : Owned { s with connection := none, alive := false } :=
    { h with
      placed := fun c hc => by
        rcases h.placed c hc with hplace | hrest
        · exact Or.inr (Or.inl (h.closed c hplace (hC c hplace)))
        · exact Or.inr hrest
      interest := fun c hi => absurd hi (hinterest c)
      closed := fun c hc => by cases hc
      closing := fun c hf => ⟨(h.closing c hf).1, (h.closing c hf).2.1, fun ha => by cases ha⟩
      removing := fun _ _ => rfl
      up := fun hne => absurd rfl hne
      bound := fun c hc => by cases hc
      dead := fun _ => rfl
      detail := fun _ _ => rfl }
  unfold TcpClient.destroy
  split
  · rename_i c _
    refine hgone.setConn (c := c) (k := { s.conn c with closeCallback := .detail }) rfl .rfl
      (fun _ => rfl) (fun ha => ⟨ha, (h.added c ha).2⟩) id
  · rename_i hnone
    have hsame : { s with connection := none, alive := false } = { s with alive := false } := by
      rw [← hnone]
    rw [hsame] at hgone
    exact { hgone with }

/-! ## Events -/

/-- The side condition on events: when the destructor runs, `handleClose` of the
connection in `connection_`, if any, has begun. -/
def DestroyedClosed (s : TcpClient Tid) : Event Tid → Prop
  | .destroy => ∀ c, s.connection = some c → (s.conn c).life.state = .kDisconnected
  | _ => True

theorem Owned.step (h : Owned s) (hn : s.step = .ok s') : Owned s' := by
  unfold TcpClient.step at hn
  split at hn
  · cases hn
    exact h
  · rename_i hf
    cases hn
    exact h.goTo (by simp [hf]) rfl
  · rename_i hf
    cases hn
    exact h.goTo (by simp [hf]) rfl
  · rename_i hf
    exact h.closeCallback hf hn
  · rename_i c hf
    cases hn
    split
    · exact h.goTo_restarting hf
    · exact h.goTo (by simp [hf]) rfl
  · rename_i c hf
    cases hn
    have hnone := h.removing c (.inr hf)
    exact (h.restart hnone).goTo (s := { s with connector := s.connector.restart })
      (by simp [hf]) rfl
  · rename_i hf
    exact absurd hf (h.frame _).1
  · rename_i hf
    exact absurd hf (h.frame _).2

theorem Owned.of_keeps (h : Owned s) {k : Connector Tid Nat}
    (hk : Connector.Keeps s.connector k) : Owned { s with connector := k } :=
  h.keeps hk rfl rfl rfl rfl rfl

variable [DecidableEq Tid] {a : Event Tid}

/-- **An event of the connector**, and what it has the client do. -/
theorem Owned.after (h : Owned s) {e : Connector.Event Tid Nat} (hown : s.ownEvent e = true)
    (he : s.connector.enabled e = true) {k : Connector Tid Nat}
    (hk : s.connector.next e = .ok k) (hn : s.after e k = .ok s') : Owned s' := by
  have hqueue : ∀ g, e ≠ .queueInLoop g := by
    rintro g rfl
    cases hown
  have hkeeps (hf : e = .functor → ∀ g fs, s.connector.functors.todo ≠ .other g :: fs) :=
    Connector.keeps_own (isOwn_of_ownEvent hown) hqueue hf he hk
  cases after_of_ok hn with
  | established hstep hpc _ hnew =>
      subst hstep
      have hnone : s.connection = none := by
        by_contra hne
        have hopening := (h.up hne).2
        rw [hpc] at hopening
        cases hopening
      have hstate := h.connected _ hpc
      refine (h.of_keeps (hkeeps fun hf => by cases hf)).newConnection hnone ?_ hnew
      simp only [Connector.next, Connector.step, hpc] at hk
      cases hk
      unfold Connector.established
      split <;> exact ⟨hstate, rfl⟩
  | destroyed hfunctor hf hs' =>
      subst hfunctor hs'
      simp only [Connector.next, hf] at hk
      cases hk
      exact h.connectDestroyed hf
  | nothing hf hs' =>
      subst hs'
      exact h.of_keeps (hkeeps hf)

/-- A call that begins in the connector. -/
theorem Owned.call (h : Owned s) {e : Connector.Event Tid Nat} (hcall : e.isOwn = false)
    (hrestart : e ≠ .restart) {k : Connector Tid Nat}
    (hk : lift (s.connector.next e) = .ok k) : Owned { s with connector := k } :=
  h.of_keeps (Connector.keeps_call hcall hrestart (lift_ok hk))

/-- **One event** under the side condition. -/
theorem Owned.next (h : Owned s) (he : s.enabled a = true) (hC : s.DestroyedClosed a)
    (hn : s.next a = .ok s') : Owned s' := by
  cases a with
  | connect t => cases t <;> cases hn <;> exact { h with }
  | connectorStart t =>
      cases t with
      | loop =>
          obtain ⟨k, hk, hn⟩ := bind_eq_ok hn
          cases hn
          exact { h.call rfl (by simp) hk with }
      | other t =>
          obtain ⟨k, hk, hn⟩ := bind_eq_ok hn
          cases hn
          exact { h.call rfl (by simp) hk with }
  | stop t => cases t <;> cases hn <;> exact { h with }
  | connectorStop t =>
      cases t with
      | loop =>
          obtain ⟨k, hk, hn⟩ := bind_eq_ok hn
          cases hn
          exact { h.call rfl (by simp) hk with }
      | other t =>
          obtain ⟨k, hk, hn⟩ := bind_eq_ok hn
          cases hn
          exact { h.call rfl (by simp) hk with }
  | disconnect =>
      cases hn
      exact h.disconnect
  | enableRetry =>
      cases hn
      exact { h with }
  | destroy =>
      cases hn
      exact h.destroy hC
  | step => exact h.step hn
  | message c =>
      simp only [enabled, ready, Bool.and_eq_true] at he
      cases hn
      exact h.goTo (by simp [(inLoop_idle he.1.1).2]) rfl
  | close c =>
      simp only [enabled, ready, Lifecycle.isPolled, Bool.and_eq_true] at he
      obtain ⟨life, hlife, hn⟩ := bind_eq_ok hn
      cases hn
      exact h.close (inLoop_idle he.1.1).2 he.2.2 (liftConn_ok hlife)
  | connector e =>
      simp only [enabled, Bool.and_eq_true] at he
      by_cases hstop : ∃ t, e = .queueStop t
      · obtain ⟨t, rfl⟩ := hstop
        obtain ⟨k, hk, hn⟩ := bind_eq_ok hn
        cases hn
        have hkeeps := Connector.keeps_own (s := s.connector) (e := .queueStop t) rfl (by simp)
          (by simp) he.2 (lift_ok hk)
        exact { h.of_keeps hkeeps with }
      · rw [next_connector fun t ht => hstop ⟨t, ht⟩] at hn
        obtain ⟨k, hk, hn⟩ := bind_eq_ok hn
        exact h.after he.1 he.2 (lift_ok hk) hn

/-! ## Whole runs -/

theorem owned_reachable (hs : (system.guarded DestroyedClosed).Reachable s) : Owned s := by
  have hinv : ((system : Lts (TcpClient Tid) _ _).guarded DestroyedClosed).Invariant Owned := {
    init := by
      rintro s hs
      rw [show s = new from hs]
      exact owned_new
    step := fun s a s' h he hn => h.next he.1 he.2 hn }
  exact hinv.reachable hs

/-- A connection that has not been through `connectDestroyed` has a reference,
and so has one whose channel is in the poller. -/
def Kept (s : TcpClient Tid) : Prop :=
  ∀ c < s.created, ((s.conn c).destroyed = false → 0 < s.refs c) ∧
    ((s.conn c).life.added = true → 0 < s.refs c)

/-- **A connection outlives its `connectDestroyed`**, in every run under the
side condition. -/
theorem owned_until_destroyed (hs : (system.guarded DestroyedClosed).Reachable s) : s.Kept := by
  have h := owned_reachable hs
  intro c hc
  exact ⟨h.refs_pos hc, fun ha => h.refs_pos hc (h.added c ha).2⟩

/-- Up to the callback of a connection that has just come up. -/
def comesUp : List (Event Nat) :=
  [.connect .loop, .connectorStart .loop, .connector .step, .connector (.connect .success),
    .connector (.channel false (some ⟨0, false⟩)), .connector .step, .connector .step]

theorem owned_until_destroyed_up : ∃ s : TcpClient Nat, s.created = 1 ∧ s.Kept := by
  let L : Lts (TcpClient Nat) (Event Nat) Fault := system.guarded DestroyedClosed
  have h₀ : L.Reachable new := .of_init rfl
  have h₁ := h₀.step (a := Event.connect .loop) ⟨rfl, trivial⟩ rfl
  have h₂ := h₁.step (a := Event.connectorStart .loop) ⟨rfl, trivial⟩ rfl
  have h₃ := h₂.step (a := Event.connector .step) ⟨rfl, trivial⟩ rfl
  have h₄ := h₃.step (a := Event.connector (.connect .success)) ⟨rfl, trivial⟩ rfl
  have h₅ := h₄.step (a := Event.connector (.channel false (some ⟨0, false⟩))) ⟨rfl, trivial⟩ rfl
  have h₆ := h₅.step (a := Event.connector .step) ⟨rfl, trivial⟩ rfl
  have h₇ := h₆.step (a := Event.connector .step) ⟨rfl, trivial⟩ rfl
  exact ⟨_, rfl, owned_until_destroyed h₇⟩

/-- The first connection, in the poller with no reference to it. -/
def dangling (s : TcpClient Nat) : Bool :=
  s.created = 1 && (s.conn 0).life.added && s.refs 0 = 0

/-- The client is destroyed while its connection is up. -/
theorem freed_while_up : ¬∀ s : TcpClient Nat, system.Reachable s → s.Kept := by
  intro h
  obtain ⟨s, hs, hp⟩ := Lts.exists_reachable_of_exec
    (L := (system : Lts (TcpClient Nat) (Event Nat) Fault))
    (comesUp ++ [.step, .destroy]) dangling rfl (by decide +kernel)
  simp only [dangling, Bool.and_eq_true, decide_eq_true_eq] at hp
  obtain ⟨⟨hcreated, hadded⟩, hrefs⟩ := hp
  have hpos := (h s hs 0 (by omega)).2 hadded
  rw [hrefs] at hpos
  cases hpos

end TcpClient

end Muduo
