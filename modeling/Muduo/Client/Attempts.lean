import Muduo.Client.Connector

/-!
# One attempt at a time

What may still lead to `startInLoop` and on to a connection: a functor of
`start()`, queued or about to be, a retry timer, the loop thread on its way
from `startInLoop` to `connect()` or to a new timer. Each is a *start*. The
law is that the starts and the channel in the poller are at most one, and
that a start finds `state_` at `kDisconnected` (`Single`).

`start()` and `restart()` each add a start without looking. `stop()` takes
none away, the timer least of all, so `stop()` followed by `start()` makes
two (`second_attempt`). Called when there is nothing else to come and the
state is right, they keep the law (`one_attempt`).
-/

namespace Muduo

open Lib

namespace Connector

variable {Tid G : Type} {s s' : Connector Tid G}

def Functor.isStart : Functor G → Bool
  | startInLoop => true
  | _ => false

/-- On the way to an attempt or to a retry. -/
def Pc.starts : Pc → Nat
  | startInLoop => 1
  | connect => 1
  | retry _ => 1
  | _ => 0

/-- How many times `startInLoop` may still lead to an attempt. -/
def starts (s : Connector Tid G) : Nat :=
  s.functors.queued.countP Functor.isStart + s.starting.length + s.timers.length + s.pc.starts

/-- The attempts under way: a channel in the poller, a timer that will still
connect. -/
def attempts (s : Connector Tid G) : Nat :=
  s.isRegistered.toNat + if s.connect_ then s.timers.length else 0

/-- At most one start or attempt, in the state that goes with it. -/
structure Single (s : Connector Tid G) : Prop where
  one : s.starts + s.isRegistered.toNat ≤ 1
  start : 0 < s.starts → s.state = .kDisconnected
  registered : s.isRegistered = true → s.state = .kConnecting

theorem single_new : Single (new : Connector Tid G) :=
  ⟨Nat.zero_le _, fun h => absurd h (Nat.lt_irrefl 0), fun h => by cases h⟩

theorem Single.attempts_le (h : Single s) : s.attempts ≤ 1 := by
  have hone := h.one
  unfold starts at hone
  unfold attempts
  split <;> omega

/-- No start is added. -/
theorem Single.congr (h : Single s) (hstarts : s'.starts ≤ s.starts)
    (hchannel : s'.channel = s.channel) (hstate : s'.state = s.state) : Single s' := by
  have hreg : s'.isRegistered = s.isRegistered := by rw [isRegistered, isRegistered, hchannel]
  refine ⟨?_, fun hpos => ?_, fun hr => ?_⟩
  · rw [hreg]
    exact Nat.le_trans (Nat.add_le_add_right hstarts _) h.one
  · rw [hstate]
    exact h.start (Nat.lt_of_lt_of_le hpos hstarts)
  · rw [hstate]
    exact h.registered (hreg.symm.trans hr)

/-- A start where there is none, in state `kDisconnected`. -/
theorem Single.first (hstarts : s'.starts ≤ 1) (hreg : s'.isRegistered = false)
    (hstate : s'.state = .kDisconnected) : Single s' := by
  refine ⟨?_, fun _ => hstate, fun hr => ?_⟩
  · rw [hreg]
    exact hstarts
  · rw [hreg] at hr
    cases hr

theorem Single.not_registered (h : Single s) (hstate : s.state ≠ .kConnecting) :
    s.isRegistered = false := by
  by_contra hr
  exact hstate (h.registered (Bool.not_eq_false _ |>.mp hr))

/-- A channel in the poller leaves no room for a start. -/
theorem Single.no_start (h : Single s) {sockfd : Nat} (hc : s.channel = some ⟨sockfd, true⟩) :
    s.starts = 0 := by
  have hreg : s.isRegistered = true := by rw [isRegistered, hc]; rfl
  have hone := h.one
  rw [hreg] at hone
  exact Nat.le_zero.mp (Nat.le_of_add_le_add_right hone)

/-! ## Counting -/

theorem starts_goTo (pc : Pc) : (s.goTo pc).starts + s.pc.starts = s.starts + pc.starts := by
  simp only [starts, goTo]
  omega

theorem starts_from_idle (h : s.pc = .idle) (pc : Pc) :
    (s.goTo pc).starts = s.starts + pc.starts := by
  have hgo := starts_goTo (s := s) pc
  rw [h] at hgo
  exact hgo

theorem starts_queueInLoop (f : Functor G) :
    (s.queueInLoop f).starts = s.starts + if f.isStart then 1 else 0 := by
  simp only [starts, queueInLoop, Batch.queued_push, List.countP_append, List.countP_singleton]
  omega

theorem starts_advance {f : Functor G} {fs : List (Functor G)} (hf : s.functors.todo = f :: fs) :
    s.starts = { s with functors := s.functors.advance }.starts + if f.isStart then 1 else 0 := by
  simp only [starts, Batch.queued_advance hf, List.countP_cons]
  omega

/-- The channel leaves the poller, and the attempt is over or to be retried. -/
theorem starts_removed (sockfd : Nat) (pc : Pc) :
    ((s.removed sockfd).goTo pc).starts + s.pc.starts = s.starts + pc.starts := by
  have h : (s.removed sockfd).starts = s.starts :=
    (starts_queueInLoop (s := { s with channel := some ⟨sockfd, false⟩ }) .resetChannel)
  have hgo := starts_goTo (s := s.removed sockfd) pc
  rw [h] at hgo
  exact hgo

theorem starts_runAfter : s.runAfter.starts ≤ s.starts + 1 := by
  unfold runAfter
  split
  · simp only [starts, List.length_append, List.length_singleton]
    omega
  · exact Nat.le_succ _

/-! ## Steps -/

theorem Single.step (h : Single s) (m : Step s s') : Single s' := by
  cases m with
  | start hpc _ =>
      refine h.congr ?_ rfl rfl
      have hgo := starts_goTo (s := s) (if s.connect_ then .connect else .idle)
      have hle : (if s.connect_ then Pc.connect else Pc.idle).starts ≤ 1 := by
        split
        · exact Nat.le_refl _
        · exact Nat.zero_le _
      rw [hpc, Pc.starts] at hgo
      omega
  | @drop sockfd write hpc _ hc =>
      have hgo := starts_removed (s := s) sockfd (.retry write)
      have hno := h.no_start hc
      refine .first ?_ rfl rfl
      change ((s.removed sockfd).goTo (.retry write)).starts ≤ 1
      rw [hno, Pc.starts] at hgo
      omega
  | stopped hpc _ =>
      have hgo := starts_goTo (s := s) .idle
      rw [hpc] at hgo
      exact h.congr (Nat.le_of_eq hgo) rfl rfl
  | write hpc _ =>
      have hgo := starts_goTo (s := s) .idle
      rw [hpc] at hgo
      exact h.congr (Nat.le_of_eq hgo) rfl rfl
  | @succeed w sockfd hpc _ hc =>
      have hgo := starts_removed (s := s) sockfd (.connected sockfd)
      have hno := h.no_start hc
      have hnone :
          (((s.removed sockfd).setState .kConnected).goTo (.connected sockfd)).starts = 0 := by
        change ((s.removed sockfd).goTo (.connected sockfd)).starts = 0
        rw [hno, hpc] at hgo
        exact hgo
      refine ⟨?_, fun hpos => ?_, fun hr => by cases hr⟩
      · rw [hnone]
        exact Nat.zero_le _
      · rw [hnone] at hpos
        cases hpos
  | @retry write hpc =>
      have hgo := starts_goTo (s := s.runAfter) (write.elim .idle .handleWrite)
      have hpc' : s.runAfter.pc = s.pc := by unfold runAfter; split <;> rfl
      have hstate : s.runAfter.state = s.state := by unfold runAfter; split <;> rfl
      have hchannel : s.runAfter.channel = s.channel := by unfold runAfter; split <;> rfl
      have hnone : (write.elim Pc.idle .handleWrite).starts = 0 := by cases write <;> rfl
      have hafter := starts_runAfter (s := s)
      refine h.congr ?_ hchannel hstate
      rw [hpc', hpc, hnone, Pc.starts] at hgo
      omega
  | @established sockfd hpc =>
      have hgo := starts_goTo (s := s) .idle
      rw [hpc] at hgo
      unfold established
      split
      · exact h.congr (Nat.le_of_eq hgo) rfl rfl
      · exact h.congr (Nat.le_of_eq hgo) rfl rfl

theorem Single.connect (h : Single s) (hpc : s.pc = .connect) {e : Errno} (m : Opens s e s') :
    Single s' := by
  have hpos : 0 < s.starts := by
    rw [starts, hpc]
    exact Nat.succ_pos _
  have hstate := h.start hpos
  have hreg := h.not_registered (by rw [hstate]; simp)
  have hone : s.starts = 1 := Nat.le_antisymm (Nat.le_of_add_right_le h.one) hpos
  have hidle : (s.goTo .idle).starts = 0 := by
    have hgo := starts_goTo (s := s) .idle
    rw [hpc, hone] at hgo
    exact Nat.succ.inj hgo
  cases m with
  | connecting _ _ =>
      refine ⟨?_, fun h₀ => ?_, fun _ => rfl⟩
      · change (s.goTo .idle).starts + 1 ≤ 1
        rw [hidle]
      · change 0 < (s.goTo .idle).starts at h₀
        rw [hidle] at h₀
        cases h₀
  | retry _ =>
      have hgo := starts_goTo (s := s) (.retry none)
      refine .first ?_ hreg rfl
      change (s.goTo (.retry none)).starts ≤ 1
      rw [hpc, hone] at hgo
      exact Nat.le_of_eq (Nat.succ.inj hgo)
  | close _ => exact .first (Nat.le_trans (Nat.le_of_eq hidle) (Nat.zero_le _)) hreg hstate

theorem Single.runFunctor (h : Single s) (hpc : s.pc = .idle) {f : Functor G}
    {fs : List (Functor G)} (hf : s.functors.todo = f :: fs) :
    Single ({ s with functors := s.functors.advance }.runFunctor f) := by
  have hadv := starts_advance hf
  have hgo := starts_from_idle (s := { s with functors := s.functors.advance }) hpc
  cases f with
  | startInLoop => exact h.congr (Nat.le_of_eq ((hgo _).trans hadv.symm)) rfl rfl
  | stopInLoop => exact h.congr (Nat.le_of_eq ((hgo _).trans hadv.symm)) rfl rfl
  | resetChannel =>
      refine ⟨?_, fun hpos => h.start ?_, fun hr => by cases hr⟩
      · have hone := h.one
        rw [hadv] at hone
        exact Nat.le_of_add_right_le hone
      · rw [hadv]
        exact hpos
  | other g => exact h.congr (Nat.le_of_eq hadv.symm) rfl rfl

/-! ## Events -/

/-- The side condition on events: `start()` is called in state
`kDisconnected`, `restart()` not in state `kConnecting`, and both only while
there is no start. -/
def WellStarted (s : Connector Tid G) : Event Tid G → Prop
  | .start _ => s.starts = 0 ∧ s.state = .kDisconnected
  | .restart => s.starts = 0 ∧ s.state ≠ .kConnecting
  | _ => True

variable [DecidableEq Tid] {a : Event Tid G}

/-- **One event** under the side condition. -/
theorem Single.next (h : Single s) (he : s.enabled a = true) (hC : s.WellStarted a)
    (hn : s.next a = .ok s') : Single s' := by
  cases a with
  | start t =>
      obtain ⟨hno, hstate⟩ := hC
      have hreg := h.not_registered (by rw [hstate]; simp)
      cases t with
      | loop =>
          cases hn
          have hgo := starts_from_idle (of_decide_eq_true he) .startInLoop
          rw [hno] at hgo
          exact .first (Nat.le_of_eq hgo) hreg hstate
      | other t =>
          cases hn
          refine .first ?_ hreg hstate
          simp only [starts, List.length_cons] at hno ⊢
          omega
  | queueStart t =>
      have ht : t ∈ s.starting := of_decide_eq_true he
      have hlen := List.length_erase_add_one ht
      cases hn
      refine h.congr ?_ rfl rfl
      have hqueue := starts_queueInLoop (s := { s with starting := s.starting.erase t })
        .startInLoop
      refine Nat.le_of_eq (hqueue.trans ?_)
      change _ + 1 = _
      simp only [starts]
      omega
  | stop t =>
      cases t with
      | loop =>
          cases hn
          exact h.congr (Nat.le_of_eq (starts_from_idle (of_decide_eq_true he) _)) rfl rfl
      | other t =>
          cases hn
          exact h.congr (Nat.le_refl _) rfl rfl
  | queueStop t =>
      cases hn
      exact h.congr (Nat.le_of_eq (starts_queueInLoop (s := { s with
        stopping := s.stopping.erase t }) .stopInLoop)) rfl rfl
  | restart =>
      obtain ⟨hno, hstate⟩ := hC
      cases hn
      have hgo := starts_from_idle (of_decide_eq_true he) .startInLoop
      rw [hno] at hgo
      exact .first (Nat.le_of_eq hgo) (h.not_registered hstate) rfl
  | queueInLoop g =>
      cases hn
      exact h.congr (Nat.le_of_eq (starts_queueInLoop (.other g))) rfl rfl
  | step =>
      simp only [enabled, Bool.and_eq_true, decide_eq_true_eq] at he
      exact h.step (step_of_next he.1 he.2 hn)
  | connect e => exact h.connect (of_decide_eq_true he) (opens_of_next hn)
  | swap =>
      simp only [enabled, Bool.and_eq_true, decide_eq_true_eq] at he
      cases hn
      refine h.congr (Nat.le_of_eq ?_) rfl rfl
      simp only [starts, Batch.queued_swap he.2]
  | functor =>
      simp only [enabled, Bool.and_eq_true, decide_eq_true_eq] at he
      simp only [Connector.next] at hn
      split at hn
      · cases hn
        exact h
      · rename_i hf
        cases hn
        exact h.runFunctor he.1 hf
  | finish =>
      simp only [enabled, Bool.and_eq_true, List.isEmpty_iff] at he
      cases hn
      refine h.congr (Nat.le_of_eq ?_) rfl rfl
      simp only [starts, Batch.queued_finish he.2]
  | timer i =>
      simp only [enabled, Bool.and_eq_true, decide_eq_true_eq] at he
      cases hn
      have hlen := List.length_eraseIdx_of_lt he.2
      refine h.congr ?_ rfl rfl
      simp only [starts, hlen, he.1.1, Pc.starts]
      omega
  | channel error write =>
      simp only [enabled, Bool.and_eq_true, decide_eq_true_eq] at he
      cases hn
      unfold handleEvent
      split
      · exact h.congr (Nat.le_of_eq (starts_from_idle he.1.1 _)) rfl rfl
      · split
        · exact h.congr (Nat.le_of_eq (starts_from_idle he.1.1 _)) rfl rfl
        · exact h
  | lost =>
      cases hn
      exact h.congr (Nat.le_refl _) rfl rfl

/-! ## Whole runs -/

/-- `startInLoop` never finds another state than `kDisconnected`, and one
attempt at most is under way. -/
def OneAttempt (s : Connector Tid G) : Prop :=
  s.attempts ≤ 1 ∧ ∀ a, s.enabled a = true → s.next a ≠ .error .startInLoop

/-- **One attempt at a time**, in every run under the side condition. -/
theorem one_attempt (hs : (system.guarded WellStarted).Reachable s) : s.OneAttempt := by
  have hinv : ((system : Lts (Connector Tid G) _ _).guarded WellStarted).Invariant Single := {
    init := by
      rintro s hs
      rw [show s = new from hs]
      exact single_new
    step := fun s a s' h he hn => h.next he.1 he.2 hn }
  have h := hinv.reachable hs
  refine ⟨h.attempts_le, fun a he hn => ?_⟩
  cases fails_of_next hn with
  | startInLoop hpc hstate =>
      refine hstate (h.start ?_)
      rw [starts, hpc]
      exact Nat.succ_pos _
  | slot _ hf => rcases hf with hf | hf <;> cases hf

theorem one_attempt_retrying : ∃ s : Connector Nat Unit,
    s.timers = [kInitRetryDelayMs] ∧ s.OneAttempt := by
  let L : Lts (Connector Nat Unit) (Event Nat Unit) Fault := system.guarded WellStarted
  have h₀ : L.Reachable new := .of_init rfl
  have h₁ := h₀.step (a := Event.start .loop) ⟨rfl, rfl, rfl⟩ rfl
  have h₂ := h₁.step (a := Event.step) ⟨rfl, trivial⟩ rfl
  have h₃ := h₂.step (a := Event.connect .ECONNREFUSED) ⟨rfl, trivial⟩ rfl
  have h₄ := h₃.step (a := Event.step) ⟨rfl, trivial⟩ rfl
  exact ⟨_, rfl, one_attempt h₄⟩

/-- Is `start()` called the way `TcpClient::connect()` does: with a `stop()` or
the loss of a connection between two calls? `free` says there has been one
since the last. -/
def issued (free : Bool) : List (Event Tid G) → Bool
  | [] => true
  | .start _ :: as => free && issued false as
  | .stop _ :: as => issued true as
  | .lost :: as => issued true as
  | _ :: as => issued free as

/-- A connection refused, a retry timer set; `stop()`, `start()`, and the timer
fires while the new attempt is under way. -/
theorem second_attempt :
    ¬∀ (as : List (Event Nat Unit)) (s : Connector Nat Unit), system.Run new as s →
      issued true as = true → s.OneAttempt := by
  intro h
  obtain ⟨s, hrun, he, hn⟩ := Lts.exists_fault_of_exec
    (L := (system : Lts (Connector Nat Unit) (Event Nat Unit) Fault)) new
    [.start .loop, .step, .connect .ECONNREFUSED, .step, .stop .loop, .step, .start .loop, .step,
      .connect .EINPROGRESS, .timer 0] .step .startInLoop (by decide +kernel)
  exact (h _ s hrun rfl).2 _ he hn

end Connector

end Muduo
