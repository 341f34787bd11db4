import Muduo.Client.Connector

/-!
# The slot `channel_` and the poller

A channel is taken out of the poller at once and destroyed later, by a
`resetChannel` queued for the purpose. In between the slot is *stale*: it
holds a channel the poller no longer has. One reset is queued for a stale
slot and none for any other (`Deferred`), so what a reset destroys has left
the poller.

Whether `connecting()` finds the slot empty is another matter: `stop()` and
`start()` in one handler get there with the reset still queued
(`slot_occupied`). As long as no attempt begins before the reset has run,
and `restart()` is not called on a connecting socket, the slot and the
poller agree with `state_` (`slot_agrees`).
-/

namespace Muduo

open Lib

namespace Connector

variable {Tid G : Type} {s s' : Connector Tid G}

/-- `channel_` holds a channel that is not in the poller. -/
def stale (s : Connector Tid G) : Bool := s.channel.any fun ch => !ch.registered

/-- A reset is queued for each stale slot, and what was reset was stale. -/
structure Deferred (s : Connector Tid G) : Prop where
  resets : s.resets = if s.stale then 1 else 0
  destroyed : ∀ ch ∈ s.destroyed, ch.registered = false

theorem deferred_new : Deferred (new : Connector Tid G) := ⟨rfl, by simp [new]⟩

/-- Only the queue, the slot and the record matter. -/
theorem Deferred.congr (h : Deferred s) (hresets : s'.resets = s.resets)
    (hchannel : s'.channel = s.channel) (hdestroyed : s'.destroyed = s.destroyed) :
    Deferred s' := by
  obtain ⟨h₁, h₂⟩ := h
  refine ⟨?_, by rwa [hdestroyed]⟩
  rw [hresets, h₁, stale, stale, hchannel]

/-- The channel leaves the poller, and its reset is queued. -/
theorem Deferred.removed (h : Deferred s) {sockfd : Nat}
    (hc : s.channel = some ⟨sockfd, true⟩) : Deferred (s.removed sockfd) where
  resets := by
    have hnone : s.resets = 0 := by
      rw [h.resets, stale, hc]
      rfl
    exact (resets_queueInLoop .resetChannel).trans (congrArg (· + 1) hnone)
  destroyed := h.destroyed

theorem channel_runAfter : s.runAfter.channel = s.channel := by
  unfold runAfter
  split <;> rfl

theorem Deferred.runAfter (h : Deferred s) : Deferred s.runAfter := by
  unfold Connector.runAfter
  split
  · exact h.congr rfl rfl rfl
  · exact h

theorem Deferred.established (h : Deferred s) (sockfd : Nat) :
    Deferred (s.established sockfd) := by
  unfold Connector.established
  split
  · exact h.congr rfl rfl rfl
  · exact h.congr rfl rfl rfl

theorem Deferred.step (h : Deferred s) (m : Step s s') : Deferred s' := by
  cases m with
  | start _ _ => exact h.congr rfl rfl rfl
  | drop _ _ hc => exact (h.removed hc).congr rfl rfl rfl
  | stopped _ _ => exact h.congr rfl rfl rfl
  | write _ _ => exact h.congr rfl rfl rfl
  | succeed _ _ hc => exact (h.removed hc).congr rfl rfl rfl
  | retry _ => exact h.runAfter.congr rfl rfl rfl
  | established _ => exact h.established _

theorem Deferred.connect (h : Deferred s) {e : Errno} (m : Opens s e s') : Deferred s' := by
  cases m with
  | connecting _ hc =>
      refine ⟨?_, h.destroyed⟩
      have := h.resets
      rw [stale, hc] at this
      exact this
  | retry _ => exact h.congr rfl rfl rfl
  | close _ => exact h.congr rfl rfl rfl

/-- A queued reset has been queued for the slot as it is. -/
theorem Deferred.stale_of_resets (h : Deferred s) (hr : s.resets ≠ 0) : s.stale = true := by
  by_contra hs
  exact hr (h.resets.trans (if_neg hs))

theorem Deferred.reset (h : Deferred s) {fs : List (Functor G)}
    (hf : s.functors.todo = .resetChannel :: fs) :
    Deferred { s with functors := s.functors.advance }.resetChannel := by
  have hr : s.resets = { s with functors := s.functors.advance }.resets + 1 := resets_advance hf
  have hstale : s.stale = true := h.stale_of_resets (by rw [hr]; exact Nat.succ_ne_zero _)
  refine ⟨?_, ?_⟩
  · have h₁ := h.resets
    rw [if_pos hstale, hr] at h₁
    exact Nat.add_right_cancel h₁
  · intro ch hch
    rcases List.mem_append.mp hch with hch | hch
    · exact h.destroyed ch hch
    · rw [stale, Option.mem_toList.mp hch] at hstale
      exact Bool.not_eq_true' _ |>.mp hstale

variable {a : Event Tid G}

/-- **One event** keeps one reset queued for a stale slot. -/
theorem Deferred.move (h : Deferred s) (m : Move s a s') : Deferred s' := by
  cases m with
  | step m => exact h.step m
  | connect _ m => exact h.connect m
  | reset _ hf => exact h.reset hf
  | restart _ => exact h.congr rfl rfl rfl
  | quiet f => exact h.congr f.resets f.channel f.destroyed

theorem not_registered_of_stale (h : s.stale = true) : s.isRegistered = false := by
  unfold stale at h
  unfold isRegistered
  cases hc : s.channel with
  | none => rfl
  | some ch =>
      rw [hc] at h
      exact Bool.not_eq_true' _ |>.mp h

/-! ## The slot and `state_` -/

/-- The side condition on events: no attempt gets as far as `connecting()`
while a reset is queued, and `restart()` is not called while one is under
way. -/
def FindsEmpty (s : Connector Tid G) : Event Tid G → Prop
  | .connect e => e.outcome = .connecting → s.resets = 0
  | .restart => s.state ≠ .kConnecting
  | _ => True

structure Agrees (s : Connector Tid G) : Prop where
  registered : s.isRegistered = true ↔ s.state = .kConnecting
  connect : s.pc = .connect → s.state = .kDisconnected

theorem agrees_new : Agrees (new : Connector Tid G) :=
  ⟨⟨fun h => (by cases h), fun h => (by cases h)⟩, fun h => by cases h⟩

/-- Where the state is not `kConnecting` and the slot not registered, and the
loop thread not about to connect unless disconnected. -/
theorem Agrees.of_not (hreg : s.isRegistered = false) (hstate : s.state ≠ .kConnecting)
    (hpc : s.pc = .connect → s.state = .kDisconnected) : Agrees s where
  registered := by
    rw [hreg]
    exact ⟨fun h => (by cases h), fun h => absurd h hstate⟩
  connect := hpc

theorem Agrees.not_registered (h : Agrees s) (hstate : s.state ≠ .kConnecting) :
    s.isRegistered = false := by
  by_contra hr
  exact hstate (h.registered.mp (Bool.not_eq_false _ |>.mp hr))

/-- Moving on to a point other than `connect()`. -/
theorem Agrees.leave (h : Agrees s) (hchannel : s'.channel = s.channel)
    (hstate : s'.state = s.state) (hpc : s'.pc ≠ .connect) : Agrees s' := by
  refine ⟨?_, fun he => absurd he hpc⟩
  rw [isRegistered, hchannel, hstate]
  exact h.registered

theorem Agrees.step (h : Agrees s) (m : Step s s') : Agrees s' := by
  cases m with
  | start _ hstate => exact ⟨h.registered, fun _ => hstate⟩
  | drop _ _ _ => exact .of_not rfl (by simp [retry, goTo, setState]) fun _ => rfl
  | stopped _ _ => exact h.leave rfl rfl (by simp [goTo])
  | write _ _ => exact h.leave rfl rfl (by simp [goTo])
  | succeed _ _ _ =>
      exact .of_not rfl (by simp [goTo, setState]) fun hpc => by simp [goTo] at hpc
  | @retry write _ =>
      have hstate : s.runAfter.state = s.state := by unfold runAfter; split <;> rfl
      refine h.leave channel_runAfter hstate ?_
      cases write <;> simp [goTo]
  | established _ =>
      unfold established
      split
      · exact h.leave rfl rfl (by simp [goTo])
      · exact h.leave rfl rfl (by simp [goTo, close])

theorem Agrees.opens (h : Agrees s) (hpc : s.pc = .connect) {e : Errno} (m : Opens s e s') :
    Agrees s' := by
  have hstate := h.connect hpc
  have hreg := h.not_registered (by rw [hstate]; simp)
  cases m with
  | connecting _ _ =>
      exact ⟨⟨fun _ => rfl, fun _ => rfl⟩, fun hpc => by simp [goTo, setState] at hpc⟩
  | retry _ => exact .of_not hreg (by simp [retry, goTo, setState]) fun _ => rfl
  | close _ => exact h.leave rfl rfl (by simp [goTo, close])

/-- **One event**, not a `restart()` in an attempt. -/
theorem Agrees.move (h : Agrees s) (hd : Deferred s)
    (hC : a = .restart → s.state ≠ .kConnecting) (m : Move s a s') : Agrees s' := by
  cases m with
  | step m => exact h.step m
  | connect hpc m => exact h.opens hpc m
  | reset hpc hf =>
      have hresets : s.resets ≠ 0 := by
        rw [resets_advance hf]
        exact Nat.succ_ne_zero _
      have hreg := not_registered_of_stale (hd.stale_of_resets hresets)
      refine .of_not rfl (fun hstate => ?_) fun hc => ?_
      · rw [h.registered.mpr hstate] at hreg
        cases hreg
      · rw [show s.pc = .connect from hc] at hpc
        cases hpc
  | restart _ =>
      exact .of_not (h.not_registered (hC rfl)) (by simp [restart, setState]) fun hpc => by
        simp [restart] at hpc
  | quiet f =>
      refine ⟨?_, fun hpc => ?_⟩
      · rw [isRegistered, f.channel, f.state]
        exact h.registered
      · rw [f.state]
        rcases f.pc with heq | ⟨-, hentry⟩
        · exact h.connect (heq.symm.trans hpc)
        · rw [hpc] at hentry
          cases hentry

/-- With no reset queued, a slot that is not registered is empty. -/
theorem Deferred.channel_none (h : Deferred s) (hresets : s.resets = 0)
    (hreg : s.isRegistered = false) : s.channel = none := by
  have hstale := h.resets
  cases hc : s.channel with
  | none => rfl
  | some ch =>
      rw [isRegistered, hc] at hreg
      rw [hresets, stale, hc, Option.any_some, show ch.registered = false from hreg] at hstale
      cases hstale

/-! ## Whole runs -/

variable [DecidableEq Tid]

theorem deferred_reachable (hs : system.Reachable s) : Deferred s := by
  have hinv : (system : Lts (Connector Tid G) _ _).Invariant Deferred := {
    init := by
      rintro s hs
      rw [show s = new from hs]
      exact deferred_new
    step := fun s a s' h he hn => h.move (move_of_next he hn) }
  exact hinv.reachable hs

theorem agrees_reachable {C : Connector Tid G → Event Tid G → Prop}
    (hC : ∀ s, C s .restart → s.state ≠ .kConnecting) (hs : (system.guarded C).Reachable s) :
    Agrees s := by
  have hinv : ((system : Lts (Connector Tid G) _ _).guarded C).Invariant
      fun s => Deferred s ∧ Agrees s := {
    init := by
      rintro s hs
      rw [show s = new from hs]
      exact ⟨deferred_new, agrees_new⟩
    step := fun s a s' h he hn => by
      have hm := move_of_next he.1 hn
      exact ⟨h.1.move hm, h.2.move h.1 (fun ha => hC s (ha ▸ he.2)) hm⟩ }
  exact (hinv.reachable hs).2

/-- What is asked of the slot in one state: it agrees with the poller and with
`state_`, nothing registered has been destroyed, and `connecting()` would
find it empty. -/
def SlotAgrees (C : Connector Tid G → Event Tid G → Prop) (s : Connector Tid G) : Prop :=
  (s.isRegistered = true ↔ s.state = .kConnecting) ∧
    (∀ ch ∈ s.destroyed, ch.registered = false) ∧
    ∀ a, s.enabled a = true → C s a → s.next a ≠ .error .channel

/-- **The slot and the poller agree** in every run under the side
condition. -/
theorem slot_agrees (hs : (system.guarded FindsEmpty).Reachable s) : s.SlotAgrees FindsEmpty := by
  have hd := deferred_reachable hs.of_guarded
  have ha := agrees_reachable (fun _ hC => hC) hs
  refine ⟨ha.registered, hd.destroyed, fun a he hC hn => ?_⟩
  cases fails_of_next hn with
  | channel ho hc =>
      have hpc : s.pc = .connect := of_decide_eq_true he
      have hreg := ha.not_registered (by rw [ha.connect hpc]; simp)
      exact hc (hd.channel_none (hC ho) hreg)
  | slot _ hf => rcases hf with hf | hf <;> cases hf

theorem slot_agrees_connecting : ∃ s : Connector Nat Unit,
    s.state = .kConnecting ∧ s.SlotAgrees FindsEmpty := by
  let L : Lts (Connector Nat Unit) (Event Nat Unit) Fault := system.guarded FindsEmpty
  have h₀ : L.Reachable new := .of_init rfl
  have h₁ := h₀.step (a := Event.start .loop) ⟨rfl, trivial⟩ rfl
  have h₂ := h₁.step (a := Event.step) ⟨rfl, trivial⟩ rfl
  have h₃ := h₂.step (a := Event.connect .EINPROGRESS) ⟨rfl, fun _ => rfl⟩ rfl
  exact ⟨_, rfl, slot_agrees h₃⟩

/-- In one handler, while connecting: `stop()` and then `start()`. The new
attempt reaches `connecting()` before the pass that runs the reset. -/
theorem slot_occupied :
    ¬∀ s : Connector Nat Unit, system.Reachable s → s.SlotAgrees fun _ _ => True := by
  intro h
  obtain ⟨s, hrun, he, hn⟩ := Lts.exists_fault_of_exec
    (L := (system : Lts (Connector Nat Unit) (Event Nat Unit) Fault)) new
    [.start .loop, .step, .connect .EINPROGRESS, .stop .loop, .step, .step, .start .loop, .step]
    (.connect .EINPROGRESS) .channel (by decide +kernel)
  exact (h s ⟨_, _, rfl, hrun⟩).2.2 _ he trivial hn

/-- The side condition asks for no more than is needed: an event against it
breaks the law at once. -/
theorem disagrees_of_not (hs : (system.guarded FindsEmpty).Reachable s) {a : Event Tid G}
    (he : s.enabled a = true) (hC : ¬s.FindsEmpty a) :
    s.next a = .error .channel ∨
      ∃ s', s.next a = .ok s' ∧ s'.isRegistered = true ∧ s'.state ≠ .kConnecting := by
  have hd := deferred_reachable hs.of_guarded
  have ha := agrees_reachable (fun _ hC => hC) hs
  cases a with
  | connect e =>
      obtain ⟨ho, hresets⟩ := Classical.not_imp.mp hC
      left
      have hchannel : s.channel ≠ none := by
        intro hc
        have hstale := hd.stale_of_resets hresets
        rw [stale, hc] at hstale
        cases hstale
      exact connect_error ho hchannel
  | restart =>
      right
      refine ⟨s.restart, rfl, ha.registered.mpr (Classical.not_not.mp hC), ?_⟩
      simp [restart, setState]
  | _ => exact absurd trivial hC

end Connector

end Muduo
