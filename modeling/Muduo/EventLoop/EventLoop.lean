import Muduo.Base
import Muduo.Lib.Lts

/-!
# `EventLoop`, step by step

One event loop and any number of threads that call it. An event is what one
thread does without another coming in between: the critical section of
`queueInLoop`, the write to the eventfd, one statement of `loop()`. User
code (handlers, functors, what a thread does on its own) appears as the
calls it makes: it may queue functors and quit, as long as its thread is
not in the middle of a call, and is over when the loop takes its next step.

`poller_->poll` may return any channels, the wakeup channel only if the
eventfd is readable. It may leave it out although it is (a poller hands out
a bounded number of events), so nothing is promised there.

Three fields are a record for the theorems and not in the code: `pushed`,
`executed` and `passes`, with the stamps in an `Entry`. A pass of
`doPendingFunctors` begins with its swap.
-/

namespace Muduo

open Lib

/-- A functor in `pendingFunctors_`, stamped with the thread that pushed it
and the number of passes begun by then. -/
structure Entry (Tid F : Type) where
  functor : F
  thread : Tid
  pass : Nat
deriving DecidableEq

/-- An execution of a functor: by which thread and in which pass. -/
structure Execution (Tid F : Type) where
  entry : Entry Tid F
  thread : Tid
  pass : Nat
deriving DecidableEq

inductive ActiveChannel where
  | wakeup
  | other (fd : Nat)
deriving DecidableEq

/-- Where a thread is in `loop()`: `looping_` set but `quit_` not yet reset
(`starting`); at the test of `while (!quit_)`; past it, at
`activeChannels_.clear()`; in `poll`; in the loop over `activeChannels_`,
with the channels to come; `callingPendingFunctors_` set but the vectors not
yet swapped; in the loop over the local vector, with the functors to come;
and with `callingPendingFunctors_` unset, the local vector being destroyed
(`leaving`). -/
inductive LoopPc (Tid F : Type) where
  | starting | test | clear | polling
  | dispatch (todo : List ActiveChannel) (inHandler : Bool)
  | swapping
  | running (todo : List (Entry Tid F)) (inFunctor : Bool)
  | leaving
deriving DecidableEq

namespace LoopPc

variable {Tid F : Type}

/-- May user code be running? The destructors of the functors are user code
too. -/
def inUser : LoopPc Tid F → Bool
  | dispatch _ inHandler => inHandler
  | running _ inFunctor => inFunctor
  | leaving => true
  | _ => false

/-- The functors of the local vector not executed yet. -/
def tail : LoopPc Tid F → List (Entry Tid F)
  | running todo _ => todo
  | _ => []

/-- In an event handler or a pending functor, or between two. -/
def inCallback : LoopPc Tid F → Bool
  | dispatch _ _ => true
  | running _ _ => true
  | _ => false

/-- In `doPendingFunctors`, with `callingPendingFunctors_` set. -/
def isCalling : LoopPc Tid F → Bool
  | swapping => true
  | running _ _ => true
  | _ => false

def isPolling : LoopPc Tid F → Bool
  | polling => true
  | _ => false

/-- The swap is still to come in this iteration. -/
def swapAhead : LoopPc Tid F → Bool
  | dispatch _ _ => true
  | swapping => true
  | _ => false

/-- About to block in `poll`, or blocked there. -/
def blocking : LoopPc Tid F → Bool
  | clear => true
  | polling => true
  | _ => false

/-- A loop about to block is past the swap and the functors. -/
theorem blocking_spec {pc : LoopPc Tid F} (h : pc.blocking = true) :
    pc.swapAhead = false ∧ pc.isCalling = false := by
  cases pc with
  | clear => exact ⟨rfl, rfl⟩
  | polling => exact ⟨rfl, rfl⟩
  | _ => cases h

end LoopPc

/-- A call a thread is in the middle of: `queueInLoop` after its critical
section, `quit` after its assignment. -/
inductive Call where
  | none | pushed | quitting
deriving DecidableEq

structure EventLoop (Tid F : Type) where
  threadId : Tid
  looping : Bool
  quit : Bool
  eventHandling : Bool
  callingPendingFunctors : Bool
  /-- The counter of `wakeupFd_`. -/
  counter : Nat
  pendingFunctors : List (Entry Tid F)
  /-- The thread inside `loop()` and where it is there. -/
  frame : Option (Tid × LoopPc Tid F)
  calls : Tid → Call
  pushed : List (Entry Tid F)
  executed : List (Execution Tid F)
  passes : Nat

/-- `assert(!looping_)` and `assertInLoopThread()`, on entry to `loop()`. -/
inductive LoopFault where
  | looping | notInLoopThread
deriving DecidableEq

/-- What a thread does: begin one of the three calls, `finish` the one it is
in, enter `loop()`, make one `step` of it, or return from `poll`. -/
inductive LoopEvent (Tid F : Type) where
  | queueInLoop (t : Tid) (f : F)
  | runInLoop (t : Tid) (f : F)
  | quit (t : Tid)
  | finish (t : Tid)
  | loop (t : Tid)
  | step (t : Tid)
  | poll (t : Tid) (active : List ActiveChannel)

namespace EventLoop

variable {Tid F : Type}

/-- `EventLoop::EventLoop()`, run by `t`. -/
def new (t : Tid) : EventLoop Tid F where
  threadId := t
  looping := false
  quit := false
  eventHandling := false
  callingPendingFunctors := false
  counter := 0
  pendingFunctors := []
  frame := none
  calls _ := .none
  pushed := []
  executed := []
  passes := 0

def goTo (s : EventLoop Tid F) (t : Tid) (pc : LoopPc Tid F) : EventLoop Tid F :=
  { s with frame := some (t, pc) }

/-- The largest value of an eventfd counter; a write that would exceed it
fails with `EAGAIN`. -/
def counterMax : Nat := 2 ^ 64 - 2

def wakeup (s : EventLoop Tid F) : EventLoop Tid F :=
  { s with counter := min (s.counter + 1) counterMax }

def handleRead (s : EventLoop Tid F) : EventLoop Tid F := { s with counter := 0 }

/-- `{ MutexLockGuard lock(mutex_); pendingFunctors_.push_back(cb); }` -/
def pushBack (s : EventLoop Tid F) (t : Tid) (f : F) : EventLoop Tid F :=
  let e : Entry Tid F := ⟨f, t, s.passes⟩
  { s with pendingFunctors := s.pendingFunctors ++ [e], pushed := s.pushed ++ [e] }

/-- `functors.swap(pendingFunctors_)` -/
def swap (s : EventLoop Tid F) (t : Tid) : EventLoop Tid F :=
  { s with
    pendingFunctors := []
    frame := some (t, .running s.pendingFunctors false)
    passes := s.passes + 1 }

/-- What the thread in `loop()` does next. -/
def advance (s : EventLoop Tid F) (t : Tid) : LoopPc Tid F → EventLoop Tid F
  | .starting => { s with quit := false }.goTo t .test
  | .test =>
      if s.quit then { s with looping := false, frame := none } else s.goTo t .clear
  | .clear => s.goTo t .polling
  | .polling => s
  | .dispatch (.wakeup :: todo) _ => s.handleRead.goTo t (.dispatch todo false)
  | .dispatch (.other _ :: todo) _ => s.goTo t (.dispatch todo true)
  | .dispatch [] _ =>
      { s with eventHandling := false, callingPendingFunctors := true }.goTo t .swapping
  | .swapping => s.swap t
  | .running (e :: todo) _ =>
      { s with executed := s.executed ++ [Execution.mk e t s.passes] }.goTo t (.running todo true)
  | .running [] _ => { s with callingPendingFunctors := false }.goTo t .leaving
  | .leaving => s.goTo t .test

/-! ## Flags and frame -/

variable {s s' : EventLoop Tid F} {t : Tid}

/-- The flags say where the loop is, and only its own thread is ever in
`loop()`. -/
structure Framed (s : EventLoop Tid F) : Prop where
  owner : ∀ t pc, s.frame = some (t, pc) → t = s.threadId
  looping : s.looping = s.frame.isSome
  calling : s.callingPendingFunctors = s.frame.elim false fun x => x.2.isCalling

theorem framed_new (t : Tid) : Framed (new t : EventLoop Tid F) := ⟨nofun, rfl, rfl⟩

theorem Framed.congr (h : Framed s) (hthread : s'.threadId = s.threadId)
    (hframe : s'.frame = s.frame) (hlooping : s'.looping = s.looping)
    (hcalling : s'.callingPendingFunctors = s.callingPendingFunctors) : Framed s' := by
  obtain ⟨h₁, h₂, h₃⟩ := h
  rw [← hframe, ← hthread] at h₁
  rw [← hframe, ← hlooping] at h₂
  rw [← hframe, ← hcalling] at h₃
  exact ⟨h₁, h₂, h₃⟩

/-- The loop's thread moves inside `loop()`. -/
theorem Framed.goTo {pc : LoopPc Tid F} (ht : t = s.threadId) (hl : s.looping = true)
    (hc : s.callingPendingFunctors = pc.isCalling) : Framed (s.goTo t pc) where
  owner t' pc' hf := by
    cases hf
    exact ht
  looping := hl
  calling := hc

theorem Framed.looping_of_frame (h : Framed s) {x : Tid × LoopPc Tid F} (hf : s.frame = some x) :
    s.looping = true := by
  rw [h.looping, hf]
  rfl

theorem Framed.outside (h : Framed s) (hl : s.looping = false) : s.frame = none := by
  rw [h.looping] at hl
  exact Option.isSome_eq_false_iff.mp hl |> Option.isNone_iff_eq_none.mp

theorem Framed.calling_frame (h : Framed s) {pc : LoopPc Tid F} (hf : s.frame = some (t, pc)) :
    s.callingPendingFunctors = pc.isCalling := by
  rw [h.calling, hf]
  rfl

theorem Framed.advance (h : Framed s) {pc : LoopPc Tid F} (hf : s.frame = some (t, pc)) :
    Framed (s.advance t pc) := by
  have ht := h.owner _ _ hf
  have hl := h.looping_of_frame hf
  have hc := h.calling_frame hf
  cases pc with
  | starting => exact Framed.goTo (s := { s with quit := false }) ht hl hc
  | test =>
      simp only [EventLoop.advance]
      split
      · exact ⟨nofun, rfl, hc⟩
      · exact Framed.goTo ht hl hc
  | clear => exact Framed.goTo ht hl hc
  | polling => exact h
  | dispatch todo b =>
      cases todo with
      | nil =>
          exact Framed.goTo (s := { s with eventHandling := false, callingPendingFunctors := true })
            ht hl rfl
      | cons c todo =>
          cases c with
          | wakeup => exact Framed.goTo (s := s.handleRead) ht hl hc
          | other fd => exact Framed.goTo ht hl hc
  | swapping =>
      exact Framed.goTo (s := { s with pendingFunctors := [], passes := s.passes + 1 }) ht hl hc
  | running todo b =>
      cases todo with
      | nil => exact Framed.goTo (s := { s with callingPendingFunctors := false }) ht hl rfl
      | cons e todo =>
          exact Framed.goTo
            (s := { s with executed := s.executed ++ [Execution.mk e t s.passes] }) ht hl hc
  | leaving => exact Framed.goTo ht hl hc

theorem threadId_advance (pc : LoopPc Tid F) : (s.advance t pc).threadId = s.threadId := by
  cases pc with
  | test => simp only [advance]; split <;> rfl
  | dispatch todo b =>
      cases todo with
      | nil => rfl
      | cons c todo => cases c <;> rfl
  | running todo b => cases todo <;> rfl
  | _ => rfl

/-! ## Calls -/

variable [DecidableEq Tid]

def isInLoopThread (s : EventLoop Tid F) (t : Tid) : Bool := s.threadId = t

def setCall (s : EventLoop Tid F) (t : Tid) (c : Call) : EventLoop Tid F :=
  { s with calls := fun t' => if t' = t then c else s.calls t' }

/-- The rest of a call: `wakeup()` or not. -/
def finish (s : EventLoop Tid F) (t : Tid) : EventLoop Tid F :=
  match s.calls t with
  | .none => s
  | .pushed =>
      if !s.isInLoopThread t || s.callingPendingFunctors then s.wakeup.setCall t .none
      else s.setCall t .none
  | .quitting =>
      if !s.isInLoopThread t then s.wakeup.setCall t .none else s.setCall t .none

/-- Where `t` is in `loop()`, if it is there. -/
def pcOf (s : EventLoop Tid F) (t : Tid) : Option (LoopPc Tid F) :=
  match s.frame with
  | none => none
  | some (t', pc) => if t' = t then some pc else none

/-- May user code of `t` make a call? -/
def free (s : EventLoop Tid F) (t : Tid) : Bool :=
  s.calls t = .none && match s.pcOf t with
    | none => true
    | some pc => pc.inUser

def enabled (s : EventLoop Tid F) : LoopEvent Tid F → Bool
  | .queueInLoop t _ => s.free t
  | .runInLoop t _ => s.free t
  | .quit t => s.free t
  | .loop t => s.free t
  | .finish t => s.calls t ≠ .none
  | .step t => s.calls t = .none && match s.pcOf t with
      | none => false
      | some pc => !pc.isPolling
  | .poll t active => s.calls t = .none && match s.pcOf t with
      | none => false
      | some pc => pc.isPolling && (0 < s.counter || .wakeup ∉ active)

def next (s : EventLoop Tid F) : LoopEvent Tid F → Except LoopFault (EventLoop Tid F)
  | .queueInLoop t f => .ok ((s.pushBack t f).setCall t .pushed)
  | .runInLoop t f =>
      -- in the loop thread `cb` runs at once: more user code
      if s.isInLoopThread t then .ok s else .ok ((s.pushBack t f).setCall t .pushed)
  | .quit t => .ok ({ s with quit := true }.setCall t .quitting)
  | .finish t => .ok (s.finish t)
  | .loop t => do
      check (s.looping = false) .looping
      check (s.threadId = t) .notInLoopThread
      return { s with looping := true }.goTo t .starting
  | .step t =>
      match s.pcOf t with
      | none => .ok s
      | some pc => .ok (s.advance t pc)
  | .poll t active => .ok ({ s with eventHandling := true }.goTo t (.dispatch active false))

/-- An event loop just constructed by `owner`, and everything any threads may
do to it. -/
def system (owner : Tid) : Lts (EventLoop Tid F) (LoopEvent Tid F) LoopFault where
  init s := s = new owner
  enabled s a := s.enabled a = true
  next := next

instance (owner : Tid) (s : EventLoop Tid F) (a : LoopEvent Tid F) :
    Decidable ((system owner).enabled s a) := inferInstanceAs (Decidable (_ = true))

/-! ## All an event can do -/

variable {a : LoopEvent Tid F}

theorem pcOf_eq_some {pc : LoopPc Tid F} : s.pcOf t = some pc ↔ s.frame = some (t, pc) := by
  unfold pcOf
  cases h : s.frame with
  | none => simp
  | some x =>
      obtain ⟨t', pc'⟩ := x
      by_cases ht : t' = t
      · simp [ht]
      · simp [ht]

/-- The transitions, with what each needs. -/
inductive Move (s : EventLoop Tid F) : LoopEvent Tid F → EventLoop Tid F → Prop
  | push {a : LoopEvent Tid F} {t : Tid} {f : F} (free : s.free t = true)
      (event : a = .queueInLoop t f ∨ (a = .runInLoop t f ∧ t ≠ s.threadId)) :
      Move s a ((s.pushBack t f).setCall t .pushed)
  | inline {f : F} : Move s (.runInLoop s.threadId f) s
  | quit {t : Tid} (free : s.free t = true) :
      Move s (.quit t) ({ s with quit := true }.setCall t .quitting)
  | finish {t : Tid} (call : s.calls t ≠ .none) : Move s (.finish t) (s.finish t)
  | loop (free : s.free s.threadId = true) (looping : s.looping = false) :
      Move s (.loop s.threadId) ({ s with looping := true }.goTo s.threadId .starting)
  | advance {t : Tid} {pc : LoopPc Tid F} (frame : s.frame = some (t, pc))
      (idle : s.calls t = .none) (running : pc.isPolling = false) :
      Move s (.step t) (s.advance t pc)
  | poll {t : Tid} {active : List ActiveChannel} (frame : s.frame = some (t, .polling))
      (idle : s.calls t = .none) (ready : 0 < s.counter ∨ .wakeup ∉ active) :
      Move s (.poll t active) ({ s with eventHandling := true }.goTo t (.dispatch active false))

/-- Every event that is enabled and does not fault is one of these. -/
theorem move_of_next (he : s.enabled a = true) (hn : s.next a = .ok s') : Move s a s' := by
  cases a with
  | queueInLoop t f =>
      cases hn
      exact .push he (.inl rfl)
  | runInLoop t f =>
      simp only [next, isInLoopThread, decide_eq_true_eq] at hn
      split at hn
      · rename_i ht
        cases hn
        subst ht
        exact .inline
      · rename_i ht
        cases hn
        exact .push he (.inr ⟨rfl, fun h => ht h.symm⟩)
  | quit t =>
      cases hn
      exact .quit he
  | finish t =>
      cases hn
      exact .finish (of_decide_eq_true he)
  | loop t =>
      simp only [next] at hn
      obtain ⟨_, hl, hn⟩ := bind_eq_ok hn
      obtain ⟨_, ht, hn⟩ := bind_eq_ok hn
      obtain rfl := of_check ht
      cases hn
      exact .loop he (of_check hl)
  | step t =>
      simp only [enabled, Bool.and_eq_true, decide_eq_true_eq] at he
      obtain ⟨hidle, hpc⟩ := he
      cases h : s.pcOf t with
      | none => rw [h] at hpc; cases hpc
      | some pc =>
          rw [h] at hpc
          simp only [next, h] at hn
          cases hn
          exact .advance (pcOf_eq_some.mp h) hidle (Bool.not_eq_true' _ |>.mp hpc)
  | poll t active =>
      simp only [enabled, Bool.and_eq_true, decide_eq_true_eq] at he
      obtain ⟨hidle, hpc⟩ := he
      cases hn
      cases h : s.pcOf t with
      | none => rw [h] at hpc; cases hpc
      | some pc =>
          rw [h] at hpc
          simp only [Bool.and_eq_true, Bool.or_eq_true, decide_eq_true_eq] at hpc
          cases pc with
          | polling => exact .poll (pcOf_eq_some.mp h) hidle hpc.2
          | _ => cases hpc.1

/-- A step of the loop, as an event. -/
theorem run_step (owner : Tid) {pc : LoopPc Tid F} (hf : s.frame = some (t, pc))
    (hidle : s.calls t = .none) (hpc : pc.isPolling = false) :
    (system owner).Run s [.step t] (s.advance t pc) := by
  have hat := pcOf_eq_some.mpr hf
  refine (Lts.Run.nil s).snoc ?_ ?_
  · simp [system, enabled, hidle, hat, hpc]
  · simp [system, next, hat]

theorem free_idle (h : s.free t = true) : s.calls t = .none := by
  simp only [free, Bool.and_eq_true, decide_eq_true_eq] at h
  exact h.1

/-- A thread inside `loop()` calls from user code only. -/
theorem free_inUser {pc : LoopPc Tid F} (h : s.free t = true) (hf : s.frame = some (t, pc)) :
    pc.inUser = true := by
  simp only [free, Bool.and_eq_true, pcOf_eq_some.mpr hf] at h
  exact h.2

/-- The rest of a call touches the counter and the call. -/
theorem finish_eq (t : Tid) : ∃ n, s.finish t = { s with counter := n }.setCall t .none := by
  unfold finish
  cases h : s.calls t with
  | none =>
      have hcalls : (fun t' => if t' = t then Call.none else s.calls t') = s.calls := by
        funext t'
        by_cases ht : t' = t
        · rw [if_pos ht, ht, h]
        · rw [if_neg ht]
      exact ⟨s.counter, by simp only [setCall, hcalls]⟩
  | pushed => dsimp only; split <;> exact ⟨_, rfl⟩
  | quitting => dsimp only; split <;> exact ⟨_, rfl⟩

theorem threadId_finish (t : Tid) : (s.finish t).threadId = s.threadId := by
  obtain ⟨n, h⟩ := s.finish_eq t
  rw [h]
  rfl

theorem Move.threadId_eq (m : Move s a s') : s'.threadId = s.threadId := by
  cases m with
  | advance _ _ _ => exact threadId_advance _
  | finish _ => exact threadId_finish _
  | _ => rfl

theorem Framed.finish (h : Framed s) (t : Tid) : Framed (s.finish t) := by
  obtain ⟨n, hn⟩ := s.finish_eq t
  rw [hn]
  exact h.congr rfl rfl rfl rfl

theorem Framed.move (h : Framed s) (m : Move s a s') : Framed s' := by
  cases m with
  | push _ _ => exact h.congr rfl rfl rfl rfl
  | inline => exact h
  | quit _ => exact h.congr rfl rfl rfl rfl
  | finish _ => exact h.finish _
  | loop _ hl =>
      have hc := h.calling
      rw [h.outside hl] at hc
      exact Framed.goTo (s := { s with looping := true }) rfl rfl hc
  | advance hf _ _ => exact h.advance hf
  | poll hf _ _ =>
      have hc := h.calling_frame hf
      exact Framed.goTo (s := { s with eventHandling := true }) (h.owner _ _ hf)
        (h.looping_of_frame hf) hc

end EventLoop

end Muduo
