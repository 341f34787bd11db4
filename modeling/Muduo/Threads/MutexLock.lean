import Muduo.Base
import Muduo.Lib.Lts
import Muduo.Lib.Threads

/-!
# `MutexLock` and its owner field

Any threads that use a `MutexLock` through `MutexLockGuard` and
`Condition::wait`, interleaved statement by statement. `lock()` and `unlock()`
keep `holder_`; `wait()` is `pthread_cond_wait` on the mutex underneath, which
lets it go and takes it again without them. Signals change nothing here: a
wait may return whenever the mutex is free, on whichever condition variable.

So what a thread finds in `holder_` after a wait is what was there when the
wait began only if nobody called `lock()` in between. As long as every wait
returns so, `holder_` is right (`holder_right`); the first that does not
leaves the owner unknown at once (`resume_disturbed`).
-/

namespace Muduo

open Lib Lib.Threads

/-- `CurrentThread::tid()` of each thread. -/
structure ThreadIds (Tid : Type) where
  tid : Tid → Int
  tid_ne : ∀ t, tid t ≠ 0
  tid_inj : ∀ {t u}, tid t = tid u → t = u

/-- Where a thread is: not under a guard, or waiting for the mutex in
`lock()`; there with the mutex, before `holder_` is set; under the guard; in
`unlock()`, `holder_` unset; in `pthread_cond_wait`, without the mutex. -/
inductive MutexPlace where
  | outside | locking | inside | unlocking | waiting
deriving DecidableEq

/-- Does a thread there own the mutex? -/
def MutexPlace.owns : MutexPlace → Bool
  | .locking | .inside | .unlocking => true
  | .outside | .waiting => false

/-- `assert(isLockedByThisThread())` -/
inductive MutexFault where
  | notLocked
deriving DecidableEq

structure MutexLock (Tid : Type) where
  /-- The owner of `mutex_`. -/
  mutex : Option Tid
  /-- `holder_` -/
  holder : Int
  pc : Tid → MutexPlace
  /-- The thread whose `lock()` was the last to get the mutex. -/
  lastLock : Option Tid

/-- `pthread_mutex_lock` returns, and `holder_` is set; `assertLocked()`;
`pthread_cond_wait` begins, and returns; `holder_` is unset, and
`pthread_mutex_unlock`. -/
inductive MutexEvent (Tid : Type) where
  | lock (t : Tid) | setHolder (t : Tid)
  | assertLocked (t : Tid)
  | wait (t : Tid) | resume (t : Tid)
  | clearHolder (t : Tid) | unlock (t : Tid)

namespace MutexLock

variable {Tid : Type} [DecidableEq Tid] (T : ThreadIds Tid)

def new : MutexLock Tid := ⟨none, 0, fun _ => .outside, none⟩

/-- Called by `t`. -/
def isLockedByThisThread (s : MutexLock Tid) (t : Tid) : Bool := s.holder == T.tid t

def assertLocked (s : MutexLock Tid) (t : Tid) : Except MutexFault (MutexLock Tid) := do
  check (s.isLockedByThisThread T t = true) .notLocked
  return s

def go (s : MutexLock Tid) (t : Tid) (p : MutexPlace) : MutexLock Tid :=
  { s with pc := Function.update s.pc t p }

@[simp] theorem pc_go (s : MutexLock Tid) (t : Tid) (p : MutexPlace) :
    (s.go t p).pc = Function.update s.pc t p := rfl

def enabled (s : MutexLock Tid) : MutexEvent Tid → Prop
  | .lock t => s.pc t = .outside ∧ s.mutex = none
  | .setHolder t => s.pc t = .locking
  | .assertLocked t | .wait t | .clearHolder t => s.pc t = .inside
  | .resume t => s.pc t = .waiting ∧ s.mutex = none
  | .unlock t => s.pc t = .unlocking

instance (s : MutexLock Tid) (a : MutexEvent Tid) : Decidable (s.enabled a) := by
  cases a <;> unfold enabled <;> infer_instance

def next (s : MutexLock Tid) : MutexEvent Tid → Except MutexFault (MutexLock Tid)
  | .lock t => .ok ({ s with mutex := some t, lastLock := some t }.go t .locking)
  | .setHolder t => .ok ({ s with holder := T.tid t }.go t .inside)
  | .assertLocked t => s.assertLocked T t
  | .wait t => .ok ({ s with mutex := none }.go t .waiting)
  | .resume t => .ok ({ s with mutex := some t }.go t .inside)
  | .clearHolder t => .ok ({ s with holder := 0 }.go t .unlocking)
  | .unlock t => .ok ({ s with mutex := none }.go t .outside)

def mutexLock : Lts (MutexLock Tid) (MutexEvent Tid) MutexFault where
  init s := s = .new
  enabled := enabled
  next := next T

instance (s : MutexLock Tid) (a : MutexEvent Tid) : Decidable ((mutexLock T).enabled s a) :=
  inferInstanceAs (Decidable (s.enabled a))

/-! ## The owner -/

/-- The owner of the mutex, outside `lock()` and `unlock()`, is the thread
`holder_` names, and the one that is told that the mutex is its own. -/
structure OwnerKnown (s : MutexLock Tid) : Prop where
  holder : ∀ t, s.mutex = some t → s.pc t = .inside → s.holder = T.tid t
  owner : ∀ t, s.mutex = some t → s.pc t = .inside →
    ∀ u, s.isLockedByThisThread T u = true ↔ u = t
  asserted : ∀ t, s.pc t = .inside → s.assertLocked T t = .ok s

/-- A wait returns only if the last `lock()` on the mutex was the waiter's
own. -/
def Undisturbed (s : MutexLock Tid) : MutexEvent Tid → Prop
  | .resume t => s.lastLock = some t
  | _ => True

instance (s : MutexLock Tid) (a : MutexEvent Tid) : Decidable (s.Undisturbed a) := by
  cases a <;> unfold Undisturbed <;> infer_instance

instance (s : MutexLock Tid) (a : MutexEvent Tid) :
    Decidable (((mutexLock T).guarded Undisturbed).enabled s a) :=
  inferInstanceAs (Decidable (s.enabled a ∧ s.Undisturbed a))

/-- What is known of the mutex where `t` is. -/
def Known (s : MutexLock Tid) (t : Tid) : MutexPlace → Prop
  | .outside => True
  | .locking => s.lastLock = some t
  | .inside => s.lastLock = some t ∧ s.holder = T.tid t
  | .unlocking => s.lastLock = some t ∧ s.holder = 0
  | .waiting => s.lastLock = some t → s.holder = T.tid t

structure HolderInv (s : MutexLock Tid) : Prop where
  exclusive : Exclusive MutexPlace.owns s.mutex s.pc
  known : ∀ t, Known T s t (s.pc t)
  /-- But in `lock()`, `holder_` is unset or names the last to lock. -/
  named : (∀ t, s.pc t ≠ .locking) →
    s.holder = 0 ∨ ∃ u, s.lastLock = some u ∧ s.holder = T.tid u

variable {T} {s s' : MutexLock Tid} {t : Tid}

omit [DecidableEq Tid] in
theorem holderInv_new : HolderInv T (new : MutexLock Tid) where
  exclusive _ := ⟨nofun, nofun⟩
  known _ := trivial
  named _ := Or.inl rfl

/-- The thread that moves has made the last `lock()`, and nobody else is at a
place where more is known. -/
theorem HolderInv.go {p : MutexPlace} (hex : Exclusive MutexPlace.owns s.mutex (s.go t p).pc)
    (hout : ∀ u, u ≠ t → (s.pc u).owns = false) (hlast : s.lastLock = some t)
    (hp : Known T s t p) (hnamed : p ≠ .locking → s.holder = 0 ∨ s.holder = T.tid t) :
    HolderInv T (s.go t p) where
  exclusive := hex
  known u := by
    by_cases hu : u = t
    · rw [pc_go, hu, Function.update_self]
      cases p <;> exact hp
    · have hu' := hout u hu
      rw [pc_go, Function.update_of_ne hu]
      cases hplace : s.pc u with
      | outside => trivial
      | waiting => exact fun h => absurd (Option.some.inj (hlast.symm.trans h)).symm hu
      | locking => rw [hplace] at hu'; cases hu'
      | inside => rw [hplace] at hu'; cases hu'
      | unlocking => rw [hplace] at hu'; cases hu'
  named hnone := by
    have hp := hnone t
    rw [pc_go, Function.update_self] at hp
    exact (hnamed hp).imp id fun h => ⟨t, hlast, h⟩

omit [DecidableEq Tid] in
theorem HolderInv.known_at (h : HolderInv T s) {p : MutexPlace} (hpc : s.pc t = p) :
    Known T s t p := hpc ▸ h.known t

omit [DecidableEq Tid] in
/-- While a thread owns the mutex no other does. -/
theorem HolderInv.others (h : HolderInv T s) (ht : (s.pc t).owns = true) (u : Tid) (hu : u ≠ t) :
    (s.pc u).owns = false :=
  Bool.eq_false_iff.mpr fun hown => hu (h.exclusive.unique hown ht)

/-- **One step.** -/
theorem HolderInv.step (h : HolderInv T s) {a : MutexEvent Tid} (he : s.enabled a)
    (hc : Undisturbed s a) (hn : s.next T a = .ok s') : HolderInv T s' := by
  cases a with
  | lock t =>
      cases hn
      obtain ⟨-, hfree⟩ := he
      have hex := h.exclusive
      rw [hfree] at hex
      exact HolderInv.go (hex.acquire rfl) (fun u _ => hex.outside u) rfl rfl
        fun hne => absurd rfl hne
  | setHolder t =>
      cases hn
      have hpc : s.pc t = .locking := he
      have hown : (s.pc t).owns = true := by rw [hpc]; rfl
      have hlast : s.lastLock = some t := h.known_at hpc
      exact HolderInv.go (h.exclusive.stay (by rw [hpc]; rfl)) (h.others hown) hlast
        ⟨hlast, rfl⟩ fun _ => Or.inr rfl
  | assertLocked t =>
      obtain ⟨-, -, hn⟩ := bind_eq_ok hn
      cases hn
      exact h
  | wait t =>
      cases hn
      have hpc : s.pc t = .inside := he
      have hown : (s.pc t).owns = true := by rw [hpc]; rfl
      have hknown : s.lastLock = some t ∧ s.holder = T.tid t := h.known_at hpc
      exact HolderInv.go (h.exclusive.release hown rfl) (h.others hown) hknown.1
        (fun _ => hknown.2) fun _ => Or.inr hknown.2
  | resume t =>
      cases hn
      obtain ⟨hpc, hfree⟩ := he
      have hlast : s.lastLock = some t := hc
      have hknown : s.lastLock = some t → s.holder = T.tid t := h.known_at hpc
      have hex := h.exclusive
      rw [hfree] at hex
      exact HolderInv.go (hex.acquire rfl) (fun u _ => hex.outside u) hlast
        ⟨hlast, hknown hlast⟩ fun _ => Or.inr (hknown hlast)
  | clearHolder t =>
      cases hn
      have hpc : s.pc t = .inside := he
      have hown : (s.pc t).owns = true := by rw [hpc]; rfl
      have hknown : s.lastLock = some t ∧ s.holder = T.tid t := h.known_at hpc
      exact HolderInv.go (h.exclusive.stay (by rw [hpc]; rfl)) (h.others hown) hknown.1
        ⟨hknown.1, rfl⟩ fun _ => Or.inl rfl
  | unlock t =>
      cases hn
      have hpc : s.pc t = .unlocking := he
      have hown : (s.pc t).owns = true := by rw [hpc]; rfl
      have hknown : s.lastLock = some t ∧ s.holder = 0 := h.known_at hpc
      exact HolderInv.go (h.exclusive.release hown rfl) (h.others hown) hknown.1 trivial
        fun _ => Or.inl hknown.2

theorem holderInv_invariant (T : ThreadIds Tid) :
    ((mutexLock T).guarded Undisturbed).Invariant (HolderInv T) where
  init s hs := by
    obtain rfl : s = .new := hs
    exact holderInv_new
  step _ _ _ h he hn := h.step he.1 he.2 hn

omit [DecidableEq Tid] in
theorem isLockedByThisThread_iff (h : s.holder = T.tid t) (u : Tid) :
    s.isLockedByThisThread T u = true ↔ u = t := by
  rw [isLockedByThisThread, beq_iff_eq, h]
  exact ⟨fun heq => (T.tid_inj heq).symm, fun heq => by rw [heq]⟩

omit [DecidableEq Tid] in
theorem HolderInv.ownerKnown (h : HolderInv T s) : OwnerKnown T s := by
  have hinside : ∀ t, s.pc t = .inside → s.holder = T.tid t := by
    intro t hpc
    have hknown : s.lastLock = some t ∧ s.holder = T.tid t := h.known_at hpc
    exact hknown.2
  refine ⟨fun t _ => hinside t, fun t _ hpc => isLockedByThisThread_iff (hinside t hpc), ?_⟩
  intro t hpc
  unfold assertLocked
  rw [check_of ((isLockedByThisThread_iff (hinside t hpc) t).mpr rfl)]
  rfl

/-- A wait that returns after another thread's `lock()` leaves an owner that
`holder_` does not name. -/
theorem HolderInv.resume_disturbed (h : HolderInv T s) (he : s.enabled (.resume t))
    (hlast : s.lastLock ≠ some t) (hn : s.next T (.resume t) = .ok s') : ¬OwnerKnown T s' := by
  cases hn
  obtain ⟨hpc, hfree⟩ := he
  have hex := h.exclusive
  rw [hfree] at hex
  have hnone : ∀ u, s.pc u ≠ .locking := by
    intro u hu
    have hout := hex.outside u
    rw [hu] at hout
    cases hout
  intro hknown
  have hholder : s.holder = T.tid t :=
    hknown.holder t rfl (by rw [pc_go, Function.update_self])
  rcases h.named hnone with hzero | ⟨u, hu, hname⟩
  · exact T.tid_ne t (hholder.symm.trans hzero)
  · obtain rfl := T.tid_inj (hholder.symm.trans hname)
    exact hlast hu

/-- **The owner field is right as long as every wait returns to a mutex that
nobody has locked since it began.** Then in every state reached the owner of
the mutex is the thread `holder_` names, and `assertLocked` holds under every
guard; and a wait that returns otherwise ends that at once. -/
theorem holder_right (T : ThreadIds Tid)
    (hs : ((mutexLock T).guarded Undisturbed).Reachable s) :
    OwnerKnown T s ∧ ∀ t s', s.enabled (.resume t) → s.lastLock ≠ some t →
      s.next T (.resume t) = .ok s' → ¬OwnerKnown T s' := by
  have h := (holderInv_invariant T).reachable hs
  exact ⟨h.ownerKnown, fun _ _ he hlast hn => h.resume_disturbed he hlast hn⟩

/-- Two threads. -/
def two : ThreadIds Bool where
  tid t := if t then 1 else 2
  tid_ne t := by cases t <;> decide
  tid_inj {t u} := by cases t <;> cases u <;> decide

/-- A wait on which nobody comes in, and another thread's guard after it. -/
theorem holder_right_alone : ∃ s, ((mutexLock two).guarded Undisturbed).Reachable s ∧
    s.pc false = .inside ∧ OwnerKnown two s := by
  obtain ⟨s, hs, hpc⟩ := Lts.exists_reachable_of_exec (L := (mutexLock two).guarded Undisturbed)
    [.lock true, .setHolder true, .wait true, .resume true, .assertLocked true,
      .clearHolder true, .unlock true, .lock false, .setHolder false]
    (fun s => s.pc false = .inside) rfl (by decide)
  exact ⟨s, hs, of_decide_eq_true hpc, (holder_right two hs).1⟩

/-- One thread waits, the other locks and unlocks, and the first comes back
to a mutex it owns and `holder_` says is free. -/
theorem holder_wrong :
    ¬∀ (Tid : Type) [DecidableEq Tid] (T : ThreadIds Tid) (s : MutexLock Tid),
      (mutexLock T).Reachable s → OwnerKnown T s := by
  intro h
  obtain ⟨s, hs, he, hn⟩ := Lts.exists_fault_of_exec (L := mutexLock two) .new
    [.lock true, .setHolder true, .wait true, .lock false, .setHolder false,
      .clearHolder false, .unlock false, .resume true] (.assertLocked true) .notLocked
    (by decide)
  have hok := (h Bool two s ⟨_, _, rfl, hs⟩).asserted true he
  have hn' : s.assertLocked two true = .error .notLocked := hn
  rw [hok] at hn'
  cases hn'

end MutexLock

end Muduo
