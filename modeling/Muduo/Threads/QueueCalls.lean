import Muduo.Threads.BlockingQueue
import Muduo.Threads.CountDownLatch

/-!
# The calls at a queue and at a latch

What a program that uses a `BlockingQueue` and a `CountDownLatch` needs to know
of them: which call each thread is in (`BlockingQueue.Call`, `LatchCall`), what
an event does to the calls of all threads (`Deed`), and that the statements
before the threads are used up.
-/

namespace Muduo

open Lib Lib.Threads

/-! ## The queue -/

namespace BlockingQueue

/-- What a thread is about: nothing; a `put` that has yet to push its item; one
that has pushed it; a `take`; a `size`. -/
inductive Call (T : Type) where
  | none
  | pushing (x : T)
  | pushed
  | taking
  | sizing

variable {Tid T : Type}

/-- The item of a `put` that is not in the queue yet. -/
def Call.pending : Call T → List T
  | .pushing x => [x]
  | _ => []

def call : Place T → Call T
  | .idle => .none
  | .putLock x | .putPush x => .pushing x
  | .putNotify _ | .putUnlock _ => .pushed
  | .takeLock | .takeTest | .takeSleep | .takeWait | .takeWoken | .takePop | .takeUnlock _ => .taking
  | .sizeLock | .sizeRead | .sizeUnlock _ => .sizing

def calls (s : BlockingQueue Tid T) : Tid → Call T := fun t => call (s.pc t)

theorem call_eq_none {p : Place T} : call p = .none ↔ p = .idle := by
  cases p <;> first | exact ⟨fun _ => rfl, fun _ => rfl⟩ | exact ⟨nofun, nofun⟩

/-- Is it the last statement of a call? -/
def Place.leaving : Place T → Bool
  | .putUnlock _ | .takeUnlock _ | .sizeUnlock _ => true
  | _ => false

def Event.isCall : Event Tid T → Bool
  | .put _ _ | .take _ | .size _ => true
  | _ => false

variable [DecidableEq Tid] {s s' : BlockingQueue Tid T} {a : Event Tid T} {t : Tid} {p : Place T}

/-- **What a move does to the calls.** -/
inductive Deed (s s' : BlockingQueue Tid T) : Event Tid T → Prop where
  | call {a : Event Tid T} {t : Tid} {p : Place T} : Calls a t p →
      s'.calls = Function.update s.calls t (call p) →
      s'.pushed = s.pushed → s'.takes = s.takes → Deed s s' a
  | quiet {a : Event Tid T} : a.isCall = false → (∀ t, a = .step t → (s.pc t).leaving = false) →
      s'.calls = s.calls → s'.pushed = s.pushed → s'.takes = s.takes → Deed s s' a
  | push {t : Tid} {x : T} : s.pc t = .putPush x →
      s'.calls = Function.update s.calls t .pushed →
      s'.pushed = s.pushed ++ [(t, x)] → s'.takes = s.takes → Deed s s' (.step t)
  | put {t : Tid} {x : T} : s.pc t = .putUnlock x → s'.calls = Function.update s.calls t .none →
      s'.pushed = s.pushed → s'.takes = s.takes → Deed s s' (.step t)
  | taken {t : Tid} {x : T} : s.pc t = .takeUnlock x →
      s'.calls = Function.update s.calls t .none →
      s'.pushed = s.pushed → s'.takes = s.takes ++ [(t, x)] → Deed s s' (.step t)
  | sized {t : Tid} {n : Nat} : s.pc t = .sizeUnlock n →
      s'.calls = Function.update s.calls t .none →
      s'.pushed = s.pushed → s'.takes = s.takes → Deed s s' (.step t)

theorem deed_of_move (m : Move s a s') : Deed s s' a := by
  have hstays : ∀ {t : Tid}, (s.pc t).leaving = false → ∀ u,
      (Event.step t : Event Tid T) = .step u → (s.pc u).leaving = false := by
    rintro t ht u hu
    obtain rfl := Event.step.inj hu
    exact ht
  have hwoken : ∀ q : Place T, call (notEmpty.woken q) = call q := fun q => by cases q <;> rfl
  cases m with
  | call _ hc => exact .call hc (calls_update ..) rfl rfl
  | @locked t p _ hl =>
      generalize hpc : s.pc t = q at hl
      cases hl <;>
        exact .quiet rfl (hstays (by rw [hpc]; rfl)) (calls_same (by rw [hpc]; rfl)) rfl rfl
  | @looked t p hl =>
      generalize hpc : s.pc t = q at hl
      cases hl <;>
        exact .quiet rfl (hstays (by rw [hpc]; rfl)) (calls_same (by rw [hpc]; rfl)) rfl rfl
  | sleep hpc =>
      exact .quiet rfl (hstays (by rw [hpc]; rfl)) (calls_same (by rw [hpc]; rfl)) rfl rfl
  | pop hpc _ =>
      exact .quiet rfl (hstays (by rw [hpc]; rfl)) (calls_same (by rw [hpc]; rfl)) rfl rfl
  | push hpc => exact .push hpc (calls_update ..) rfl rfl
  | @notified t x w hpc _ =>
      have hpc' : notEmpty.notify s.pc w t = .putNotify x := Condition.notify_eq hpc rfl
      refine .quiet rfl (fun _ h => by cases h)
        (Eq.trans ?_ (Condition.calls_notify call hwoken w)) rfl rfl
      exact calls_same (by simp only [hpc']; rfl)
  | put hpc => exact .put hpc (calls_update ..) rfl rfl
  | taken hpc => exact .taken hpc (calls_update ..) rfl rfl
  | sized hpc => exact .sized hpc (calls_update ..) rfl rfl
  | @spurious t _ =>
      exact .quiet rfl (fun _ h => by cases h) (Condition.calls_notify call hwoken (some t)) rfl rfl

end BlockingQueue

/-! ## The latch -/

/-- What a thread is about at the latch. -/
inductive LatchCall where
  | none
  | waiting
  | counting
deriving DecidableEq

namespace LatchPlace

def call : LatchPlace → LatchCall
  | .idle => .none
  | .waitLock | .waitTest | .waitSleep | .waitWait | .waitWoken | .waitUnlock => .waiting
  | .downLock | .downDec | .downTest | .downNotify | .downUnlock => .counting

theorem call_eq_none {p : LatchPlace} : p.call = .none ↔ p = .idle := by
  cases p <;> first | exact ⟨fun _ => rfl, fun _ => rfl⟩ | exact ⟨nofun, nofun⟩

/-- Is it the last statement of a call? -/
def ends : LatchPlace → Bool
  | .waitUnlock | .downUnlock => true
  | _ => false

/-- Has a thread there called `countDown`, and yet to lower the count? -/
def owes : LatchPlace → Nat
  | .downLock | .downDec => 1
  | _ => 0

/-- The statements before a thread there, with three more for a thread that
its broadcast wakes. -/
def weight : LatchPlace → Nat
  | .idle | .waitWait => 0
  | .waitUnlock | .waitSleep | .downUnlock => 1
  | .waitTest => 2
  | .waitLock | .waitWoken => 3
  | .downNotify => 5
  | .downTest => 6
  | .downDec => 7
  | .downLock => 8

end LatchPlace

namespace LatchEvent

variable {Tid : Type}

def cost : LatchEvent Tid → Nat
  | .wait _ => 4
  | .countDown _ => 9
  | .spurious _ => 5
  | .step _ => 0

def isCall : LatchEvent Tid → Bool
  | .wait _ | .countDown _ => true
  | _ => false

end LatchEvent

namespace CountDownLatch

variable {Tid : Type} [DecidableEq Tid] {s : CountDownLatch Tid} {e : LatchEvent Tid} {t u : Tid}
  {p : LatchPlace}

def calls (s : CountDownLatch Tid) : Tid → LatchCall := fun t => (s.pc t).call

theorem call_woken (q : LatchPlace) : (latchCondition.woken q).call = q.call := by
  cases q <;> rfl

/-- A step ends the call of its thread, or changes nothing in the calls. -/
theorem calls_step (t : Tid) : (s.next (.step t)).calls =
    if (s.pc t).ends then Function.update s.calls t .none else s.calls := by
  rw [next]
  cases hpc : s.pc t with
  | waitUnlock | downUnlock => exact calls_update _ s.pc t .idle
  | waitTest | downTest =>
      rw [advance]
      split <;> exact calls_same (by rw [hpc]; rfl)
  | downNotify =>
      have hpc' : latchCondition.notifyAll s.pc t = .downNotify := Condition.notifyAll_eq hpc rfl
      refine Eq.trans ?_ (Condition.calls_notifyAll LatchPlace.call call_woken)
      exact calls_same (by simp only [hpc']; rfl)
  | idle | waitWait => rfl
  | _ => exact calls_same (by rw [hpc]; rfl)

theorem calls_spurious (t : Tid) : (s.next (.spurious t)).calls = s.calls :=
  Condition.calls_notify LatchPlace.call call_woken (some t)

variable [Fintype Tid]

/-- The decrements under way. -/
def owed (s : CountDownLatch Tid) : Nat := tally (fun _ => LatchPlace.owes) s.pc

theorem owed_go (s : CountDownLatch Tid) (t : Tid) (p : LatchPlace) :
    (s.go t p).owed + (s.pc t).owes = s.owed + p.owes :=
  tally_move (fun _ => LatchPlace.owes) s.pc t p

omit [DecidableEq Tid] in
theorem owed_congr {pc : Tid → LatchPlace} (h : ∀ u, (pc u).owes = (s.pc u).owes) :
    tally (fun _ => LatchPlace.owes) pc = s.owed :=
  Finset.sum_congr rfl fun u _ => h u

theorem owes_woken (q : LatchPlace) : (latchCondition.woken q).owes = q.owes := by
  cases q <;> rfl

/-- The count falls with what is owed. -/
theorem count_owed (he : e.isCall = false) :
    (s.next e).count + (s.owed : Int) = s.count + ((s.next e).owed : Int) := by
  cases e with
  | wait | countDown => cases he
  | spurious t =>
      have hsame : (s.next (.spurious t)).owed = s.owed :=
        owed_congr fun u => Condition.apply_notify owes_woken (some t) u
      rw [hsame]
      rfl
  | step t =>
      rw [next]
      have hgo : ∀ (s : CountDownLatch Tid) (p : LatchPlace), p.owes = (s.pc t).owes →
          (s.go t p).owed = s.owed := by
        intro s p hp
        have h := owed_go s t p
        omega
      cases hpc : s.pc t with
      | downDec =>
          have h := owed_go s t .downTest
          rw [hpc] at h
          change s.count - 1 + (s.owed : Int) = s.count + ((s.go t .downTest).owed : Int)
          simp only [LatchPlace.owes] at h
          omega
      | downNotify =>
          have hpc' : latchCondition.notifyAll s.pc t = .downNotify :=
            Condition.notifyAll_eq hpc rfl
          have hsame : ({ s with pc := latchCondition.notifyAll s.pc }.go t .downUnlock).owed =
              s.owed :=
            (hgo _ _ (by simp only [hpc']; rfl)).trans (owed_congr fun u => owes_woken (s.pc u))
          rw [advance, hsame]
          rfl
      | idle | waitWait => rfl
      | waitTest | downTest =>
          rw [advance, hgo s _ (by rw [hpc]; split <;> rfl)]
          rfl
      | waitLock | waitWoken | downLock =>
          change s.count + _ = s.count + ((s.go t _).owed : Int)
          rw [hgo s _ (by rw [hpc]; rfl)]
      | waitSleep | waitUnlock | downUnlock =>
          change s.count + _ = s.count + ((s.go t _).owed : Int)
          rw [hgo s _ (by rw [hpc]; rfl)]

/-- The statements before the threads. -/
def weight (s : CountDownLatch Tid) : Nat := tally (fun _ => LatchPlace.weight) s.pc

theorem weight_go (s : CountDownLatch Tid) (t : Tid) (p : LatchPlace) :
    (s.go t p).weight + (s.pc t).weight = s.weight + p.weight :=
  tally_move (fun _ => LatchPlace.weight) s.pc t p

theorem weight_wake (s : CountDownLatch Tid) (u : Tid) :
    { s with pc := latchCondition.notify s.pc (some u) }.weight ≤ s.weight + 3 := by
  have h := weight_go s u (latchCondition.woken (s.pc u))
  have hwoken : (latchCondition.woken (s.pc u)).weight ≤ (s.pc u).weight + 3 := by
    cases s.pc u <;> simp [latchCondition, LatchPlace.weight]
  change (s.go u (latchCondition.woken (s.pc u))).weight ≤ _
  omega

/-- An event uses up what it has not brought in, when no more than one thread
sleeps. -/
theorem weight_next (hone : ∀ u v, latchCondition.asleep (s.pc u) = true →
    latchCondition.asleep (s.pc v) = true → u = v) (he : s.enabled e = true) :
    (s.next e).weight + 1 ≤ s.weight + e.cost := by
  cases e with
  | wait t =>
      have h := weight_go s t .waitLock
      change (s.go t .waitLock).weight + 1 ≤ _ + 4
      simp only [LatchPlace.weight] at h
      omega
  | countDown t =>
      have h := weight_go s t .downLock
      change (s.go t .downLock).weight + 1 ≤ _ + 9
      simp only [LatchPlace.weight] at h
      omega
  | spurious t =>
      have h := weight_wake s t
      change { s with pc := latchCondition.notify s.pc (some t) }.weight + 1 ≤ _ + 5
      omega
  | step t =>
      change s.canStep (s.pc t) = true at he
      rw [next]
      have hto : ∀ p : LatchPlace, p.weight + 1 ≤ (s.pc t).weight →
          (s.go t p).weight + 1 ≤ s.weight + 0 := by
        intro p hp
        have h := weight_go s t p
        omega
      cases hpc : s.pc t with
      | idle | waitWait =>
          rw [hpc] at he
          cases he
      | waitTest | downTest =>
          rw [advance]
          split <;> exact hto _ (by rw [hpc]; decide)
      | waitLock | waitWoken => exact hto .waitTest (by rw [hpc]; decide)
      | waitSleep => exact hto .waitWait (by rw [hpc]; decide)
      | waitUnlock | downUnlock => exact hto .idle (by rw [hpc]; decide)
      | downLock => exact hto .downDec (by rw [hpc]; decide)
      | downDec => exact hto .downTest (by rw [hpc]; decide)
      | downNotify =>
          obtain ⟨u, hu⟩ : ∃ u, ∀ v, latchCondition.asleep (s.pc v) = true → v = u := by
            by_cases hany : ∃ u, latchCondition.asleep (s.pc u) = true
            · obtain ⟨u, hu⟩ := hany
              exact ⟨u, fun v hv => hone v u hv hu⟩
            · exact ⟨t, fun v hv => absurd ⟨v, hv⟩ hany⟩
          have hwake := weight_wake s u
          have h := weight_go { s with pc := latchCondition.notifyAll s.pc } t .downUnlock
          have hpc' : latchCondition.notifyAll s.pc t = .downNotify :=
            Condition.notifyAll_eq hpc rfl
          rw [← Condition.notifyAll_eq_notify hu] at hwake
          simp only [hpc', LatchPlace.weight, LatchEvent.cost, advance] at h ⊢
          omega

end CountDownLatch

end Muduo
