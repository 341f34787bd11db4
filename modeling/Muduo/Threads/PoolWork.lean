import Mathlib.Algebra.BigOperators.Ring.Finset
import Muduo.Threads.Wakeups
import Muduo.Threads.Callers

/-!
# How much a pool has to do

Each task queued, each call of `run` or `stop` and each wakeup has so many
statements before it (`PoolPlace.weight`); a `run` that signals pays for the
worker it wakes, a `stop` for all of them, and `run` for the worker that will
take its task. A worker that finds nothing at the front of the queue has found
the pool stopped (`Fronted`), so it does not come round again. Every event of
a thread's own lowers what is left (`weight_move`).
-/

namespace Muduo

open Lib Lib.Threads

namespace PoolEvent

variable {Tid F : Type}

/-- Not a call and not a wakeup without a signal: what threads do by
themselves, tasks returning included. -/
def own : PoolEvent Tid F → Bool
  | .run _ _ | .stop _ | .spurious _ => false
  | .finish _ | .step _ | .notify _ _ => true

/-- What an event brings in, in a pool of `n` workers. -/
def cost (n : Nat) : PoolEvent Tid F → Nat
  | .run _ _ => 17
  | .stop _ => 7 * n + 6
  | .spurious _ => 7
  | .finish _ | .step _ | .notify _ _ => 0

end PoolEvent

namespace PoolPlace

variable {Tid F : Type}

/-- What a worker at `while (running_)` has before it. -/
def loopWeight (running : Bool) : Nat := if running then 7 else 1

/-- User code returns from each of its tasks. -/
def userWeight (running : Bool) (c : UserCode F) : Nat :=
  c.inline.length + if c.task.isSome then loopWeight running + 1 else 0

/-- How many statements a thread has before it, those of a worker it wakes and
of a task it queues included. -/
def weight (running : Bool) (n : Nat) : PoolPlace Tid F → Nat
  | .user c => userWeight running c
  | .loop => loopWeight running
  | .takeLock | .takeWoken => 6
  | .takeTest => 5
  | .takeFront => 4
  | .takeSleep => 1
  | .takeWait | .exited => 0
  | .takeUnlock (some _) => loopWeight running + 2
  | .takeUnlock none => loopWeight running + 1
  | .runUnlock c => userWeight running c + 1
  | .runNotify c => userWeight running c + 8
  | .runPush _ c => userWeight running c + 15
  | .runLock _ c => userWeight running c + 16
  | .joining rest c => userWeight running c + rest.length + 1
  | .stopUnlock c => userWeight running c + n + 2
  | .stopNotify c => userWeight running c + 7 * n + 3
  | .stopSet c => userWeight running c + 7 * n + 4
  | .stopLock c => userWeight running c + 7 * n + 5

theorem loopWeight_true : loopWeight true = 7 := rfl

theorem loopWeight_false : loopWeight false = 1 := rfl

theorem userWeight_task (running : Bool) (f : F) :
    userWeight running ⟨some f, []⟩ = loopWeight running + 1 :=
  Nat.zero_add _

theorem weight_takeUnlock_le (running : Bool) (n : Nat) (task : Option F) :
    (.takeUnlock task : PoolPlace Tid F).weight running n ≤ 9 := by
  have hloop : loopWeight running ≤ 7 := by cases running <;> decide
  cases task <;> simp only [weight] <;> omega

theorem userWeight_le (running : Bool) (c : UserCode F) :
    userWeight false c ≤ userWeight running c := by
  cases running with
  | false => exact Nat.le_refl _
  | true =>
      unfold userWeight loopWeight
      split
      · simp
      · exact Nat.le_refl _

theorem weight_le (running : Bool) (n : Nat) (p : PoolPlace Tid F) :
    p.weight false n ≤ p.weight running n := by
  have hloop : loopWeight false ≤ loopWeight running := by cases running <;> decide
  have huser := userWeight_le (F := F) running
  cases p with
  | user c => exact huser c
  | runLock _ c | runPush _ c | runNotify c | runUnlock c => exact Nat.add_le_add_right (huser c) _
  | stopUnlock c | stopNotify c | stopSet c | stopLock c =>
      exact Nat.add_le_add_right (Nat.add_le_add_right (huser c) _) _
  | joining rest c => exact Nat.add_le_add_right (Nat.add_le_add_right (huser c) _) _
  | loop => exact hloop
  | takeUnlock task => cases task <;> exact Nat.add_le_add_right hloop _
  | _ => exact Nat.le_refl _

end PoolPlace

namespace ThreadPool

variable {Tid F : Type} [DecidableEq Tid] {s s' : ThreadPool Tid F} {a : PoolEvent Tid F}
  {t u : Tid} {p : PoolPlace Tid F}

/-! ## At the front of the queue -/

/-- A worker that is about to take has found a task, or the pool stopped. -/
def Fronted (s : ThreadPool Tid F) : Prop :=
  ∀ t, s.pc t = .takeFront → s.queue ≠ [] ∨ s.running = false

omit [DecidableEq Tid] in
theorem front_woken {q : PoolPlace Tid F} (h : cond.woken q = .takeFront) : q = .takeFront := by
  cases q with
  | takeWait => cases h
  | _ => exact h

/-- Who has just got to the front has come from the test. -/
theorem front_of_next (he : s.Enabled a) (hn : s.next a = .ok s')
    (hpc : s'.pc a.actor = .takeFront) : s'.queue ≠ [] ∨ s'.running = false := by
  have hself : ∀ {pc : Tid → PoolPlace Tid F} {t : Tid} {p : PoolPlace Tid F},
      Function.update pc t p t = .takeFront → p = .takeFront := by
    intro pc t p h
    exact (Function.update_self t p pc).symm.trans h
  cases move_of_next he hn with
  | call _ hc => cases hc <;> cases hself hpc
  | @hop t p hop =>
      obtain rfl := hself hpc
      generalize hq : s.pc t = q at hop
      cases hop with
      | front =>
          rw [ThreadPool.next, hq, advance] at hn
          have hp := congrFun (congrArg ThreadPool.pc (Except.ok.inj hn)) t
          simp only [go, Function.update_self] at hp
          split at hp
          · cases hp
          · rename_i hnot
            rw [Bool.and_eq_true, List.isEmpty_iff] at hnot
            by_cases hqueue : s.queue = []
            · exact Or.inr (Bool.eq_false_iff.mpr fun hrun => hnot ⟨hqueue, hrun⟩)
            · exact Or.inl hqueue
  | @unlocked t p hun =>
      obtain rfl := hself hpc
      generalize s.pc t = q at hun
      cases hun
  | @locked t p _ hl =>
      obtain rfl := hself hpc
      generalize s.pc t = q at hl
      cases hl
  | @spurious t hasleep =>
      have hwoken : cond.woken (s.pc t) = .takeFront := hself hpc
      rw [front_woken hwoken] at hasleep
      cases hasleep
  | _ => cases hself hpc

theorem Fronted.next (h : Fronted s) (hl : Locked s) (he : s.Enabled a)
    (hn : s.next a = .ok s') : Fronted s' := by
  intro u hu
  by_cases hactor : u = a.actor
  · subst hactor
    exact front_of_next he hn hu
  · have m := move_of_next he hn
    have hpc : s.pc u = .takeFront := by
      rcases bystander m hactor with h | h
      · exact h.symm.trans hu
      · exact front_woken (h.symm.trans hu)
    have hfront := h u hpc
    cases m with
    | pop ht _ =>
        -- The one who pops holds the mutex.
        refine absurd (hl.mutex.unique ?_ ?_) hactor
        · rw [hpc]
          rfl
        · rw [PoolEvent.actor, ht]
          rfl
    | push _ => exact Or.inl (List.append_ne_nil_of_right_ne_nil _ (List.cons_ne_nil _ _))
    | shut _ => exact Or.inr rfl
    | _ => exact hfront

theorem fronted_start {ws : List Tid} (h : new.start ws = .ok s) : Fronted s := by
  have hplace := start_place h
  intro t ht
  rcases hplace t with ⟨-, hpc⟩ | ⟨-, hpc⟩ <;> rw [hpc] at ht <;> cases ht

/-! ## How long a run can be -/

section Weight

variable [Fintype Tid]

/-- The statements before the threads and the tasks queued. -/
def weight (s : ThreadPool Tid F) : Nat :=
  tally (fun _ => PoolPlace.weight s.running s.threads.length) s.pc + 6 * s.queue.length

theorem weight_go (s : ThreadPool Tid F) (t : Tid) (p : PoolPlace Tid F) :
    (s.go t p).weight + (s.pc t).weight s.running s.threads.length =
      s.weight + p.weight s.running s.threads.length := by
  have hmove := tally_move (fun _ => PoolPlace.weight s.running s.threads.length) s.pc t p
  simp only [weight, go]
  omega

/-- A signal costs what the worker it wakes has before it again. -/
theorem weight_notify (s : ThreadPool Tid F) {w : Option Tid} (hw : cond.MayNotify s.pc w) :
    { s with pc := cond.notify s.pc w }.weight ≤ s.weight + 6 := by
  cases w with
  | none => exact Nat.le_add_right _ _
  | some w =>
      have htally := tally_move (fun _ => PoolPlace.weight s.running s.threads.length) s.pc w
        (cond.woken (s.pc w))
      have hwoken : (cond.woken (s.pc w)).weight s.running s.threads.length ≤ 6 := by
        cases hpc : s.pc w with
        | takeWait => exact le_rfl
        | _ =>
            rw [Condition.MayNotify, hpc] at hw
            cases hw
      simp only [Condition.notify, weight]
      omega

/-- A broadcast costs that for each of the workers. -/
theorem weight_notifyAll (h : Sound s) (hnodup : s.threads.Nodup) :
    { s with pc := cond.notifyAll s.pc }.weight ≤ s.weight + 6 * s.threads.length := by
  have hone : ∀ t, (cond.notifyAll s.pc t).weight s.running s.threads.length ≤
      (s.pc t).weight s.running s.threads.length + 6 * (if t ∈ s.threads then 1 else 0) := by
    intro t
    have hworker := h.workers t
    simp only [Condition.notifyAll]
    cases hpc : s.pc t with
    | takeWait =>
        rw [hpc] at hworker
        rw [if_pos (hworker.mp rfl)]
        exact le_rfl
    | _ => exact Nat.le_add_right _ _
  have hsum := Finset.sum_le_sum fun t (_ : t ∈ Finset.univ) => hone t
  rw [Finset.sum_add_distrib, ← Finset.mul_sum, sum_mem_eq_length hnodup] at hsum
  simp only [weight, tally]
  omega

omit [DecidableEq Tid] in
/-- The end of the pool makes nothing longer. -/
theorem weight_shut (s : ThreadPool Tid F) : { s with running := false }.weight ≤ s.weight :=
  Nat.add_le_add_right (Finset.sum_le_sum fun t _ => PoolPlace.weight_le _ _ (s.pc t)) _

theorem weight_move (h : Sound s) (hnodup : s.threads.Nodup) (hfront : Fronted s)
    (m : Move s a s') : s'.weight + 1 ≤ s.weight + a.cost s.threads.length := by
  cases m with
  | @call t c a p hpc hc =>
      have hgo := weight_go s t p
      rw [hpc] at hgo
      cases hc with
      | returned f inline hinline =>
          simp only [PoolPlace.weight, PoolPlace.userWeight, hinline, List.length_cons,
            PoolEvent.cost] at hgo ⊢
          omega
      | _ =>
          simp only [PoolPlace.weight, PoolPlace.userWeight, List.length_cons,
            PoolEvent.cost] at hgo ⊢
          omega
  | @hop t p hop =>
      have hgo := weight_go s t p
      have hat := hfront t
      generalize s.pc t = q at hgo hop hat
      cases hop with
      | enter hrun =>
          simp only [PoolPlace.weight, hrun, PoolPlace.loopWeight_true, PoolEvent.cost] at hgo ⊢
          omega
      | exit hrun =>
          simp only [PoolPlace.weight, hrun, PoolPlace.loopWeight_false, PoolEvent.cost] at hgo ⊢
          omega
      | nothing hqueue =>
          -- There was a task when the front was reached, or the pool has stopped.
          have hrun : s.running = false := (hat rfl).resolve_left (absurd hqueue)
          simp only [PoolPlace.weight, hrun, PoolPlace.loopWeight_false, PoolEvent.cost] at hgo ⊢
          omega
      | _ =>
          simp only [PoolPlace.weight, List.length_cons, PoolEvent.cost] at hgo ⊢
          omega
  | @locked t p _ hl =>
      have hgo := weight_go s t p
      change (s.go t p).weight + 1 ≤ _
      generalize s.pc t = q at hgo hl
      cases hl <;> simp only [PoolPlace.weight, PoolEvent.cost] at hgo ⊢ <;> omega
  | @unlocked t p hun =>
      have hgo := weight_go s t p
      change (s.go t p).weight + 1 ≤ _
      generalize s.pc t = q at hgo hun
      cases hun <;> simp only [PoolPlace.weight, PoolPlace.userWeight_task,
        PoolEvent.cost] at hgo ⊢ <;> omega
  | @pop t task queue hpc hqueue =>
      have hmove := tally_move (fun _ => PoolPlace.weight s.running s.threads.length) s.pc t
        (.takeUnlock task)
      have htask := @PoolPlace.weight_takeUnlock_le Tid F s.running s.threads.length task
      have hfrom : (s.pc t).weight s.running s.threads.length = 4 := by rw [hpc]; rfl
      simp only [hfrom] at hmove
      simp only [weight, go, hqueue, List.length_cons, PoolEvent.cost]
      omega
  | @finished t f hpc =>
      have hgo := weight_go s t .loop
      change (s.go t .loop).weight + 1 ≤ _
      rw [hpc] at hgo
      simp only [PoolPlace.weight, PoolPlace.userWeight_task, PoolEvent.cost] at hgo ⊢
      omega
  | @push t task c hpc =>
      have hmove := tally_move (fun _ => PoolPlace.weight s.running s.threads.length) s.pc t
        (.runNotify c)
      simp only [weight, go, List.length_append, List.length_singleton, hpc, PoolPlace.weight,
        PoolEvent.cost] at hmove ⊢
      omega
  | @notified t c w hpc hw =>
      have hgo := weight_go { s with pc := cond.notify s.pc w } t (.runUnlock c)
      have hwoken := weight_notify s hw
      have hpc' : cond.notify s.pc w t = .runNotify c := Condition.notify_eq hpc rfl
      simp only [hpc', PoolPlace.weight, PoolEvent.cost] at hgo ⊢
      omega
  | @shut t c hpc =>
      have hgo := weight_go { s with running := false } t (.stopNotify c)
      have hshut := weight_shut s
      simp only [hpc, PoolPlace.weight, PoolEvent.cost] at hgo ⊢
      omega
  | @notifiedAll t c hpc =>
      have hgo := weight_go { s with pc := cond.notifyAll s.pc } t (.stopUnlock c)
      have hwoken := weight_notifyAll h hnodup
      have hpc' : cond.notifyAll s.pc t = .stopNotify c := Condition.notifyAll_eq hpc rfl
      simp only [hpc', PoolPlace.weight, PoolEvent.cost] at hgo ⊢
      omega
  | @stopped t c hpc =>
      have hgo := weight_go s t (.user c)
      change (s.go t (.user c)).weight + 1 ≤ _
      rw [hpc] at hgo
      simp only [PoolPlace.weight, List.length_nil, PoolEvent.cost] at hgo ⊢
      omega
  | @spurious t hasleep =>
      have hnotify := weight_notify s (w := some t) hasleep
      simp only [PoolEvent.cost]
      omega

/-- A pool just started has the first statements of its workers before it. -/
theorem weight_start {ws : List Tid} (hnodup : ws.Nodup) (h : new.start ws = .ok s) :
    s.weight = 7 * ws.length := by
  have hplace := start_place h
  have hone : ∀ t, (s.pc t).weight s.running s.threads.length = 7 * if t ∈ ws then 1 else 0 := by
    intro t
    have hrun : s.running = true ∧ s.threads = ws := by rw [start_eq h]; exact ⟨rfl, rfl⟩
    rcases hplace t with ⟨ht, hpc⟩ | ⟨ht, hpc⟩
    · rw [hpc, hrun.1, if_pos (hrun.2 ▸ ht)]
      rfl
    · rw [hpc, if_neg (hrun.2 ▸ ht)]
      rfl
  have hqueue : s.queue = [] := by rw [start_eq h]; rfl
  rw [weight, tally, hqueue, Finset.sum_congr rfl fun t _ => hone t, ← Finset.mul_sum,
    sum_mem_eq_length hnodup]
  rfl

end Weight

end ThreadPool

end Muduo
