import Muduo.Threads.ThreadPool

/-!
# No wakeup is lost in the pool

`cond_` stands for two things: a task in the queue, signalled with
`notify()`, and the end of the pool, with `notifyAll()`. While the pool runs,
every task in the queue has, as long as some worker sleeps, a worker that is
awake or a signal owed (`Served`); a worker that was woken may find that
another took the task, but then it is not needed. Once `running_` is false
nobody goes to sleep any more, and who sleeps is woken by the `stop` that set
it, before that lets the mutex go (`Closing`).
-/

namespace Muduo

open Lib Lib.Threads

namespace ThreadPool

variable {Tid F : Type} [DecidableEq Tid] {s s' : ThreadPool Tid F} {a : PoolEvent Tid F}
  {t u : Tid} {p : PoolPlace Tid F}

/-! ## Shutting down -/

/-- How far a call of `stop` has come: `running_` is false and the broadcast
comes next; it is done. -/
inductive StopStage where
  | before | waking | after

def stage : PoolPlace Tid F → StopStage
  | .stopNotify _ => .waking
  | .stopUnlock _ | .joining _ _ => .after
  | _ => .before

/-- `running_` is false and nobody sleeps. -/
def Shut (s : ThreadPool Tid F) : Prop :=
  s.running = false ∧ ∀ u, cond.asleep (s.pc u) = false

theorem running_step (m : Move s a s') (h : s.running = false) : s'.running = false := by
  cases m with
  | shut hpc => rfl
  | _ => exact h

/-- Who sleeps after a move slept before, or the pool runs. -/
theorem asleep_step (hl : Locked s) (m : Move s a s') (hu : cond.asleep (s'.pc u) = true) :
    cond.asleep (s.pc u) = true ∨ s.running = true := by
  cases m with
  | call hpc hc => cases hc <;> exact Or.inl (Condition.asleep_of_update rfl hu)
  | @hop t p hop =>
      generalize s.pc t = q at hop
      cases hop <;> exact Or.inl (Condition.asleep_of_update rfl hu)
  | @locked t p _ hlock =>
      generalize s.pc t = q at hlock
      cases hlock <;> exact Or.inl (Condition.asleep_of_update rfl hu)
  | @unlocked t p hun =>
      have hsure := hl.sure t
      generalize s.pc t = q at hun hsure
      cases hun with
      | sleep => exact Or.inr hsure.2
      | _ => exact Or.inl (Condition.asleep_of_update rfl hu)
  | notified hpc hw =>
      exact Or.inl (Condition.asleep_of_notify (Condition.asleep_of_update rfl hu))
  | notifiedAll hpc =>
      have hawake := Condition.asleep_of_update rfl hu
      rw [Condition.asleep_notifyAll] at hawake
      cases hawake
  | @spurious t _ => exact Or.inl (Condition.asleep_of_notify (w := some t) hu)
  | _ => exact Or.inl (Condition.asleep_of_update rfl hu)

theorem Shut.step (h : Shut s) (hl : Locked s) (m : Move s a s') : Shut s' := by
  refine ⟨running_step m h.1, fun u => Bool.eq_false_iff.mpr fun hu => ?_⟩
  rcases asleep_step hl m hu with hs | hrun
  · rw [h.2 u] at hs
    cases hs
  · rw [h.1] at hrun
    cases hrun

omit [DecidableEq Tid] in
theorem stage_woken (q : PoolPlace Tid F) : stage (cond.woken q) = stage q := by
  cases q <;> rfl

/-- What a move does to the calls of `stop`. -/
inductive Turn (s s' : ThreadPool Tid F) : Prop where
  | quiet : (∀ u, stage (s'.pc u) = stage (s.pc u)) → s'.running = s.running →
      s'.stops = s.stops → Turn s s'
  | shut {t : Tid} {c : UserCode F} : s.pc t = .stopSet c →
      s' = { s with running := false }.go t (.stopNotify c) → Turn s s'
  | notifiedAll {t : Tid} {c : UserCode F} : s.pc t = .stopNotify c →
      s' = { s with pc := cond.notifyAll s.pc }.go t (.stopUnlock c) → Turn s s'
  | stopped {t : Tid} {c : UserCode F} : s.pc t = .joining [] c →
      s' = { s with stops := s.stops + 1 }.go t (.user c) → Turn s s'

theorem turn_of_move (m : Move s a s') : Turn s s' := by
  have hstay : ∀ {t p}, stage p = stage (s.pc t) →
      ∀ u, stage (Function.update s.pc t p u) = stage (s.pc u) := fun hp u => apply_update hp u
  cases m with
  | call hpc hc => cases hc <;> exact .quiet (hstay (by rw [hpc]; rfl)) rfl rfl
  | @hop t p hop =>
      generalize hpc : s.pc t = q at hop
      cases hop <;> exact .quiet (hstay (by rw [hpc]; rfl)) rfl rfl
  | @locked t p _ hl =>
      generalize hpc : s.pc t = q at hl
      cases hl <;> exact .quiet (hstay (by rw [hpc]; rfl)) rfl rfl
  | @unlocked t p hu =>
      generalize hpc : s.pc t = q at hu
      cases hu <;> exact .quiet (hstay (by rw [hpc]; rfl)) rfl rfl
  | pop hpc _ => exact .quiet (hstay (by rw [hpc]; rfl)) rfl rfl
  | finished hpc => exact .quiet (hstay (by rw [hpc]; rfl)) rfl rfl
  | push hpc => exact .quiet (hstay (by rw [hpc]; rfl)) rfl rfl
  | @notified t c w hpc _ =>
      have hpc' : cond.notify s.pc w t = .runNotify c := Condition.notify_eq hpc rfl
      refine .quiet (fun u => ?_) rfl rfl
      exact (apply_update (g := stage) (by simp only [hpc']; rfl) u).trans
        (Condition.apply_notify (g := stage) stage_woken w u)
  | shut hpc => exact .shut hpc rfl
  | notifiedAll hpc => exact .notifiedAll hpc rfl
  | stopped hpc => exact .stopped hpc rfl
  | @spurious t _ =>
      exact .quiet (fun u => Condition.apply_notify (g := stage) stage_woken (some t) u) rfl rfl

/-- Whoever has set `running_` to false is about to wake the sleepers, or has
done so. -/
structure Closing (s : ThreadPool Tid F) : Prop where
  waking : ∀ t, stage (s.pc t) = .waking → s.running = false
  sleepers : s.running = false → ∀ u, cond.asleep (s.pc u) = true →
    ∃ t, stage (s.pc t) = .waking
  after : ∀ t, stage (s.pc t) = .after → Shut s
  stops : 0 < s.stops → Shut s

omit [DecidableEq Tid] in
theorem Closing.of_shut (h : Shut s) : Closing s where
  waking _ _ := h.1
  sleepers _ u hu := by
    rw [h.2 u] at hu
    cases hu
  after _ _ := h
  stops _ := h

theorem Closing.step (h : Closing s) (hl : Locked s) (m : Move s a s') : Closing s' := by
  cases turn_of_move m with
  | quiet hstage hrunning hstops =>
      constructor
      · intro t ht
        rw [hrunning]
        exact h.waking t ((hstage t).symm.trans ht)
      · intro hrun u hu
        rw [hrunning] at hrun
        rcases asleep_step hl m hu with hs | hrun'
        · obtain ⟨t, ht⟩ := h.sleepers hrun u hs
          exact ⟨t, (hstage t).trans ht⟩
        · rw [hrun] at hrun'
          cases hrun'
      · intro t ht
        exact (h.after t ((hstage t).symm.trans ht)).step hl m
      · intro hpos
        rw [hstops] at hpos
        exact (h.stops hpos).step hl m
  | @shut t c hpc heq =>
      have hpc' : s'.pc = Function.update s.pc t (.stopNotify c) := by rw [heq]; rfl
      constructor
      · intro _ _
        rw [heq]
        rfl
      · intro _ _ _
        refine ⟨t, ?_⟩
        rw [hpc', Function.update_self]
        rfl
      · intro u hu
        have hut : u ≠ t := by
          rintro rfl
          rw [hpc', Function.update_self] at hu
          cases hu
        rw [hpc', Function.update_of_ne hut] at hu
        exact (h.after u hu).step hl m
      · intro hpos
        rw [heq] at hpos
        exact (h.stops hpos).step hl m
  | @notifiedAll t c hpc heq =>
      have hrun : s.running = false := h.waking t (by rw [hpc]; rfl)
      refine .of_shut ⟨running_step m hrun, fun u => Bool.eq_false_iff.mpr fun hu => ?_⟩
      rw [heq] at hu
      have hawake := Condition.asleep_of_update rfl hu
      rw [Condition.asleep_notifyAll] at hawake
      cases hawake
  | @stopped t c hpc heq =>
      have hshut : Shut s := h.after t (by rw [hpc]; rfl)
      exact .of_shut (hshut.step hl m)

/-! ## A task for every sleeper is in good hands -/

/-- The workers awake, and the signals owed. -/
def awake : PoolPlace Tid F → Nat
  | .loop | .takeLock | .takeTest | .takeSleep | .takeWoken | .takeFront | .takeUnlock _ => 1
  | .runNotify c => c.task.toList.length + 1
  | .user c | .runLock _ c | .runPush _ c | .runUnlock c => c.task.toList.length
  | .stopLock c | .stopSet c | .stopNotify c | .stopUnlock c | .joining _ c => c.task.toList.length
  | .takeWait | .exited => 0

variable [Fintype Tid]

/-- While the pool runs and a worker sleeps, the tasks queued are no more than
the workers awake and the signals owed. -/
def Signalled (s : ThreadPool Tid F) : Prop :=
  s.running = true → Served cond awake s.queue.length s.pc

theorem Signalled.step (h : Signalled s) (hl : Locked s) (m : Move s a s') : Signalled s' := by
  intro hrun'
  have hrun : s.running = true := by
    by_contra hne
    rw [running_step m (Bool.not_eq_true _ ▸ hne)] at hrun'
    cases hrun'
  have hs := h hrun
  cases m with
  | call hpc hc => cases hc <;> exact hs.move rfl (by rw [hpc]; exact le_rfl)
  | @hop t p hop =>
      generalize hpc : s.pc t = q at hop
      cases hop with
      | exit hfalse =>
          rw [hrun] at hfalse
          cases hfalse
      | _ => exact hs.move rfl (by rw [hpc]; exact le_rfl)
  | @locked t p _ hlock =>
      generalize hpc : s.pc t = q at hlock
      cases hlock <;> exact hs.move rfl (by rw [hpc]; exact le_rfl)
  | @unlocked t p hun =>
      have hsure := hl.sure t
      generalize hpc : s.pc t = q at hun hsure
      cases hun with
      | sleep =>
          change Served cond awake s.queue.length _
          rw [hsure.1]
          exact Served.zero
      | _ => exact hs.move rfl (by rw [hpc]; exact le_rfl)
  | pop hpc hqueue =>
      refine hs.move rfl ?_
      rw [hpc, hqueue]
      exact Nat.add_le_add_right (Nat.le_succ _) 1
  | finished hpc => exact hs.move rfl (by rw [hpc]; exact le_rfl)
  | @push t task c hpc =>
      refine hs.move rfl ?_
      rw [hpc]
      change (s.queue ++ [task]).length + c.task.toList.length ≤ _ + (c.task.toList.length + 1)
      rw [List.length_append, List.length_singleton]
      omega
  | @notified t c w hpc hw =>
      exact hs.notify hw (fun q hq => by cases q <;> first | exact le_rfl | cases hq)
        (by rw [hpc]; rfl) rfl (by rw [hpc]; exact le_rfl)
  | shut hpc => cases hrun'
  | @notifiedAll t c hpc =>
      rintro ⟨u, hu⟩
      have hawake := Condition.asleep_of_update rfl hu
      rw [Condition.asleep_notifyAll] at hawake
      cases hawake
  | stopped hpc => exact hs.move rfl (by rw [hpc]; exact le_rfl)
  | @spurious t _ =>
      exact hs.wake (fun q hq => by rw [cond.woken_awake] at hq; cases hq)
        (fun q => by cases q <;> first | exact le_rfl | exact Nat.zero_le _) (some t)

/-! ## Whole runs -/

omit [DecidableEq Tid] [Fintype Tid] in
theorem awake_pos {p : PoolPlace Tid F} (h : 0 < awake p) :
    (∃ c, p = .runNotify c) ∨ (p.worker = true ∧ cond.asleep p = false) := by
  have hsome : ∀ c : UserCode F, 0 < c.task.toList.length → c.task.isSome = true := by
    rintro ⟨_ | f, _⟩ hc
    · cases hc
    · rfl
  cases p with
  | runNotify c => exact Or.inl ⟨c, rfl⟩
  | takeWait | exited => cases h
  | user c | runLock _ c | runPush _ c | runUnlock c => exact Or.inr ⟨hsome c h, rfl⟩
  | stopLock c | stopSet c | stopNotify c | stopUnlock c | joining _ c =>
      exact Or.inr ⟨hsome c h, rfl⟩
  | _ => exact Or.inr ⟨rfl, rfl⟩

omit [Fintype Tid] in
theorem closing_start {ws : List Tid} (h : new.start ws = .ok s) : Closing s := by
  have hplace := start_place h
  rw [start_eq h] at hplace ⊢
  refine ⟨fun t ht => ?_, nofun, fun t ht => ?_, nofun⟩ <;>
    rcases hplace t with ⟨-, hpc⟩ | ⟨-, hpc⟩ <;> rw [hpc] at ht <;> cases ht

theorem signalled_start {ws : List Tid} (h : new.start ws = .ok s) : Signalled s := by
  rw [start_eq h]
  exact fun _ => Served.zero

theorem woken_invariant : system.Invariant
    fun s : ThreadPool Tid F => Locked s ∧ Closing s ∧ Signalled s :=
  locked_invariant.and
    (by
      rintro s ⟨ws, -, h⟩
      exact ⟨closing_start h, signalled_start h⟩)
    (fun _ _ _ hl h he hn =>
      ⟨h.1.step hl (move_of_next he hn), h.2.step hl (move_of_next he hn)⟩)

/-- **No wakeup is lost.** However the threads are interleaved: while the pool
runs, the workers do not all sleep with a task in the queue, unless a `run` is
about to signal; once a `stop` is at its joins, nobody sleeps. -/
theorem workers_are_woken (hs : system.Reachable s) :
    ¬(s.running = true ∧ s.queue ≠ [] ∧ (∀ t ∈ s.threads, cond.asleep (s.pc t) = true) ∧
        ∀ t c, s.pc t ≠ .runNotify c) ∧
      ((∃ t rest c, s.pc t = .joining rest c) ∨ 0 < s.stops →
        ∀ t, cond.asleep (s.pc t) = false) := by
  have hsound := sound_invariant.reachable hs
  obtain ⟨-, hclosing, hsignalled⟩ := woken_invariant.reachable hs
  constructor
  · rintro ⟨hrun, hqueue, hall, hnone⟩
    obtain ⟨w, hw⟩ := List.exists_mem_of_ne_nil _ (hsound.queued hqueue)
    obtain ⟨u, hu⟩ := (hsignalled hrun).exists_pos (hall w hw) (List.length_pos_iff.mpr hqueue)
    rcases awake_pos hu with ⟨c, hc⟩ | ⟨hworker, hawake⟩
    · exact hnone u c hc
    · rw [hall u ((hsound.workers u).mp hworker)] at hawake
      cases hawake
  · rintro (⟨t, rest, c, hpc⟩ | hpos)
    · exact (hclosing.after t (by rw [hpc]; rfl)).2
    · exact (hclosing.stops hpos).2

/-- The workers 1 and 2 sleep when thread 0 runs a task: worker 1 is woken,
worker 2 sleeps on. -/
theorem workers_are_woken_two : ∃ s : ThreadPool (Fin 3) Nat,
    s.queue = [some 5] ∧ s.pc 2 = .takeWait ∧
      ¬((∀ t ∈ s.threads, cond.asleep (s.pc t) = true) ∧ ∀ t c, s.pc t ≠ .runNotify c) := by
  have h₀ : system.init (started [1, 2] : ThreadPool (Fin 3) Nat) :=
    ⟨[1, 2], by decide, start_new _⟩
  obtain ⟨s, hs, hp⟩ := Lts.exists_reachable_of_exec
    [.step 1, .step 1, .step 1, .step 1, .step 2, .step 2, .step 2, .step 2,
      .run 0 (some 5), .step 0, .step 0, .notify 0 (some 1)]
    (fun s => s.running = true ∧ s.queue = [some 5] ∧ s.pc 2 = .takeWait)
    h₀ (by decide)
  obtain ⟨hrun, hqueue, hpc⟩ := of_decide_eq_true hp
  refine ⟨s, hqueue, hpc, fun h => (workers_are_woken hs).1 ⟨hrun, ?_, h⟩⟩
  rw [hqueue]
  nofun

end ThreadPool

end Muduo
