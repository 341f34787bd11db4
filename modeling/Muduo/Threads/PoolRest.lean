import Muduo.Threads.PoolWork

/-!
# What becomes of a pool that is left alone

Without new calls and spurious wakeups a pool does only so much. Where that
ends, if `stop` has been called no more than once, is one of two (`Outcome`):
every worker sleeps and the queue is empty; or every worker has exited, the
one whose task called `stop` included, since of itself it is told `EDEADLK`
and goes on. What is queued when `running_` becomes false is left there, but
for one task more per worker.

A thread may be joined once, and by one thread at a time. Several calls of
`stop` break that; what they come to is left open here.
-/

namespace Muduo

open Lib Lib.Threads

namespace PoolPlace

variable {Tid F : Type}

/-- Past the test of `running_`, without a task yet. -/
def takes : PoolPlace Tid F → Nat
  | .takeLock | .takeTest | .takeSleep | .takeWait | .takeWoken | .takeFront => 1
  | _ => 0

theorem takes_woken (q : PoolPlace Tid F) : (cond.woken q).takes = q.takes := by
  cases q <;> rfl

end PoolPlace

namespace ThreadPool

variable {Tid F : Type} [DecidableEq Tid] {s s' : ThreadPool Tid F} {a : PoolEvent Tid F}
  {t u : Tid} {p : PoolPlace Tid F}

section Taken

variable [Fintype Tid]

/-! ## After the end -/

/-- The workers past the test of `running_` that have yet to take a task. -/
def mayTake (s : ThreadPool Tid F) : Nat := tally (fun _ => PoolPlace.takes) s.pc

theorem mayTake_le (h : Sound s) (hnodup : s.threads.Nodup) : s.mayTake ≤ s.threads.length := by
  rw [← sum_mem_eq_length hnodup]
  refine Finset.sum_le_sum fun t _ => ?_
  have hworker := h.workers t
  cases hpc : s.pc t with
  | takeLock | takeTest | takeSleep | takeWait | takeWoken | takeFront =>
      rw [hpc] at hworker
      rw [if_pos (hworker.mp rfl)]
      exact le_rfl
  | _ => exact Nat.zero_le _

theorem mayTake_go (s : ThreadPool Tid F) (t : Tid) (p : PoolPlace Tid F) :
    (s.go t p).mayTake + (s.pc t).takes = s.mayTake + p.takes :=
  tally_move (fun _ => PoolPlace.takes) s.pc t p

/-- Waking a worker makes it no more able to take than it was asleep. -/
theorem mayTake_notify (s : ThreadPool Tid F) (w : Option Tid) :
    { s with pc := cond.notify s.pc w }.mayTake = s.mayTake :=
  Finset.sum_congr rfl fun t _ => Condition.apply_notify PoolPlace.takes_woken w t

/-- Once `running_` is false nobody passes the test, and who takes a task does
not come back for another. -/
theorem taken_move (hrun : s.running = false) (m : Move s a s') :
    s'.dequeued.length + s'.mayTake ≤ s.dequeued.length + s.mayTake := by
  have hstay : ∀ {t : Tid} {p : PoolPlace Tid F}, p.takes ≤ (s.pc t).takes →
      (s.go t p).mayTake ≤ s.mayTake := by
    intro t p hp
    have hgo := mayTake_go s t p
    omega
  cases m with
  | call hpc hc =>
      cases hc <;> exact Nat.add_le_add_left (hstay (Nat.zero_le _)) _
  | @hop t p hop =>
      refine Nat.add_le_add_left (hstay ?_) _
      generalize s.pc t = q at hop
      cases hop with
      | enter htrue =>
          rw [hrun] at htrue
          cases htrue
      | sleep _ _ | front => exact le_rfl
      | exit _ | nothing _ | joined _ => exact Nat.zero_le _
  | @locked t p _ hl =>
      refine Nat.add_le_add_left (hstay ?_) _
      generalize s.pc t = q at hl
      cases hl with
      | take | takeAgain => exact le_rfl
      | run _ _ | stop _ => exact Nat.zero_le _
  | @unlocked t p hun =>
      refine Nat.add_le_add_left (hstay ?_) _
      generalize s.pc t = q at hun
      cases hun with
      | sleep => exact le_rfl
      | _ => exact Nat.zero_le _
  | @pop t task queue hpc _ =>
      have hgo := mayTake_go s t (.takeUnlock task)
      rw [hpc] at hgo
      simp only [PoolPlace.takes] at hgo
      change (s.dequeued ++ [(t, task)]).length + (s.go t (.takeUnlock task)).mayTake ≤ _
      rw [List.length_append, List.length_singleton]
      omega
  | @notified t c w _ _ =>
      have hgo := mayTake_go { s with pc := cond.notify s.pc w } t (.runUnlock c)
      rw [mayTake_notify] at hgo
      refine Nat.add_le_add_left ?_ s.dequeued.length
      exact Nat.le_of_add_right_le (Nat.le_of_eq hgo)
  | @notifiedAll t c hpc =>
      have hgo := mayTake_go { s with pc := cond.notifyAll s.pc } t (.stopUnlock c)
      have hsame : { s with pc := cond.notifyAll s.pc }.mayTake = s.mayTake :=
        Finset.sum_congr rfl fun u _ => PoolPlace.takes_woken (s.pc u)
      rw [hsame] at hgo
      refine Nat.add_le_add_left ?_ s.dequeued.length
      exact Nat.le_of_add_right_le (Nat.le_of_eq hgo)
  | @spurious t _ => exact Nat.add_le_add_left (Nat.le_of_eq (mayTake_notify s (some t))) _
  | @finished t _ _ => exact Nat.add_le_add_left (hstay (t := t) (p := .loop) (Nat.zero_le _)) _
  | @push t _ c _ =>
      exact Nat.add_le_add_left (hstay (t := t) (p := .runNotify c) (Nat.zero_le _)) _
  | @shut t c _ =>
      exact Nat.add_le_add_left (hstay (t := t) (p := .stopNotify c) (Nat.zero_le _)) _
  | @stopped t c _ =>
      exact Nat.add_le_add_left (hstay (t := t) (p := .user c) (Nat.zero_le _)) _

theorem taken_run {as : List (PoolEvent Tid F)} (hrun : system.Run s as s')
    (hend : s.running = false) :
    s'.running = false ∧ s'.dequeued.length + s'.mayTake ≤ s.dequeued.length + s.mayTake := by
  induction hrun with
  | nil => exact ⟨hend, le_rfl⟩
  | snoc _ he hn ih =>
      have m := move_of_next he hn
      exact ⟨running_step m ih.1, Nat.le_trans (taken_move ih.1 m) ih.2⟩

end Taken

/-! ## One call of `stop` -/

/-- Is it a call of `stop()`? -/
def isStop : PoolEvent Tid F → Bool
  | .stop _ => true
  | _ => false

/-- Is a thread in a call of `stop`? -/
def stopping : PoolCall F → Nat
  | .stopping => 1
  | _ => 0

section Stops

variable [Fintype Tid]

/-- The calls of `stop` under way and those that have returned. -/
def stopCalls (s : ThreadPool Tid F) : Nat := tally (fun _ => stopping) s.calls + s.stops

theorem stopCalls_move (m : Move s a s') :
    s'.stopCalls ≤ s.stopCalls + if isStop a then 1 else 0 := by
  unfold stopCalls
  cases deed_of_move m with
  | quiet _ hcalls _ hstops =>
      rw [hcalls, hstops]
      exact Nat.le_add_right _ _
  | @run t task hat hcalls _ hstops =>
      have hmove := tally_move (fun _ => stopping) s.calls t (.pushing task)
      simp only [hat, stopping] at hmove
      rw [hcalls, hstops]
      omega
  | @push t task hat hcalls _ hstops =>
      have hmove := tally_move (fun _ => stopping) s.calls t .pushed
      simp only [hat, stopping] at hmove
      rw [hcalls, hstops]
      omega
  | @returned t hat hcalls _ hstops =>
      have hmove := tally_move (fun _ => stopping) s.calls t .none
      simp only [hat, stopping] at hmove
      rw [hcalls, hstops]
      omega
  | @stop t hat hcalls _ hstops =>
      have hmove := tally_move (fun _ => stopping) s.calls t .stopping
      simp only [hat, stopping] at hmove
      rw [hcalls, hstops]
      simp only [isStop, if_true]
      omega
  | @stopped t hat hcalls _ hstops =>
      have hmove := tally_move (fun _ => stopping) s.calls t .none
      simp only [hat, stopping] at hmove
      rw [hcalls, hstops]
      omega

theorem stopCalls_start {ws : List Tid} (h : new.start ws = .ok s) : s.stopCalls = 0 := by
  have hplace := start_place h
  have hnone : ∀ t, stopping (s.calls t) = 0 := by
    intro t
    rcases hplace t with ⟨-, hpc⟩ | ⟨-, hpc⟩ <;> rw [calls, hpc] <;> rfl
  have hstops : s.stops = 0 := by rw [start_eq h]; rfl
  rw [stopCalls, hstops]
  exact Finset.sum_eq_zero fun t _ => hnone t

theorem stopCalls_run {s₀ : ThreadPool Tid F} {ws : List Tid} {as : List (PoolEvent Tid F)}
    (h : new.start ws = .ok s₀) (hrun : system.Run s₀ as s) : s.stopCalls ≤ as.countP isStop := by
  induction hrun with
  | nil => exact (stopCalls_start h).le
  | @snoc s₁ s₂ as a _ he hn ih =>
      have hmove := stopCalls_move (move_of_next he hn)
      rw [List.countP_append, List.countP_singleton]
      omega

/-- Two threads in `stop` are two calls of it. -/
theorem stop_unique (hone : s.stopCalls ≤ 1) {rest rest' : List Tid} {c c' : UserCode F}
    (ht : s.pc t = .joining rest c) (hu : s.pc u = .joining rest' c') : t = u := by
  by_contra htu
  have hstopping {v : Tid} {rest : List Tid} {c : UserCode F} (hv : s.pc v = .joining rest c) :
      stopping (s.calls v) = 1 := by
    rw [calls, hv]
    rfl
  have htwo : stopping (s.calls t) + stopping (s.calls u) ≤ tally (fun _ => stopping) s.calls :=
    tally_two_le (fun _ => stopping) htu
  rw [hstopping ht, hstopping hu] at htwo
  unfold stopCalls at hone
  omega

end Stops

/-! ## Where nothing more happens -/

/-- A place that `t` does not leave by itself, or not before another thread
exits. -/
inductive Rests (s : ThreadPool Tid F) (t : Tid) : PoolPlace Tid F → Prop where
  | idle : Rests s t (.user ⟨none, []⟩)
  | asleep : Rests s t .takeWait
  | exited : Rests s t .exited
  | joins {w : Tid} {rest : List Tid} {c : UserCode F} : w ≠ t → s.pc w ≠ .exited →
      Rests s t (.joining (w :: rest) c)

/-- The holder of the mutex can go on. -/
theorem exists_own_of_inside (hin : (s.pc t).inside = true) :
    ∃ a : PoolEvent Tid F, a.own = true ∧ s.Enabled a := by
  have hstep : s.canStep t (s.pc t) = true → ∃ a : PoolEvent Tid F, a.own = true ∧ s.Enabled a :=
    fun h => ⟨.step t, rfl, h⟩
  cases hpc : s.pc t with
  | runNotify c =>
      by_cases h : ∃ u, cond.asleep (s.pc u) = true
      · obtain ⟨u, hu⟩ := h
        exact ⟨.notify t (some u), rfl, by rw [hpc]; rfl, hu⟩
      · refine ⟨.notify t none, rfl, by rw [hpc]; rfl, ?_⟩
        exact fun u => Bool.eq_false_iff.mpr fun hu => h ⟨u, hu⟩
  | takeTest | takeSleep | takeFront | takeUnlock _ | runPush _ _ | runUnlock _ | stopSet _
  | stopNotify _ | stopUnlock _ =>
      rw [hpc] at hstep
      exact hstep rfl
  | _ =>
      rw [hpc] at hin
      cases hin

theorem Locked.rests (hl : Locked s) (hstuck : ∀ a : PoolEvent Tid F, a.own = true → ¬s.Enabled a)
    (t : Tid) : Rests s t (s.pc t) := by
  -- Somebody inside could go on, so the mutex is free.
  have hout : ∀ u, (s.pc u).inside = false := by
    intro u
    refine Bool.eq_false_iff.mpr fun hin => ?_
    obtain ⟨a, hown, ha⟩ := exists_own_of_inside hin
    exact hstuck a hown ha
  have hfree : s.holder.isNone = true := by
    cases hholder : s.holder with
    | none => rfl
    | some u =>
        have hin := (hl.mutex u).mpr hholder
        rw [hout u] at hin
        cases hin
  have hstep : s.canStep t (s.pc t) = false := Bool.eq_false_iff.mpr (hstuck (.step t) rfl)
  have hin := hout t
  have hfinish := hstuck (.finish t) rfl
  cases hpc : s.pc t with
  | user c =>
      by_cases hidle : c = ⟨none, []⟩
      · rw [hidle]
        exact .idle
      · refine absurd ⟨by rw [hpc]; rfl, ?_⟩ hfinish
        rw [hpc]
        exact fun h => hidle (PoolPlace.user.inj h)
  | takeWait => exact .asleep
  | exited => exact .exited
  | joining rest c =>
      rw [hpc] at hstep
      cases rest with
      | nil => cases hstep
      | cons w rest =>
          rw [canStep, Bool.or_eq_false_iff, decide_eq_false_iff_not] at hstep
          refine .joins hstep.1 fun hw => ?_
          rw [hw] at hstep
          cases hstep.2
  | loop =>
      rw [hpc] at hstep
      cases hstep
  | takeLock | takeWoken | runLock _ _ | stopLock _ =>
      rw [hpc] at hstep
      change (!true || s.holder.isNone) = false at hstep
      rw [hfree] at hstep
      cases hstep
  | _ =>
      rw [hpc] at hin
      cases hin

/-- Who has exited has seen the pool stopped, and only workers are joined. -/
structure Leaving (s : ThreadPool Tid F) : Prop where
  exited : ∀ t, s.pc t = .exited → s.running = false
  joining : ∀ t rest c, s.pc t = .joining rest c → ∀ w ∈ rest, w ∈ s.threads

theorem exited_of_move (m : Move s a s') (hpc : s'.pc u = .exited) :
    s.pc u = .exited ∨ s.running = false := by
  have hwoken : ∀ {q : PoolPlace Tid F}, cond.woken q = .exited → q = .exited := by
    intro q h
    cases q with
    | takeWait => cases h
    | _ => exact h
  by_cases hactor : u = a.actor
  · subst hactor
    have hself : ∀ {pc : Tid → PoolPlace Tid F} {t : Tid} {p : PoolPlace Tid F},
        Function.update pc t p t = .exited → p = .exited := by
      intro pc t p h
      exact (Function.update_self t p pc).symm.trans h
    cases m with
    | call _ hc => cases hc <;> cases hself hpc
    | @hop t p hop =>
        obtain rfl := hself hpc
        generalize s.pc t = q at hop
        cases hop with
        | exit hrun => exact Or.inr hrun
    | @unlocked t p hun =>
        obtain rfl := hself hpc
        generalize s.pc t = q at hun
        cases hun
    | @locked t p _ hl =>
        obtain rfl := hself hpc
        generalize s.pc t = q at hl
        cases hl
    | @spurious t _ => exact Or.inl (hwoken (hself hpc))
    | _ => cases hself hpc
  · rcases bystander m hactor with h | h
    · exact Or.inl (h.symm.trans hpc)
    · exact Or.inl (hwoken (h.symm.trans hpc))

theorem Leaving.step (h : Leaving s) (m : Move s a s') : Leaving s' := by
  constructor
  · intro t hpc
    refine running_step m ?_
    exact (exited_of_move m hpc).elim (h.exited t) id
  · intro t rest c hpc w hw
    rw [threads_step m]
    rcases joining_step m hpc with hpc | hall | ⟨v, hpc, -⟩
    · exact h.joining t rest c hpc w hw
    · exact hall ▸ hw
    · exact h.joining t _ c hpc w (List.mem_cons_of_mem v hw)

theorem leaving_start {ws : List Tid} (h : new.start ws = .ok s) : Leaving s := by
  have hplace := start_place h
  constructor
  · intro t ht
    rcases hplace t with ⟨-, hpc⟩ | ⟨-, hpc⟩ <;> rw [hpc] at ht <;> cases ht
  · intro t rest c ht
    rcases hplace t with ⟨-, hpc⟩ | ⟨-, hpc⟩ <;> rw [hpc] at ht <;> cases ht

/-- What becomes of a pool left alone: it waits for tasks; or it is over. All
calls have returned. -/
inductive Outcome (s : ThreadPool Tid F) : Prop where
  | waiting (running : s.running = true) (queue : s.queue = [])
      (workers : ∀ t ∈ s.threads, s.pc t = .takeWait)
      (others : ∀ t, t ∉ s.threads → s.pc t = .user ⟨none, []⟩)
  | over (running : s.running = false) (workers : ∀ t ∈ s.threads, s.pc t = .exited)
      (others : ∀ t, t ∉ s.threads → s.pc t = .user ⟨none, []⟩)

/-- Nobody waits in the joins of the one `stop`: the worker it waits for could go
on. -/
theorem not_joining [Fintype Tid] (hs : Sound s) (hc : Closing s) (hleave : Leaving s)
    (hone : s.stopCalls ≤ 1) (hrests : ∀ t, Rests s t (s.pc t)) {rest : List Tid}
    {c : UserCode F} : s.pc t ≠ .joining rest c := by
  intro hpc
  have hrest := hrests t
  rw [hpc] at hrest
  cases hrest with
  | @joins w rest _ hwt hexited =>
      have hw : w ∈ s.threads := hleave.joining t _ c hpc w List.mem_cons_self
      have hworker := (hs.workers w).mpr hw
      have hshut := (hc.after t (by rw [hpc]; rfl)).2 w
      have hat := hrests w
      generalize hq : s.pc w = q at hat
      cases hat with
      | idle =>
          rw [hq] at hworker
          cases hworker
      | asleep =>
          rw [hq] at hshut
          cases hshut
      | exited => exact absurd hq hexited
      | joins _ _ => exact hwt (stop_unique hone hq hpc)

theorem outcome_of_rests [Fintype Tid] (hs : Sound s) (hc : Closing s) (hsignalled : Signalled s)
    (hleave : Leaving s) (hone : s.stopCalls ≤ 1) (hrests : ∀ t, Rests s t (s.pc t)) :
    s.Outcome := by
  have hother : ∀ t, t ∉ s.threads → s.pc t = .user ⟨none, []⟩ := by
    intro t ht
    have hworker : (s.pc t).worker ≠ true := fun h => ht ((hs.workers t).mp h)
    have hat := hrests t
    generalize hq : s.pc t = q at hat
    cases hat with
    | idle => rfl
    | joins _ _ => exact absurd hq (not_joining hs hc hleave hone hrests)
    | asleep | exited =>
        rw [hq] at hworker
        exact absurd rfl hworker
  have hworkers : ∀ t ∈ s.threads, s.pc t = .takeWait ∨ s.pc t = .exited := by
    intro t ht
    have hworker := (hs.workers t).mpr ht
    have hat := hrests t
    generalize hq : s.pc t = q at hat
    cases hat with
    | idle =>
        rw [hq] at hworker
        cases hworker
    | joins _ _ => exact absurd hq (not_joining hs hc hleave hone hrests)
    | asleep => exact Or.inl rfl
    | exited => exact Or.inr rfl
  cases hrun : s.running with
  | false =>
      refine .over hrun (fun t ht => (hworkers t ht).resolve_left fun hpc => ?_) hother
      obtain ⟨u, hu⟩ := hc.sleepers hrun t (by rw [hpc]; rfl)
      have hat := hrests u
      generalize s.pc u = q at hat hu
      cases hat <;> cases hu
  | true =>
      have hasleep : ∀ t ∈ s.threads, s.pc t = .takeWait := by
        intro t ht
        refine (hworkers t ht).resolve_right fun hpc => ?_
        rw [hleave.exited t hpc] at hrun
        cases hrun
      refine .waiting hrun ?_ hasleep hother
      by_contra hqueue
      obtain ⟨w, hw⟩ := List.exists_mem_of_ne_nil _ (hs.queued hqueue)
      obtain ⟨u, hu⟩ := (hsignalled hrun).exists_pos (t := w) (by rw [hasleep w hw]; rfl)
        (List.length_pos_iff.mpr hqueue)
      by_cases hmem : u ∈ s.threads
      · rw [hasleep u hmem] at hu
        cases hu
      · rw [hother u hmem] at hu
        cases hu

/-! ## Whole runs -/

/-- What holds in every reachable state of a pool of the workers `ws`. -/
structure Kept (ws : List Tid) (s : ThreadPool Tid F) : Prop where
  threads : s.threads = ws
  locked : Locked s
  sound : Sound s
  fronted : Fronted s
  leaving : Leaving s

theorem Kept.next {ws : List Tid} (h : Kept ws s) (he : s.Enabled a) (hn : s.next a = .ok s') :
    Kept ws s' := by
  have m := move_of_next he hn
  exact {
    threads := (threads_step m).trans h.threads
    locked := h.locked.step m
    sound := h.sound.step m
    fronted := h.fronted.next h.locked he hn
    leaving := h.leaving.step m }

theorem kept_start {ws : List Tid} (h : new.start ws = .ok s) : Kept ws s where
  threads := by rw [start_eq h]; rfl
  locked := locked_start h
  sound := sound_start h
  fronted := fronted_start h
  leaving := leaving_start h

/-- What is asked of a pool of `n` workers after the events `as`: the tasks
submitted are those dequeued and then the queue, in order, and a worker has
run to their end, in order, the tasks it dequeued but for one in hand; the
events are no more than the workers, the calls and the spurious wakeups
account for; once `running_` is false a worker takes one task more, at most;
and when no thread goes on by itself, `stop` having been called once at most,
the pool has come to one of the outcomes. -/
structure Settles (s : ThreadPool Tid F) (as : List (PoolEvent Tid F)) : Prop where
  fifo : s.submitted = s.dequeued.map Prod.snd ++ s.queue
  hands : ∀ t, callsOf t (tasksOf s.dequeued) = callsOf t s.finished ++ (s.pc t).hand
  length : as.length ≤
    7 * s.threads.length + Lts.total (PoolEvent.cost s.threads.length) as
  taken : s.running = false → ∀ bs s', system.Run s bs s' →
    s'.dequeued.length ≤ s.dequeued.length + s.threads.length
  outcome : as.countP isStop ≤ 1 → (∀ a : PoolEvent Tid F, a.own = true → ¬s.Enabled a) → s.Outcome

/-- **A pool settles**, whoever calls `run` and `stop` and however the threads
are interleaved. -/
theorem pool_settles [Fintype Tid] {s₀ : ThreadPool Tid F} {as : List (PoolEvent Tid F)}
    (h₀ : system.init s₀) (hrun : system.Run s₀ as s) : s.Settles as := by
  obtain ⟨ws, hnodup, hstart⟩ := h₀
  have hstep : ∀ (s : ThreadPool Tid F) (a : PoolEvent Tid F) s', Kept ws s →
      system.enabled s a → system.next s a = .ok s' → Kept ws s' :=
    fun _ _ _ h he hn => h.next he hn
  have hkept := hrun.invariant hstep (kept_start hstart)
  have hthreads := hkept.threads
  obtain ⟨-, hclosing, hsignalled⟩ := woken_invariant.reachable ⟨s₀, as, ⟨ws, hnodup, hstart⟩, hrun⟩
  refine ⟨hkept.sound.fifo, hkept.sound.hands, ?_, ?_, ?_⟩
  · have hlen := hrun.length_le (I := Kept ws) weight (PoolEvent.cost ws.length) hstep
      (fun s a s' h he hn => h.threads ▸ weight_move h.sound (h.threads ▸ hnodup) h.fronted
        (move_of_next he hn)) (kept_start hstart)
    have hweight := weight_start hnodup hstart
    rw [hthreads]
    omega
  · intro hend bs s' hrun'
    have htaken := (taken_run hrun' hend).2
    have hmay := mayTake_le hkept.sound (hthreads ▸ hnodup)
    omega
  · intro hone hstuck
    exact outcome_of_rests hkept.sound hclosing hsignalled hkept.leaving
      ((stopCalls_run hstart hrun).trans hone) (hkept.locked.rests hstuck)

/-- The task that worker 1 runs stops the pool while worker 2 sleeps. Of itself
worker 1 is told `EDEADLK`, for worker 2 it waits; then it is back in its task.
Both exit, and what thread 0 has submitted meanwhile stays in the queue. -/
theorem pool_settles_two : ∃ (s : ThreadPool (Fin 3) Nat) (as : List (PoolEvent (Fin 3) Nat)),
    s.finished = [(1, 5)] ∧ s.queue = [some 6] ∧ s.stops = 1 ∧
      s.pc 1 = .exited ∧ s.pc 2 = .exited ∧ s.Settles as := by
  have h₀ : system.init (started [1, 2] : ThreadPool (Fin 3) Nat) :=
    ⟨[1, 2], by decide, start_new _⟩
  have hexec : (system.exec (started [1, 2] : ThreadPool (Fin 3) Nat)
      [.step 2, .step 2, .step 2, .step 2,
        .run 0 (some 5), .step 0, .step 0, .notify 0 (some 2), .step 0,
        .step 1, .step 1, .step 1, .step 1, .step 1, .step 2, .step 2, .step 2,
        .stop 1, .step 1, .step 1, .step 1, .step 1, .step 1,
        .step 2, .step 2, .step 2, .step 2, .step 2,
        .run 0 (some 6), .step 0, .step 0, .notify 0 none, .step 0,
        .step 1, .step 1, .finish 1, .step 1]).map
      (fun s => decide (s.finished = [(1, 5)] ∧ s.queue = [some 6] ∧ s.stops = 1 ∧
        s.pc 1 = .exited ∧ s.pc 2 = .exited)) = some true := by
    decide
  obtain ⟨s, hs, hp⟩ := Option.map_eq_some_iff.mp hexec
  obtain ⟨hfinished, hqueue, hstops, h₁, h₂⟩ := of_decide_eq_true hp
  exact ⟨s, _, hfinished, hqueue, hstops, h₁, h₂, pool_settles h₀ (Lts.run_of_exec hs)⟩

end ThreadPool

end Muduo
