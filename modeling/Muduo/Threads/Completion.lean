import Muduo.Threads.Callers
import Muduo.Threads.CountDownLatch

/-!
# A batch of tasks, closed by a latch

One thread submits tasks to a pool it has started, then a task that counts a
latch down, waits for the latch and stops the pool, as the test of the pool
does. A worker leaves as soon as it sees `running_` false, even with tasks
queued, and the latch is counted down while other tasks still run; yet
nothing is left undone (`batch_completed`): the queue is a FIFO, so when the
latch opens all tasks have been dequeued, and a worker that `stop` has joined
has run the task it took to its end.

The pool and the latch are the models of the two classes, and what the program
adds is which of their events it lets happen.
-/

namespace Muduo

open Lib Lib.Threads

/-- What is submitted: a task of the batch, or `countDown` bound to the latch. -/
inductive Job (A : Type) where
  | task (a : A)
  | countDown
deriving DecidableEq

/-- The calls of `run`, in order. -/
def jobs {A : Type} (tasks : List A) : List (Job A) := tasks.map .task ++ [.countDown]

structure BatchRun (Tid A : Type) where
  pool : ThreadPool Tid (Job A)
  latch : CountDownLatch Tid
  /-- What `main` has yet to call `run` with. -/
  todo : List (Job A)

inductive BatchEvent (Tid A : Type) where
  | pool (a : PoolEvent Tid (Job A))
  | latch (e : LatchEvent Tid)

namespace BatchRun

variable {Tid A : Type} [DecidableEq Tid]

/-- The program: `main` calls `run` with one job after the other, then `wait`,
then `stop`; the last job is a call of `countDown`; no other code calls the
pool or the latch. -/
def Allowed (main : Tid) (s : BatchRun Tid A) : BatchEvent Tid A → Prop
  | .pool (.run t task) => t = main ∧ task ≠ none ∧ s.todo.head? = task
  | .pool (.stop t) => t = main ∧ main ∈ s.latch.waited ∧ s.pool.stops = 0
  | .pool (.finish t) => s.pool.pc t = .user ⟨some .countDown, []⟩ → t ∈ s.latch.counted
  | .pool _ => True
  | .latch (.wait t) =>
      t = main ∧ s.todo = [] ∧ s.pool.pc main = .user ⟨none, []⟩ ∧ main ∉ s.latch.waited
  | .latch (.countDown t) =>
      s.pool.pc t = .user ⟨some .countDown, []⟩ ∧ t ∉ s.latch.counted
  | .latch _ => True

def Enabled (main : Tid) (s : BatchRun Tid A) (a : BatchEvent Tid A) : Prop :=
  s.Allowed main a ∧
    match a with
    | .pool a => s.pool.Enabled a
    | .latch e => s.latch.enabled e = true

/-- A call of `run` takes the next job. -/
def remaining (todo : List (Job A)) : PoolEvent Tid (Job A) → List (Job A)
  | .run _ _ => todo.tail
  | _ => todo

def next (s : BatchRun Tid A) : BatchEvent Tid A → Except PoolFault (BatchRun Tid A)
  | .pool a => do return { s with pool := ← s.pool.next a, todo := remaining s.todo a }
  | .latch e => .ok { s with latch := s.latch.next e }

/-- `main` has started the pool with one worker or more. -/
def system (main : Tid) (tasks : List A) : Lts (BatchRun Tid A) (BatchEvent Tid A) PoolFault where
  init s :=
    (∃ ws : List Tid, ws.Nodup ∧ ws ≠ [] ∧ main ∉ ws ∧ ThreadPool.new.start ws = .ok s.pool) ∧
      s.latch = .new 1 ∧ s.todo = jobs tasks
  enabled := Enabled main
  next := next

instance [Fintype Tid] [DecidableEq A] (main : Tid) (s : BatchRun Tid A) :
    ∀ a, Decidable (s.Allowed main a)
  | .pool (.run _ _) => inferInstanceAs (Decidable (_ = _ ∧ _ ≠ _ ∧ _ = _))
  | .pool (.stop _) => inferInstanceAs (Decidable (_ = _ ∧ _ ∈ _ ∧ _ = _))
  | .pool (.finish t) =>
      inferInstanceAs (Decidable (s.pool.pc t = .user ⟨some .countDown, []⟩ → t ∈ s.latch.counted))
  | .pool (.step _) | .pool (.notify _ _) | .pool (.spurious _) => inferInstanceAs (Decidable True)
  | .latch (.wait _) => inferInstanceAs (Decidable (_ = _ ∧ _ = _ ∧ _ = _ ∧ _ ∉ _))
  | .latch (.countDown _) => inferInstanceAs (Decidable (_ = _ ∧ _ ∉ _))
  | .latch (.step _) | .latch (.spurious _) => inferInstanceAs (Decidable True)

instance [Fintype Tid] [DecidableEq A] (main : Tid) (tasks : List A) (s : BatchRun Tid A) :
    ∀ a, Decidable ((system main tasks).enabled s a)
  | .pool a => inferInstanceAs (Decidable (_ ∧ ThreadPool.system.enabled s.pool a))
  | .latch _ => inferInstanceAs (Decidable (_ ∧ _ = true))

variable {main : Tid} {tasks : List A} {s s' : BatchRun Tid A}

/-! ## The pool in the program -/

theorem next_pool {a : PoolEvent Tid (Job A)} (hn : s.next (.pool a) = .ok s') :
    s.pool.next a = .ok s'.pool ∧ s'.latch = s.latch ∧ s'.todo = remaining s.todo a := by
  obtain ⟨pool, hpool, hn⟩ := bind_eq_ok hn
  obtain rfl := Except.ok.inj hn
  exact ⟨hpool, rfl, rfl⟩

/-- What the pool does in the program it can do. -/
theorem pool_invariant : (system main tasks).Invariant
    fun s : BatchRun Tid A => ThreadPool.system.Reachable s.pool where
  init := by
    rintro s ⟨⟨ws, hnodup, -, -, h⟩, -, -⟩
    exact .of_init ⟨ws, hnodup, h⟩
  step s a s' hs he hn := by
    cases a with
    | pool a => exact hs.step he.2 (next_pool hn).1
    | latch e =>
        obtain rfl := Except.ok.inj hn
        exact hs

/-! ## The order the program imposes -/

/-- Only `main` calls the pool; what it has submitted, submits and has yet to
submit are the jobs, in order; it stops the pool when it has waited, and who
has waited has seen the count fall; it falls in the call of `countDown` that a
worker makes as its task, so that the last job has been dequeued then. -/
structure Ordered (main : Tid) (tasks : List A) (s : BatchRun Tid A) : Prop where
  workers : s.pool.threads ≠ []
  client : main ∉ s.pool.threads
  others : ∀ t, t ≠ main → s.pool.calls t = .none
  submitted : s.pool.submitted ++ (s.pool.calls main).pending ++ s.todo.map some =
    (jobs tasks).map some
  stopping : s.pool.calls main = .stopping ∨ 0 < s.pool.stops → main ∈ s.latch.waited
  joined : 0 < s.pool.stops → ∀ t ∈ s.pool.threads, s.pool.pc t = .exited
  opened : s.latch.Open
  counting : ∀ t, (s.latch.pc t).counting = true →
    t ∉ s.latch.counted ∧ s.pool.pc t = .user ⟨some .countDown, []⟩
  counted : s.latch.count ≤ 0 → some .countDown ∈ s.pool.dequeued.map Prod.snd

theorem ordered_init (h : (system main tasks).init s) : Ordered main tasks s := by
  obtain ⟨⟨ws, -, hws, hmain, hpool⟩, hlatch, htodo⟩ := h
  have hplace := ThreadPool.start_place hpool
  have hcalls : ∀ t, s.pool.calls t = .none := by
    intro t
    rcases hplace t with ⟨-, h⟩ | ⟨-, h⟩ <;> rw [ThreadPool.calls, h] <;> rfl
  have heq := ThreadPool.start_eq hpool
  exact {
    workers := by rw [heq]; exact hws
    client := by rw [heq]; exact hmain
    others := fun t _ => hcalls t
    submitted := by rw [hcalls, heq, htodo]; rfl
    stopping := by
      rw [hcalls, heq]
      rintro (h | h) <;> cases h
    joined := by
      rw [heq]
      intro h
      cases h
    opened := by rw [hlatch]; exact CountDownLatch.open_new 1
    counting := by
      rw [hlatch]
      intro t ht
      cases ht
    counted := by
      rw [hlatch]
      exact fun h => absurd (show (1 : Int) ≤ 0 from h) (by decide) }

/-- A worker's task has been dequeued. -/
theorem dequeued_of_hand {F : Type} {pool : ThreadPool Tid F} (h : pool.Sound) {t : Tid} {f : F}
    (hhand : (pool.pc t).hand = [f]) : some f ∈ pool.dequeued.map Prod.snd := by
  have hcalls := h.hands t
  rw [hhand] at hcalls
  have hmem : f ∈ callsOf t (ThreadPool.tasksOf pool.dequeued) := by
    rw [hcalls]
    exact List.mem_append_right _ (List.mem_singleton_self f)
  obtain ⟨⟨t', task⟩, hdeq, htask⟩ := List.mem_filterMap.mp (mem_callsOf.mp hmem)
  obtain ⟨f', rfl, hf⟩ := Option.map_eq_some_iff.mp htask
  cases hf
  exact List.mem_map.mpr ⟨_, hdeq, rfl⟩

/-! ## One event of the pool -/

/-- `main`'s calls, and the jobs that are left. -/
theorem Ordered.calls (h : Ordered main tasks s) {a : PoolEvent Tid (Job A)}
    (hallowed : s.Allowed main (.pool a)) (hd : ThreadPool.Deed s.pool s'.pool a)
    (hlatch : s'.latch = s.latch) (htodo : s'.todo = remaining s.todo a) :
    (∀ t, t ≠ main → s'.pool.calls t = .none) ∧
      s'.pool.submitted ++ (s'.pool.calls main).pending ++ s'.todo.map some =
        (jobs tasks).map some ∧
      (s'.pool.calls main = .stopping ∨ 0 < s'.pool.stops → main ∈ s'.latch.waited) := by
  have hmain : ∀ {t}, s.pool.calls t ≠ .none → t = main := fun {t} ht =>
    of_not_not fun hne => ht (h.others t hne)
  have hothers : ∀ {x : PoolCall (Job A)}, s'.pool.calls = Function.update s.pool.calls main x →
      ∀ t, t ≠ main → s'.pool.calls t = .none := by
    intro x hx t ht
    rw [hx, Function.update_of_ne ht]
    exact h.others t ht
  -- no call of `stop` begins or ends: those that have returned did so after `wait`
  have hbefore : ∀ {x : PoolCall (Job A)}, x ≠ .stopping →
      x = .stopping ∨ 0 < s.pool.stops → main ∈ s.latch.waited :=
    fun hx hstop => h.stopping (Or.inr (hstop.resolve_left hx))
  have hsub := h.submitted
  rw [hlatch, htodo]
  cases hd with
  | quiet hrun hcalls hsubmitted hstops =>
      have hrem : remaining s.todo a = s.todo := by
        cases a with
        | run t task => exact absurd (hrun rfl) h.workers
        | _ => rfl
      rw [hcalls, hsubmitted, hstops, hrem]
      exact ⟨h.others, hsub, h.stopping⟩
  | @run t task hnone hcalls hsubmitted hstops =>
      obtain ⟨ht, htask, hhead⟩ := hallowed
      rw [ht] at hcalls hnone
      refine ⟨hothers hcalls, ?_, ?_⟩
      · cases hjobs : s.todo with
        | nil =>
            rw [hjobs] at hhead
            exact absurd hhead.symm htask
        | cons job rest =>
            rw [hjobs] at hhead hsub
            rw [hnone] at hsub
            rw [hcalls, Function.update_self, hsubmitted, ← hhead, ← hsub]
            simp [PoolCall.pending, remaining]
      · rw [hcalls, Function.update_self, hstops]
        exact hbefore nofun
  | @push t task hpushing hcalls hsubmitted hstops =>
      obtain rfl := hmain (by rw [hpushing]; nofun)
      refine ⟨hothers hcalls, ?_, ?_⟩
      · rw [hpushing] at hsub
        rw [hcalls, Function.update_self, hsubmitted, ← hsub]
        simp [PoolCall.pending, remaining]
      · rw [hcalls, Function.update_self, hstops]
        exact hbefore nofun
  | @returned t hpushed hcalls hsubmitted hstops =>
      obtain rfl := hmain (by rw [hpushed]; nofun)
      refine ⟨hothers hcalls, ?_, ?_⟩
      · rw [hpushed] at hsub
        rw [hcalls, Function.update_self, hsubmitted, ← hsub]
        rfl
      · rw [hcalls, Function.update_self, hstops]
        exact hbefore nofun
  | @stop t hnone hcalls hsubmitted hstops =>
      obtain ⟨ht, hwaited, -⟩ := hallowed
      rw [ht] at hcalls hnone
      refine ⟨hothers hcalls, ?_, fun _ => hwaited⟩
      rw [hnone] at hsub
      rw [hcalls, Function.update_self, hsubmitted, ← hsub]
      rfl
  | @stopped t hstopping hcalls hsubmitted hstops =>
      obtain rfl := hmain (by rw [hstopping]; nofun)
      refine ⟨hothers hcalls, ?_, fun _ => h.stopping (Or.inl hstopping)⟩
      rw [hstopping] at hsub
      rw [hcalls, Function.update_self, hsubmitted, ← hsub]
      rfl

/-- The worker in `countDown` stays in its task. -/
theorem Ordered.counting_pool (h : Ordered main tasks s) {a : PoolEvent Tid (Job A)}
    (hsound : s.pool.Sound) (hallowed : s.Allowed main (.pool a))
    (m : ThreadPool.Move s.pool a s'.pool) (hlatch : s'.latch = s.latch) (t : Tid)
    (ht : (s'.latch.pc t).counting = true) :
    t ∉ s'.latch.counted ∧ s'.pool.pc t = .user ⟨some .countDown, []⟩ := by
  rw [hlatch] at ht ⊢
  obtain ⟨hcounted, hpc⟩ := h.counting t ht
  have hworker : t ≠ main := by
    rintro rfl
    exact h.client ((hsound.workers t).mp (by rw [hpc]; rfl))
  refine ⟨hcounted, ?_⟩
  rcases ThreadPool.user_step m hpc with hstay | rfl | rfl | ⟨task, rfl⟩
  · exact hstay
  · exact absurd (hallowed hpc) hcounted
  · exact absurd hallowed.1 hworker
  · exact absurd hallowed.1 hworker

/-- The `stop` that returns is `main`'s, which is no worker. -/
theorem Ordered.joined_step (h : Ordered main tasks s)
    (hs : ThreadPool.system.Reachable s.pool) {a : PoolEvent Tid (Job A)}
    (m : ThreadPool.Move s.pool a s'.pool) (hstops : 0 < s'.pool.stops) :
    ∀ t ∈ s'.pool.threads, s'.pool.pc t = .exited := by
  intro t ht
  rw [ThreadPool.threads_step m] at ht
  refine ThreadPool.exited_step m ?_
  rcases ThreadPool.stops_step m with hsame | ⟨u, c, hpc⟩
  · exact h.joined (hsame ▸ hstops) t ht
  · have hu : u = main := by
      by_contra hne
      have hnone := h.others u hne
      rw [ThreadPool.calls, hpc] at hnone
      cases hnone
    exact (ThreadPool.joined_invariant.reachable hs).exited hpc (hu ▸ h.client) t ht

/-- An event of the latch: when the count falls to zero, it is the last job
that does it. -/
theorem Ordered.latch (h : Ordered main tasks s) {e : LatchEvent Tid} (hsound : s.pool.Sound)
    (hallowed : s.Allowed main (.latch e)) :
    Ordered main tasks { s with latch := s.latch.next e } where
  workers := h.workers
  client := h.client
  others := h.others
  submitted := h.submitted
  stopping hstop := CountDownLatch.waited_mono (h.stopping hstop)
  joined := h.joined
  opened := h.opened.next
  counting := by
    intro t ht
    rcases CountDownLatch.counting_next ht with ⟨rfl, hcounted⟩ | ⟨ht, hcounted⟩
    · exact ⟨hcounted ▸ hallowed.2, hallowed.1⟩
    · obtain ⟨hnot, hpc⟩ := h.counting t ht
      exact ⟨fun hmem => hnot (hcounted hmem), hpc⟩
  counted := by
    intro hcount
    rcases CountDownLatch.count_next (s := s.latch) (e := e) with hsame | ⟨t, -, hpc, -⟩
    · exact h.counted (hsame ▸ hcount)
    · obtain ⟨-, huser⟩ := h.counting t (by rw [hpc]; rfl)
      exact dequeued_of_hand hsound (t := t) (by rw [huser]; rfl)

/-- **One event.** -/
theorem Ordered.step (h : Ordered main tasks s) (hs : ThreadPool.system.Reachable s.pool)
    {a : BatchEvent Tid A} (he : s.Enabled main a) (hn : s.next a = .ok s') :
    Ordered main tasks s' := by
  have hsound := ThreadPool.sound_invariant.reachable hs
  cases a with
  | pool a =>
      obtain ⟨hpool, hlatch, htodo⟩ := next_pool hn
      have m := ThreadPool.move_of_next he.2 hpool
      obtain ⟨hothers, hsubmitted, hstopping⟩ :=
        h.calls he.1 (ThreadPool.deed_of_move m) hlatch htodo
      have hthreads := ThreadPool.threads_step m
      exact {
        workers := hthreads ▸ h.workers
        client := hthreads ▸ h.client
        others := hothers
        submitted := hsubmitted
        stopping := hstopping
        joined := h.joined_step hs m
        opened := hlatch ▸ h.opened
        counting := h.counting_pool hsound he.1 m hlatch
        counted := by
          intro hcount
          rw [hlatch] at hcount
          exact ((ThreadPool.dequeued_step m).map Prod.snd).subset (h.counted hcount) }
  | latch e =>
      obtain rfl := Except.ok.inj hn
      exact h.latch hsound he.1

/-! ## Whole runs -/

theorem ordered_invariant : (system main tasks).Invariant
    fun s : BatchRun Tid A => ThreadPool.system.Reachable s.pool ∧ Ordered main tasks s :=
  pool_invariant.and (fun _ h => ordered_init h) (fun _ _ _ hs h he hn => h.step hs he hn)

/-- When the last job has been dequeued, all have. -/
theorem Ordered.all_dequeued (h : Ordered main tasks s) (hsound : s.pool.Sound)
    (hlast : some .countDown ∈ s.pool.dequeued.map Prod.snd) :
    s.pool.dequeued.map Prod.snd = (jobs tasks).map some := by
  have hprefix : s.pool.dequeued.map Prod.snd <+:
      (tasks.map .task).map some ++ [some Job.countDown] := by
    have hsub := h.submitted
    rw [hsound.fifo, List.append_assoc, List.append_assoc, jobs, List.map_append] at hsub
    exact ⟨_, hsub⟩
  rcases List.prefix_concat_iff.mp hprefix with heq | hbefore
  · rw [heq, jobs, List.map_append]
    rfl
  · obtain ⟨job, hjob, heq⟩ := List.mem_map.mp (hbefore.subset hlast)
    obtain ⟨a, -, rfl⟩ := List.mem_map.mp hjob
    cases heq

/-- **The batch is completed.** However `main` and the workers are interleaved:
the jobs are dequeued in the order they were submitted, which is that of the
program, each by one worker of the pool; when `stop` has returned, each job has
been run to its end exactly once, by the worker that dequeued it. -/
theorem batch_completed (hs : (system main tasks).Reachable s) :
    s.pool.dequeued.map Prod.snd <+: s.pool.submitted ∧
      s.pool.submitted <+: (jobs tasks).map some ∧
      (∀ e ∈ s.pool.dequeued, e.1 ∈ s.pool.threads) ∧
      (0 < s.pool.stops → s.pool.finished.Perm (ThreadPool.tasksOf s.pool.dequeued) ∧
        (s.pool.finished.map Prod.snd).Perm (jobs tasks)) := by
  obtain ⟨hpool, h⟩ := ordered_invariant.reachable hs
  have hsound := ThreadPool.sound_invariant.reachable hpool
  refine ⟨⟨_, hsound.fifo.symm⟩, ⟨_, by rw [← List.append_assoc]; exact h.submitted⟩,
    hsound.dequeued, fun hstops => ?_⟩
  have hhands : ∀ t, (s.pool.pc t).hand = [] := by
    intro t
    by_cases ht : t ∈ s.pool.threads
    · rw [h.joined hstops t ht]
      rfl
    · refine ThreadPool.hand_of_client (Bool.eq_false_iff.mpr fun hw => ?_)
      exact ht ((hsound.workers t).mp hw)
  have hperm : s.pool.finished.Perm (ThreadPool.tasksOf s.pool.dequeued) := by
    refine perm_of_callsOf fun t => ?_
    rw [hsound.hands t, hhands t, List.append_nil]
  have hwaited := h.stopping (Or.inr hstops)
  have hall := h.all_dequeued hsound (h.counted (h.opened.waited main hwaited))
  refine ⟨hperm, (hperm.map Prod.snd).trans (List.Perm.of_eq ?_)⟩
  rw [ThreadPool.tasksOf_snd, hall, List.filterMap_map]
  exact List.filterMap_some

/-- One task and two workers: worker 1 is still in the task when worker 2 counts
the latch down and `stop` begins. -/
theorem batch_completed_two : ∃ s : BatchRun (Fin 3) Nat, s.pool.stops = 1 ∧
    s.pool.dequeued = [(1, some (.task 7)), (2, some .countDown)] ∧
      (s.pool.finished.map Prod.snd).Perm [.task 7, .countDown] := by
  have h₀ : (system 0 [7]).init (⟨ThreadPool.started [1, 2], .new 1, jobs [7]⟩ :
      BatchRun (Fin 3) Nat) :=
    ⟨⟨[1, 2], by decide, by decide, by decide, ThreadPool.start_new _⟩, rfl, rfl⟩
  obtain ⟨s, hs, hp⟩ := Lts.exists_reachable_of_exec
    [.pool (.run 0 (some (.task 7))), .pool (.step 0), .pool (.step 0), .pool (.notify 0 none),
      .pool (.step 0), .pool (.run 0 (some .countDown)), .pool (.step 0), .pool (.step 0),
      .pool (.notify 0 none), .pool (.step 0),
      .latch (.wait 0), .latch (.step 0), .latch (.step 0), .latch (.step 0),
      .pool (.step 1), .pool (.step 1), .pool (.step 1), .pool (.step 1), .pool (.step 1),
      .pool (.step 2), .pool (.step 2), .pool (.step 2), .pool (.step 2), .pool (.step 2),
      .latch (.countDown 2), .latch (.step 2), .latch (.step 2), .latch (.step 2),
      .latch (.step 2), .latch (.step 2),
      .latch (.step 0), .latch (.step 0), .latch (.step 0),
      .pool (.stop 0), .pool (.step 0), .pool (.step 0), .pool (.step 0), .pool (.step 0),
      .pool (.finish 2), .pool (.step 2), .pool (.finish 1), .pool (.step 1),
      .pool (.step 0), .pool (.step 0), .pool (.step 0)]
    (fun s => s.pool.stops = 1 ∧
      s.pool.dequeued = [(1, some (.task 7)), (2, some .countDown)])
    h₀ (by decide)
  obtain ⟨hstops, hdequeued⟩ := of_decide_eq_true hp
  exact ⟨s, hstops, hdequeued, ((batch_completed hs).2.2.2 (by rw [hstops]; decide)).2⟩

end BatchRun

end Muduo
