import Muduo.Base
import Muduo.Lib.Lts
import Muduo.Lib.Threads

/-!
# `ThreadPool`

The workers run `runInThread`: while `running_` they `take` a task from the
queue and run it. Any thread may `run` a task, which appends it and signals
`cond_`, or `stop` the pool, which sets `running_` to false, wakes all who
wait on `cond_` and joins the workers; so may a task, in a worker. A step is
one statement, and the threads are interleaved between any two.

The runs begin when `start` has returned. The workers it created are then at
the first test of `running_` or past it; what they did meanwhile reads nothing
`start` had yet to write, so they are put at the test.
-/

namespace Muduo

open Lib Lib.Threads

/-- User code that a thread is in: the task that a worker runs, if it is one,
and the tasks that `run` runs in its caller in a pool without threads, the
innermost first. -/
structure UserCode (F : Type) where
  task : Option F
  inline : List F
deriving DecidableEq

/-- Where a thread is: in user code; in `runInThread`, at `while (running_)` or
in `take()`; in a `run`, a `stop`, with the user code that called it; done
with `runInThread`. An empty task is `none`. -/
inductive PoolPlace (Tid F : Type) where
  | user (c : UserCode F)
  | loop
  | takeLock | takeTest | takeSleep | takeWait | takeWoken | takeFront
  | takeUnlock (task : Option F)
  | runLock (task : Option F) (c : UserCode F) | runPush (task : Option F) (c : UserCode F)
  | runNotify (c : UserCode F) | runUnlock (c : UserCode F)
  | stopLock (c : UserCode F) | stopSet (c : UserCode F)
  | stopNotify (c : UserCode F) | stopUnlock (c : UserCode F)
  | joining (rest : List Tid) (c : UserCode F)
  | exited
deriving DecidableEq

/-- `assert(threads_.empty())` in `start`; an empty task is called. -/
inductive PoolFault where
  | started | badFunctionCall
deriving DecidableEq

namespace PoolPlace

variable {Tid F : Type}

/-- Does a thread there hold the mutex? -/
def inside : PoolPlace Tid F → Bool
  | .takeTest | .takeSleep | .takeFront | .takeUnlock _ => true
  | .runPush _ _ | .runNotify _ | .runUnlock _ => true
  | .stopSet _ | .stopNotify _ | .stopUnlock _ => true
  | _ => false

/-- Does a step there take the mutex? -/
def locks : PoolPlace Tid F → Bool
  | .takeLock | .takeWoken | .runLock _ _ | .stopLock _ => true
  | _ => false

/-- Is it a place of a worker? -/
def worker : PoolPlace Tid F → Bool
  | .loop | .exited => true
  | .takeLock | .takeTest | .takeSleep | .takeWait | .takeWoken | .takeFront | .takeUnlock _ => true
  | .user c | .runLock _ c | .runPush _ c | .runNotify c | .runUnlock c => c.task.isSome
  | .stopLock c | .stopSet c | .stopNotify c | .stopUnlock c | .joining _ c => c.task.isSome

/-- Is it a place of `run`, before the task is in the queue? -/
def pushes : PoolPlace Tid F → Bool
  | .runLock _ _ | .runPush _ _ => true
  | _ => false

/-- The task that a worker there has taken, if not empty, and not run to its
end. -/
def hand : PoolPlace Tid F → List F
  | .takeUnlock task => task.toList
  | .user c | .runLock _ c | .runPush _ c | .runNotify c | .runUnlock c => c.task.toList
  | .stopLock c | .stopSet c | .stopNotify c | .stopUnlock c | .joining _ c => c.task.toList
  | _ => []

def isUser : PoolPlace Tid F → Bool
  | .user _ => true
  | _ => false

def isRunNotify : PoolPlace Tid F → Bool
  | .runNotify _ => true
  | _ => false

end PoolPlace

/-- `cond_` -/
def cond {Tid F : Type} : Condition (PoolPlace Tid F) where
  asleep | .takeWait => true | _ => false
  woken | .takeWait => .takeWoken | p => p
  woken_awake p := by cases p <;> rfl
  woken_of_awake p := by cases p <;> first | exact fun _ => rfl | nofun

structure ThreadPool (Tid F : Type) where
  running : Bool
  threads : List Tid
  queue : List (Option F)
  /-- Who holds `mutex_`. -/
  holder : Option Tid
  pc : Tid → PoolPlace Tid F
  /-- What was pushed, in that order; what was popped, and by whom; the tasks
  that `runInThread` has run to their end. -/
  submitted : List (Option F)
  dequeued : List (Tid × Option F)
  finished : List (Tid × F)
  /-- The calls of `stop()` that have returned. -/
  stops : Nat

/-- User code of `t` calls `run` or `stop`; a task that `t` runs returns; `t`
makes a step; `t` signals (and `w`, if any, is woken); `t` wakes up without a
signal. -/
inductive PoolEvent (Tid F : Type) where
  | run (t : Tid) (task : Option F)
  | stop (t : Tid)
  | finish (t : Tid)
  | step (t : Tid)
  | notify (t : Tid) (w : Option Tid)
  | spurious (t : Tid)

/-- The thread that makes the event. -/
def PoolEvent.actor {Tid F : Type} : PoolEvent Tid F → Tid
  | .run t _ | .stop t | .finish t | .step t | .notify t _ | .spurious t => t

namespace ThreadPool

variable {Tid F : Type} [DecidableEq Tid]

def new : ThreadPool Tid F := ⟨false, [], [], none, fun _ => .user ⟨none, []⟩, [], [], [], 0⟩

/-- `start(ws.length)`, the threads created being `ws`. -/
def start (s : ThreadPool Tid F) (ws : List Tid) : Except PoolFault (ThreadPool Tid F) := do
  check (s.threads = []) .started
  return { s with
    running := true, threads := ws, pc := fun t => if t ∈ ws then .loop else s.pc t }

def go (s : ThreadPool Tid F) (t : Tid) (p : PoolPlace Tid F) : ThreadPool Tid F :=
  { s with pc := Function.update s.pc t p }

def lock (s : ThreadPool Tid F) (t : Tid) (p : PoolPlace Tid F) : ThreadPool Tid F :=
  { s with holder := some t }.go t p

def unlock (s : ThreadPool Tid F) (t : Tid) (p : PoolPlace Tid F) : ThreadPool Tid F :=
  { s with holder := none }.go t p

/-- The statement that `t` is at. -/
def advance (s : ThreadPool Tid F) (t : Tid) : PoolPlace Tid F → ThreadPool Tid F
  | .loop => s.go t (if s.running then .takeLock else .exited)
  | .takeLock => s.lock t .takeTest
  | .takeTest => s.go t (if s.queue.isEmpty && s.running then .takeSleep else .takeFront)
  | .takeSleep => s.unlock t .takeWait
  | .takeWoken => s.lock t .takeTest
  | .takeFront =>
      match s.queue with
      | [] => s.go t (.takeUnlock none)
      | task :: queue => { s with
          queue := queue, dequeued := s.dequeued ++ [(t, task)] }.go t (.takeUnlock task)
  | .takeUnlock (some f) => s.unlock t (.user ⟨some f, []⟩)
  | .takeUnlock none => s.unlock t .loop
  | .runLock task c => s.lock t (.runPush task c)
  | .runPush task c => { s with
      queue := s.queue ++ [task], submitted := s.submitted ++ [task] }.go t (.runNotify c)
  | .runUnlock c => s.unlock t (.user c)
  | .stopLock c => s.lock t (.stopSet c)
  | .stopSet c => { s with running := false }.go t (.stopNotify c)
  | .stopNotify c => { s with pc := cond.notifyAll s.pc }.go t (.stopUnlock c)
  | .stopUnlock c => s.unlock t (.joining s.threads c)
  | .joining (_ :: rest) c => s.go t (.joining rest c)
  | .joining [] c => { s with stops := s.stops + 1 }.go t (.user c)
  | .user _ | .takeWait | .runNotify _ | .exited => s

/-- May `t`, at `p`, make a step of its own? A join waits for its thread; of
itself a thread is told `EDEADLK` at once, which `stop` ignores. -/
def canStep (s : ThreadPool Tid F) (t : Tid) : PoolPlace Tid F → Bool
  | .user _ | .takeWait | .runNotify _ | .exited => false
  | .joining (w :: _) _ => decide (w = t) || match s.pc w with | .exited => true | _ => false
  | p => !p.locks || s.holder.isNone

/-- `task()` ends, in the worker that took it or in the caller of `run`. -/
def leave (s : ThreadPool Tid F) (t : Tid) : UserCode F → ThreadPool Tid F
  | ⟨task, _ :: inline⟩ => s.go t (.user ⟨task, inline⟩)
  | ⟨some f, []⟩ => { s with finished := s.finished ++ [(t, f)] }.go t .loop
  | ⟨none, []⟩ => s

/-- `run(task)` -/
def run (s : ThreadPool Tid F) (t : Tid) (task : Option F) (c : UserCode F) :
    Except PoolFault (ThreadPool Tid F) :=
  if s.threads.isEmpty then
    match task with
    | none => .error .badFunctionCall
    | some f => .ok (s.go t (.user ⟨c.task, f :: c.inline⟩))
  else .ok (s.go t (.runLock task c))

def Enabled (s : ThreadPool Tid F) : PoolEvent Tid F → Prop
  | .run t _ => (s.pc t).isUser = true
  | .stop t => (s.pc t).isUser = true
  | .finish t => (s.pc t).isUser = true ∧ s.pc t ≠ .user ⟨none, []⟩
  | .step t => s.canStep t (s.pc t) = true
  | .notify t w => (s.pc t).isRunNotify = true ∧ cond.MayNotify s.pc w
  | .spurious t => cond.asleep (s.pc t) = true

def next (s : ThreadPool Tid F) (a : PoolEvent Tid F) : Except PoolFault (ThreadPool Tid F) :=
  match a with
  | .run t task =>
      match s.pc t with
      | .user c => s.run t task c
      | _ => .ok s
  | .stop t =>
      match s.pc t with
      | .user c => .ok (s.go t (.stopLock c))
      | _ => .ok s
  | .finish t =>
      match s.pc t with
      | .user c => .ok (s.leave t c)
      | _ => .ok s
  | .step t => .ok (s.advance t (s.pc t))
  | .notify t w =>
      match s.pc t with
      | .runNotify c => .ok ({ s with pc := cond.notify s.pc w }.go t (.runUnlock c))
      | _ => .ok s
  | .spurious t => .ok { s with pc := cond.notify s.pc (some t) }

/-- A pool that has been started, with any number of threads about. -/
def system : Lts (ThreadPool Tid F) (PoolEvent Tid F) PoolFault where
  init s := ∃ ws : List Tid, ws.Nodup ∧ new.start ws = .ok s
  enabled := Enabled
  next := next

instance [Fintype Tid] [DecidableEq F] (s : ThreadPool Tid F) : ∀ a, Decidable (system.enabled s a)
  | .run _ _ => inferInstanceAs (Decidable (_ = true))
  | .stop _ => inferInstanceAs (Decidable (_ = true))
  | .finish t => inferInstanceAs (Decidable (_ ∧ s.pc t ≠ .user ⟨none, []⟩))
  | .step _ => inferInstanceAs (Decidable (_ = true))
  | .notify _ w => inferInstanceAs (Decidable (_ ∧ cond.MayNotify s.pc w))
  | .spurious _ => inferInstanceAs (Decidable (_ = true))

/-- The pool when `start` has returned. -/
def started (ws : List Tid) : ThreadPool Tid F := { (new : ThreadPool Tid F) with
  running := true, threads := ws, pc := fun t => if t ∈ ws then .loop else .user ⟨none, []⟩ }

theorem start_new (ws : List Tid) : (new : ThreadPool Tid F).start ws = .ok (started ws) := rfl

theorem start_eq {s : ThreadPool Tid F} {ws : List Tid} (h : new.start ws = .ok s) :
    s = started ws :=
  (Except.ok.inj ((start_new ws).symm.trans h)).symm

theorem start_place {s : ThreadPool Tid F} {ws : List Tid} (h : new.start ws = .ok s) (t : Tid) :
    (t ∈ s.threads ∧ s.pc t = .loop) ∨ (t ∉ s.threads ∧ s.pc t = .user ⟨none, []⟩) := by
  rw [start_eq h]
  by_cases hw : t ∈ ws
  · exact Or.inl ⟨hw, if_pos hw⟩
  · exact Or.inr ⟨hw, if_neg hw⟩

/-! ## All an event can do -/

variable {s s' : ThreadPool Tid F} {a : PoolEvent Tid F} {t u : Tid} {p : PoolPlace Tid F}

/-- A step that changes nothing but where the thread `t` is. -/
inductive Hop (s : ThreadPool Tid F) (t : Tid) : PoolPlace Tid F → PoolPlace Tid F → Prop where
  | enter : s.running = true → Hop s t .loop .takeLock
  | exit : s.running = false → Hop s t .loop .exited
  | sleep : s.queue = [] → s.running = true → Hop s t .takeTest .takeSleep
  | front : Hop s t .takeTest .takeFront
  | nothing : s.queue = [] → Hop s t .takeFront (.takeUnlock none)
  | joined {w : Tid} {rest : List Tid} {c : UserCode F} : w = t ∨ s.pc w = .exited →
      Hop s t (.joining (w :: rest) c) (.joining rest c)

/-- The mutex is taken, for the first time or again. -/
inductive Locks : PoolPlace Tid F → PoolPlace Tid F → Prop where
  | take : Locks .takeLock .takeTest
  | takeAgain : Locks .takeWoken .takeTest
  | run (task : Option F) (c : UserCode F) : Locks (.runLock task c) (.runPush task c)
  | stop (c : UserCode F) : Locks (.stopLock c) (.stopSet c)

/-- The mutex is let go. -/
inductive Unlocks (threads : List Tid) : PoolPlace Tid F → PoolPlace Tid F → Prop where
  | sleep : Unlocks threads .takeSleep .takeWait
  | task (f : F) : Unlocks threads (.takeUnlock (some f)) (.user ⟨some f, []⟩)
  | noTask : Unlocks threads (.takeUnlock none) .loop
  | run (c : UserCode F) : Unlocks threads (.runUnlock c) (.user c)
  | stop (c : UserCode F) : Unlocks threads (.stopUnlock c) (.joining threads c)

/-- User code makes a call or returns from a task it runs inline. -/
inductive Calls (s : ThreadPool Tid F) (t : Tid) (c : UserCode F) :
    PoolEvent Tid F → PoolPlace Tid F → Prop where
  | run (task : Option F) : s.threads ≠ [] → Calls s t c (.run t task) (.runLock task c)
  | inCaller (f : F) : s.threads = [] →
      Calls s t c (.run t (some f)) (.user ⟨c.task, f :: c.inline⟩)
  | stop : Calls s t c (.stop t) (.stopLock c)
  | returned (f : F) (inline : List F) : c.inline = f :: inline →
      Calls s t c (.finish t) (.user ⟨c.task, inline⟩)

inductive Move (s : ThreadPool Tid F) : PoolEvent Tid F → ThreadPool Tid F → Prop where
  | call {t : Tid} {c : UserCode F} {a : PoolEvent Tid F} {p : PoolPlace Tid F} :
      s.pc t = .user c → Calls s t c a p → Move s a (s.go t p)
  | hop {t : Tid} {p : PoolPlace Tid F} : Hop s t (s.pc t) p → Move s (.step t) (s.go t p)
  | locked {t : Tid} {p : PoolPlace Tid F} : s.holder = none → Locks (s.pc t) p →
      Move s (.step t) (s.lock t p)
  | unlocked {t : Tid} {p : PoolPlace Tid F} : Unlocks s.threads (s.pc t) p →
      Move s (.step t) (s.unlock t p)
  | pop {t : Tid} {task : Option F} {queue : List (Option F)} : s.pc t = .takeFront →
      s.queue = task :: queue → Move s (.step t) ({ s with
        queue := queue, dequeued := s.dequeued ++ [(t, task)] }.go t (.takeUnlock task))
  | finished {t : Tid} {f : F} : s.pc t = .user ⟨some f, []⟩ →
      Move s (.finish t) ({ s with finished := s.finished ++ [(t, f)] }.go t .loop)
  | push {t : Tid} {task : Option F} {c : UserCode F} : s.pc t = .runPush task c →
      Move s (.step t) ({ s with
        queue := s.queue ++ [task], submitted := s.submitted ++ [task] }.go t (.runNotify c))
  | notified {t : Tid} {c : UserCode F} {w : Option Tid} : s.pc t = .runNotify c →
      cond.MayNotify s.pc w →
      Move s (.notify t w) ({ s with pc := cond.notify s.pc w }.go t (.runUnlock c))
  | shut {t : Tid} {c : UserCode F} : s.pc t = .stopSet c →
      Move s (.step t) ({ s with running := false }.go t (.stopNotify c))
  | notifiedAll {t : Tid} {c : UserCode F} : s.pc t = .stopNotify c →
      Move s (.step t) ({ s with pc := cond.notifyAll s.pc }.go t (.stopUnlock c))
  | stopped {t : Tid} {c : UserCode F} : s.pc t = .joining [] c →
      Move s (.step t) ({ s with stops := s.stops + 1 }.go t (.user c))
  | spurious {t : Tid} : cond.asleep (s.pc t) = true →
      Move s (.spurious t) { s with pc := cond.notify s.pc (some t) }

theorem move_of_step (hstep : s.canStep t (s.pc t) = true) :
    Move s (.step t) (s.advance t (s.pc t)) := by
  have hfree : (s.pc t).locks = true → s.holder = none := by
    intro hl
    cases hpc : s.pc t <;> rw [hpc] at hstep hl <;> cases hl <;>
      exact Option.isNone_iff_eq_none.mp hstep
  generalize hpc : s.pc t = p at hstep hfree ⊢
  cases p with
  | user | takeWait | runNotify | exited => cases hstep
  | loop =>
      rw [advance]
      cases hrun : s.running with
      | true => exact .hop (hpc ▸ .enter hrun)
      | false => exact .hop (hpc ▸ .exit hrun)
  | takeLock => exact .locked (hfree rfl) (hpc ▸ .take)
  | takeTest =>
      rw [advance]
      split
      · rename_i h
        rw [Bool.and_eq_true, List.isEmpty_iff] at h
        exact .hop (hpc ▸ .sleep h.1 h.2)
      · exact .hop (hpc ▸ .front)
  | takeSleep => exact .unlocked (hpc ▸ .sleep)
  | takeWoken => exact .locked (hfree rfl) (hpc ▸ .takeAgain)
  | takeFront =>
      rw [advance]
      split
      · exact .hop (hpc ▸ .nothing ‹_›)
      · exact .pop hpc ‹_›
  | takeUnlock task =>
      cases task with
      | none => exact .unlocked (hpc ▸ .noTask)
      | some f => exact .unlocked (hpc ▸ .task f)
  | runLock task c => exact .locked (hfree rfl) (hpc ▸ .run task c)
  | runPush task c => exact .push hpc
  | runUnlock c => exact .unlocked (hpc ▸ .run c)
  | stopLock c => exact .locked (hfree rfl) (hpc ▸ .stop c)
  | stopSet c => exact .shut hpc
  | stopNotify c => exact .notifiedAll hpc
  | stopUnlock c => exact .unlocked (hpc ▸ .stop c)
  | joining rest c =>
      cases rest with
      | nil => exact .stopped hpc
      | cons w rest =>
          refine .hop (hpc ▸ .joined ?_)
          rw [canStep, Bool.or_eq_true, decide_eq_true_eq] at hstep
          refine hstep.imp_right fun hexited => ?_
          split at hexited
          · assumption
          · cases hexited

theorem move_of_next (he : s.Enabled a) (hn : s.next a = .ok s') : Move s a s' := by
  cases a with
  | run t task =>
      simp only [Enabled, next] at he hn
      cases hpc : s.pc t with
      | user c =>
          simp only [hpc, run] at hn
          split at hn
          · rename_i hthreads
            cases task with
            | none => cases hn
            | some f =>
                obtain rfl := Except.ok.inj hn
                exact .call hpc (.inCaller f (List.isEmpty_iff.mp hthreads))
          · rename_i hthreads
            obtain rfl := Except.ok.inj hn
            exact .call hpc (.run task fun h => hthreads (List.isEmpty_iff.mpr h))
      | _ =>
          rw [hpc] at he
          cases he
  | stop t =>
      simp only [Enabled, next] at he hn
      cases hpc : s.pc t with
      | user c =>
          simp only [hpc] at hn
          obtain rfl := Except.ok.inj hn
          exact .call hpc .stop
      | _ =>
          rw [hpc] at he
          cases he
  | finish t =>
      simp only [Enabled, next] at he hn
      cases hpc : s.pc t with
      | user c =>
          simp only [hpc] at he hn
          obtain rfl := Except.ok.inj hn
          match c, hpc, he with
          | ⟨task, f :: inline⟩, hpc, _ => exact .call hpc (.returned f inline rfl)
          | ⟨some f, []⟩, hpc, _ => exact .finished hpc
          | ⟨none, []⟩, hpc, he => exact absurd rfl he.2
      | _ =>
          rw [hpc] at he
          cases he.1
  | step t =>
      obtain rfl := Except.ok.inj hn
      exact move_of_step he
  | notify t w =>
      simp only [Enabled, next] at he hn
      cases hpc : s.pc t with
      | runNotify c =>
          simp only [hpc] at hn
          obtain rfl := Except.ok.inj hn
          exact .notified hpc he.2
      | _ =>
          rw [hpc] at he
          cases he.1
  | spurious t =>
      obtain rfl := Except.ok.inj hn
      exact .spurious he

theorem threads_step (m : Move s a s') : s'.threads = s.threads := by
  cases m <;> rfl

theorem dequeued_step (m : Move s a s') : s.dequeued <+: s'.dequeued := by
  cases m with
  | pop _ _ => exact List.prefix_append ..
  | _ => exact List.prefix_rfl

/-- A thread that does not move stays where it is, or is woken there. -/
theorem bystander (m : Move s a s') (h : u ≠ a.actor) :
    s'.pc u = s.pc u ∨ s'.pc u = cond.woken (s.pc u) := by
  have hstay : ∀ (pc : Tid → PoolPlace Tid F) {t p}, u ≠ t → Function.update pc t p u = pc u :=
    fun pc t p h => Function.update_of_ne h p pc
  cases m with
  | call _ hc => cases hc <;> exact Or.inl (hstay _ h)
  | @notified t c w _ _ =>
      have hu : Function.update (cond.notify s.pc w) t (.runUnlock c) u = cond.notify s.pc w u :=
        hstay _ h
      exact (Condition.notify_cases s.pc u w).imp hu.trans hu.trans
  | notifiedAll _ => exact Or.inr (hstay _ h)
  | @spurious t _ => exact Condition.notify_cases s.pc u (some t)
  | _ => exact Or.inl (hstay _ h)

/-! ## The mutex -/

/-- What a thread there has made sure of, and relies on. -/
def Sure (s : ThreadPool Tid F) : PoolPlace Tid F → Prop
  | .takeSleep => s.queue = [] ∧ s.running = true
  | _ => True

/-- Nobody but the holder of the mutex is inside, and what the holder has
tested still holds. -/
structure Locked (s : ThreadPool Tid F) : Prop where
  mutex : Exclusive PoolPlace.inside s.holder s.pc
  sure : ∀ t, s.Sure (s.pc t)

omit [DecidableEq Tid] in
theorem sure_of_outside (s : ThreadPool Tid F) (p : PoolPlace Tid F) (hp : p.inside = false) :
    s.Sure p := by
  cases p <;> trivial

omit [DecidableEq Tid] in
theorem inside_woken (q : PoolPlace Tid F) : (cond.woken q).inside = q.inside := by
  cases q <;> rfl

theorem locked_start {ws : List Tid} (h : new.start ws = .ok s) : Locked s := by
  have hplace := start_place h
  rw [start_eq h] at hplace ⊢
  constructor
  · intro t
    rcases hplace t with ⟨-, hpc⟩ | ⟨-, hpc⟩ <;> rw [hpc] <;> exact ⟨nofun, nofun⟩
  · intro t
    rcases hplace t with ⟨-, hpc⟩ | ⟨-, hpc⟩ <;> rw [hpc] <;> trivial

theorem Locked.move (h : Locked s) {holder : Option Tid}
    (hmutex : Exclusive PoolPlace.inside holder (Function.update s.pc t p)) (hsure : s.Sure p) :
    Locked ({ s with holder := holder }.go t p) :=
  ⟨hmutex, (Function.forall_update_iff s.pc _).mpr ⟨hsure, fun u _ => h.sure u⟩⟩

/-- A thread inside may change what the mutex protects. -/
theorem Locked.inside (h : Locked s) {s₁ : ThreadPool Tid F} (ht : (s.pc t).inside = true)
    (hpc : s₁.pc = s.pc) (hholder : s₁.holder = s.holder) (hin : p.inside = true)
    (hsure : s₁.Sure p) : Locked (s₁.go t p) := by
  constructor
  · change Exclusive _ s₁.holder (Function.update s₁.pc t p)
    rw [hpc, hholder]
    exact h.mutex.stay (hin.trans ht.symm)
  · change ∀ u, s₁.Sure (Function.update s₁.pc t p u)
    rw [hpc]
    exact h.mutex.known s₁.sure_of_outside ht hsure

theorem Locked.notify (h : Locked s) (w : Option Tid) :
    Locked { s with pc := cond.notify s.pc w } where
  mutex := h.mutex.notify inside_woken w
  sure := Condition.forall_notify (K := fun _ => s.Sure)
    (fun _ q hq => by cases q <;> exact hq) h.sure w

omit [DecidableEq Tid] in
theorem Locked.notifyAll (h : Locked s) : Locked { s with pc := cond.notifyAll s.pc } where
  mutex := h.mutex.notifyAll inside_woken
  sure t := by
    have hsure := h.sure t
    simp only [Condition.notifyAll]
    cases hpc : s.pc t <;> rw [hpc] at hsure <;> exact hsure

theorem Locked.step (h : Locked s) (m : Move s a s') : Locked s' := by
  cases m with
  | call hpc hc => cases hc <;> exact h.move (h.mutex.stay (by rw [hpc]; rfl)) trivial
  | @hop t p hop =>
      generalize hpc : s.pc t = q at hop
      cases hop with
      | sleep hqueue hrun => exact h.move (h.mutex.stay (by rw [hpc]; rfl)) ⟨hqueue, hrun⟩
      | _ => exact h.move (h.mutex.stay (by rw [hpc]; rfl)) trivial
  | @locked t p hfree hl =>
      have hmutex := h.mutex
      rw [hfree] at hmutex
      generalize hpc : s.pc t = q at hl
      cases hl <;> exact h.move (hmutex.acquire rfl) trivial
  | @unlocked t p hu =>
      generalize hpc : s.pc t = q at hu
      cases hu <;> exact h.move (h.mutex.release (by rw [hpc]; rfl) rfl) trivial
  | pop hpc _ => exact h.inside (by rw [hpc]; rfl) rfl rfl rfl trivial
  | @finished t f hpc =>
      have h' : Locked (s.go t .loop) := h.move (h.mutex.stay (by rw [hpc]; rfl)) trivial
      exact ⟨h'.mutex, h'.sure⟩
  | push hpc => exact h.inside (by rw [hpc]; rfl) rfl rfl rfl trivial
  | @notified t c w hpc _ =>
      have hpc' : cond.notify s.pc w t = .runNotify c := Condition.notify_eq hpc rfl
      exact (h.notify w).inside (by simp only [hpc']; rfl) rfl rfl rfl trivial
  | shut hpc => exact h.inside (by rw [hpc]; rfl) rfl rfl rfl trivial
  | @notifiedAll t c hpc =>
      have hpc' : cond.notifyAll s.pc t = .stopNotify c := Condition.notifyAll_eq hpc rfl
      exact h.notifyAll.inside (by simp only [hpc']; rfl) rfl rfl rfl trivial
  | @stopped t c hpc =>
      have h' : Locked (s.go t (.user c)) := h.move (h.mutex.stay (by rw [hpc]; rfl)) trivial
      exact ⟨h'.mutex, h'.sure⟩
  | spurious _ => exact h.notify _

/-! ## The workers and their tasks -/

omit [DecidableEq Tid] in
theorem worker_woken (q : PoolPlace Tid F) : (cond.woken q).worker = q.worker := by
  cases q <;> rfl

omit [DecidableEq Tid] in
theorem hand_woken (q : PoolPlace Tid F) : (cond.woken q).hand = q.hand := by
  cases q <;> rfl

omit [DecidableEq Tid] in
theorem pushes_woken (q : PoolPlace Tid F) : (cond.woken q).pushes = q.pushes := by
  cases q <;> rfl

/-- The tasks, other than empty ones, that were dequeued. -/
def tasksOf (dequeued : List (Tid × Option F)) : List (Tid × F) :=
  dequeued.filterMap fun e => e.2.map (e.1, ·)

/-- The workers are those created; there are tasks only in a pool that has
threads; what was submitted is what was dequeued and then the queue, in
order; every worker has run to their end, in order, the tasks it dequeued,
but for the one it has in hand. -/
structure Sound (s : ThreadPool Tid F) : Prop where
  workers : ∀ t, (s.pc t).worker = true ↔ t ∈ s.threads
  pushes : ∀ t, (s.pc t).pushes = true → s.threads ≠ []
  queued : s.queue ≠ [] → s.threads ≠ []
  fifo : s.submitted = s.dequeued.map Prod.snd ++ s.queue
  dequeued : ∀ e ∈ s.dequeued, e.1 ∈ s.threads
  hands : InHand PoolPlace.hand (tasksOf s.dequeued) s.finished s.pc

theorem sound_start {ws : List Tid} (h : new.start ws = .ok s) : Sound s := by
  have hplace := start_place h
  rw [start_eq h] at hplace ⊢
  refine ⟨fun t => ?_, fun t ht => ?_, nofun, rfl, nofun, fun t => ?_⟩
  · rcases hplace t with ⟨hw, hpc⟩ | ⟨hw, hpc⟩
    · exact ⟨fun _ => hw, fun _ => by rw [hpc]; rfl⟩
    · rw [hpc]
      exact ⟨nofun, fun hmem => absurd hmem hw⟩
  · rcases hplace t with ⟨-, hpc⟩ | ⟨-, hpc⟩ <;> rw [hpc] at ht <;> cases ht
  · rcases hplace t with ⟨-, hpc⟩ | ⟨-, hpc⟩ <;> rw [hpc] <;> rfl

theorem Sound.workers_update (h : Sound s) (hp : p.worker = (s.pc t).worker) (u : Tid) :
    (Function.update s.pc t p u).worker = true ↔ u ∈ s.threads := by
  rw [apply_update hp]
  exact h.workers u

theorem Sound.pushes_update (h : Sound s) (hp : p.pushes = true → s.threads ≠ []) :
    ∀ u, (Function.update s.pc t p u).pushes = true → s.threads ≠ [] :=
  (Function.forall_update_iff s.pc (p := fun _ q => PoolPlace.pushes q = true → _)).mpr
    ⟨hp, fun u _ => h.pushes u⟩

/-- A step that moves no task. -/
theorem Sound.move (h : Sound s) {running : Bool} {holder : Option Tid} {stops : Nat}
    (hworker : p.worker = (s.pc t).worker) (hpushes : p.pushes = true → s.threads ≠ [])
    (hhand : p.hand = (s.pc t).hand) :
    Sound ({ s with running := running, holder := holder, stops := stops }.go t p) where
  workers := h.workers_update hworker
  pushes := h.pushes_update hpushes
  queued := h.queued
  fifo := h.fifo
  dequeued := h.dequeued
  hands := h.hands.same hhand

theorem Sound.notify (h : Sound s) (w : Option Tid) :
    Sound { s with pc := cond.notify s.pc w } where
  workers u := by
    rw [Condition.apply_notify worker_woken]
    exact h.workers u
  pushes u := by
    rw [Condition.apply_notify pushes_woken]
    exact h.pushes u
  queued := h.queued
  fifo := h.fifo
  dequeued := h.dequeued
  hands := h.hands.notify hand_woken w

theorem Sound.notifyAll (h : Sound s) : Sound { s with pc := cond.notifyAll s.pc } where
  workers u := (iff_of_eq (congrArg (· = true) (worker_woken _))).trans (h.workers u)
  pushes u hu := h.pushes u ((pushes_woken _).symm.trans hu)
  queued := h.queued
  fifo := h.fifo
  dequeued := h.dequeued
  hands u := (h.hands u).trans (congrArg _ (hand_woken _).symm)

omit [DecidableEq Tid] in
theorem hand_of_client (h : p.worker = false) : p.hand = [] := by
  have hnone : ∀ c : UserCode F, c.task.isSome = false → c.task.toList = [] := by
    rintro ⟨_ | f, _⟩ hc
    · rfl
    · cases hc
  cases p with
  | user c | runLock _ c | runPush _ c | runNotify c | runUnlock c => exact hnone c h
  | stopLock c | stopSet c | stopNotify c | stopUnlock c | joining _ c => exact hnone c h
  | takeUnlock task => cases h
  | _ => rfl

omit [DecidableEq Tid] in
theorem tasksOf_snd (l : List (Tid × Option F)) :
    (tasksOf l).map Prod.snd = (l.map Prod.snd).filterMap id := by
  rw [tasksOf, List.map_filterMap, List.filterMap_map]
  refine List.filterMap_congr fun e _ => ?_
  obtain ⟨t, task⟩ := e
  cases task <;> rfl

omit [DecidableEq Tid] in
theorem tasksOf_snoc (l : List (Tid × Option F)) (t : Tid) (task : Option F) :
    tasksOf (l ++ [(t, task)]) = tasksOf l ++ task.toList.map (t, ·) := by
  cases task <;> simp [tasksOf]

theorem Sound.pop (h : Sound s) {task : Option F} {queue : List (Option F)}
    (hpc : s.pc t = .takeFront) (hqueue : s.queue = task :: queue) :
    Sound ({ s with
      queue := queue, dequeued := s.dequeued ++ [(t, task)] }.go t (.takeUnlock task)) := by
  have hworker : (s.pc t).worker = true := by rw [hpc]; rfl
  exact {
    workers := h.workers_update hworker.symm
    pushes := h.pushes_update nofun
    queued := fun _ => h.queued (by rw [hqueue]; nofun)
    fifo := by
      change s.submitted = (s.dequeued ++ [(t, task)]).map Prod.snd ++ queue
      rw [h.fifo, hqueue, List.map_append, List.append_assoc]
      rfl
    dequeued := by
      intro e he
      rcases List.mem_append.mp he with he | he
      · exact h.dequeued e he
      · rw [List.mem_singleton.mp he]
        exact (h.workers t).mp hworker
    hands := by
      change InHand _ (tasksOf (s.dequeued ++ [(t, task)])) _ _
      rw [tasksOf_snoc]
      cases task with
      | none =>
          rw [Option.toList_none, List.map_nil, List.append_nil]
          exact h.hands.same (by rw [hpc]; rfl)
      | some f => exact h.hands.do (by rw [hpc]; rfl) rfl }

theorem Sound.push (h : Sound s) {task : Option F} {c : UserCode F}
    (hpc : s.pc t = .runPush task c) :
    Sound ({ s with
      queue := s.queue ++ [task], submitted := s.submitted ++ [task] }.go t (.runNotify c)) where
  workers := h.workers_update (by rw [hpc]; rfl)
  pushes := h.pushes_update nofun
  queued _ := h.pushes t (by rw [hpc]; rfl)
  fifo := by
    change s.submitted ++ [task] = _ ++ (s.queue ++ [task])
    rw [h.fifo, List.append_assoc]
    rfl
  dequeued := h.dequeued
  hands := h.hands.same (by rw [hpc]; rfl)

theorem Sound.finished (h : Sound s) {f : F} (hpc : s.pc t = .user ⟨some f, []⟩) :
    Sound ({ s with finished := s.finished ++ [(t, f)] }.go t .loop) where
  workers := h.workers_update (by rw [hpc]; rfl)
  pushes := h.pushes_update nofun
  queued := h.queued
  fifo := h.fifo
  dequeued := h.dequeued
  hands := h.hands.end (by rw [hpc]; rfl) rfl

theorem Sound.step (h : Sound s) (m : Move s a s') : Sound s' := by
  have hother : ∀ {q : PoolPlace Tid F}, q.pushes = false → q.pushes = true → s.threads ≠ [] :=
    fun hq hpushes => absurd (hq.symm.trans hpushes) Bool.false_ne_true
  cases m with
  | call hpc hc =>
      cases hc with
      | run task hthreads => exact h.move (by rw [hpc]; rfl) (fun _ => hthreads) (by rw [hpc]; rfl)
      | _ => exact h.move (by rw [hpc]; rfl) (hother rfl) (by rw [hpc]; rfl)
  | @hop t p hop =>
      generalize hpc : s.pc t = q at hop
      cases hop <;> exact h.move (by rw [hpc]; rfl) (hother rfl) (by rw [hpc]; rfl)
  | @locked t p _ hl =>
      have hpushes := h.pushes t
      generalize hpc : s.pc t = q at hl hpushes
      cases hl with
      | run task c => exact h.move (by rw [hpc]; rfl) hpushes (by rw [hpc]; rfl)
      | _ => exact h.move (by rw [hpc]; rfl) (hother rfl) (by rw [hpc]; rfl)
  | @unlocked t p hu =>
      generalize hpc : s.pc t = q at hu
      cases hu <;> exact h.move (by rw [hpc]; rfl) (hother rfl) (by rw [hpc]; rfl)
  | pop hpc hqueue => exact h.pop hpc hqueue
  | finished hpc => exact h.finished hpc
  | push hpc => exact h.push hpc
  | @notified t c w hpc _ =>
      have hpc' : cond.notify s.pc w t = .runNotify c := Condition.notify_eq hpc rfl
      exact (h.notify w).move (by simp only [hpc']; rfl) (hother rfl) (by simp only [hpc']; rfl)
  | shut hpc => exact h.move (by rw [hpc]; rfl) (hother rfl) (by rw [hpc]; rfl)
  | @notifiedAll t c hpc =>
      have hpc' : cond.notifyAll s.pc t = .stopNotify c := Condition.notifyAll_eq hpc rfl
      exact h.notifyAll.move (by simp only [hpc']; rfl) (hother rfl) (by simp only [hpc']; rfl)
  | stopped hpc => exact h.move (by rw [hpc]; rfl) (hother rfl) (by rw [hpc]; rfl)
  | spurious _ => exact h.notify _

theorem sound_invariant : system.Invariant (Sound : ThreadPool Tid F → Prop) where
  init := by
    rintro s ⟨ws, -, h⟩
    exact sound_start h
  step _ _ _ h he hn := h.step (move_of_next he hn)

theorem locked_invariant : system.Invariant (Locked : ThreadPool Tid F → Prop) where
  init := by
    rintro s ⟨ws, -, h⟩
    exact locked_start h
  step _ _ _ h he hn := h.step (move_of_next he hn)

end ThreadPool

end Muduo
