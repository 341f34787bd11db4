import Mathlib.Logic.Function.Basic
import Muduo.Http.ResponseReader
import Muduo.Lib.Lts

/-!
# `CurrentThread`

The thread id that `CurrentThread::tid()` keeps in thread-local variables, in
a program whose threads make threads, fork and end. A child process starts
with one thread, which has a copy of the variables of the one that forked, and
the handler that `pthread_atfork` knows of throws the copy away.

The cached id is the kernel's in every history (`cached_tid_right`). Its text
is that of `"%5d "`, which is six characters only for ids below 100000: at the
first call in a thread with a longer one, `cacheTid` fails its assertion, and
the process is gone.

Static construction comes first: nothing of the program runs before the object
`init` of `Thread.cc` has been made.
-/

namespace Muduo

open Lib
open HttpResponse (decimal snprintf32 length_decimal_le_iff)

/-- The thread-local variables. -/
structure CurrentThread where
  t_cachedTid : Nat
  t_tidString : Bytes
  t_threadName : Bytes
deriving DecidableEq, Repr

namespace CurrentThread

/-- `assert(n == 6)` -/
inductive Fault where
  | width
deriving DecidableEq, Repr

/-- What a new thread starts with. -/
def new : CurrentThread := ⟨0, [], str "unknown"⟩

/-- `"%5d "` -/
def tidText (tid : Nat) : Bytes := (decimal tid).leftpad 5 32 ++ str " "

/-- `cacheTid()`; `gettid` is what `::syscall(SYS_gettid)` returns. -/
def cacheTid (gettid : Nat) (c : CurrentThread) : Except Fault CurrentThread :=
  if c.t_cachedTid = 0 then do
    let c := { c with t_cachedTid := gettid }
    let n := (tidText c.t_cachedTid).length
    let c := { c with t_tidString := snprintf32 (tidText c.t_cachedTid) }
    check (n = 6) .width
    return c
  else .ok c

def tid (gettid : Nat) (c : CurrentThread) : Except Fault (Nat × CurrentThread) := do
  let c ← if c.t_cachedTid = 0 then cacheTid gettid c else .ok c
  return (c.t_cachedTid, c)

def afterFork (gettid : Nat) (c : CurrentThread) : Except Fault CurrentThread := do
  let c := { c with t_cachedTid := 0 }
  let c := { c with t_threadName := str "main" }
  let (_, c) ← tid gettid c
  return c

/-- The constructor of `init`; the handler is registered last. -/
def threadNameInitializer (gettid : Nat) (c : CurrentThread) : Except Fault CurrentThread := do
  let c := { c with t_threadName := str "main" }
  let (_, c) ← tid gettid c
  return c

/-- `Thread::runInThread()` as far as `func_()`; with `tid_`. -/
def runInThread (gettid : Nat) (name : Bytes) (c : CurrentThread) :
    Except Fault (Nat × CurrentThread) := do
  let (tid_, c) ← tid gettid c
  return (tid_, { c with t_threadName := name })

end CurrentThread

/-- A thread. `process` is its process, by the id of the first thread of that;
has a call of `CurrentThread::tid()` returned in it? -/
structure Task where
  process : Nat
  tls : CurrentThread
  returned : Bool
deriving DecidableEq, Repr

/-- The threads by their ids in the kernel. `called` are the threads in which
`CurrentThread::tid()` has been called, and `aborted` those whose assertion has
failed. -/
structure TaskTable where
  task : Nat → Option Task
  constructed : Bool
  called : List Nat
  aborted : List Nat

namespace TaskTable

/-- The largest thread id of 64-bit Linux. -/
def pidMax : Nat := 2 ^ 22

inductive Event where
  /-- `init` is constructed in thread `t`. -/
  | construct (t : Nat)
  | pthread_create (t child : Nat)
  /-- `startThread` of a `Thread` with this name, in its thread. -/
  | runInThread (t : Nat) (name : Bytes)
  /-- Any other call of `CurrentThread::tid()`. -/
  | tid (t : Nat)
  /-- The child is a process of one thread. -/
  | fork (t child : Nat)
  | exitThread (t : Nat)
  | exitProcess (process : Nat)
deriving DecidableEq, Repr

def setTask (s : TaskTable) (t : Nat) (task : Option Task) : TaskTable :=
  { s with task := Function.update s.task t task }

/-- The process ends, with all its threads. -/
def kill (s : TaskTable) (process : Nat) : TaskTable :=
  { s with task := fun t => (s.task t).filter (·.process ≠ process) }

/-- The thread `t` runs something that calls `CurrentThread::tid()`. -/
def call {ε : Type} (s : TaskTable) (t : Nat) (f : CurrentThread → Except ε CurrentThread) :
    TaskTable :=
  match s.task t with
  | none => s
  | some task =>
      match f task.tls with
      | .ok c =>
          { s.setTask t (some { task with tls := c, returned := true }) with
            called := s.called ++ [t] }
      | .error _ =>
          { s.kill task.process with called := s.called ++ [t], aborted := s.aborted ++ [t] }

def fork (s : TaskTable) (t child : Nat) : TaskTable :=
  match s.task t with
  | none => s
  | some task =>
      (s.setTask child (some ⟨child, task.tls, false⟩)).call child
        (CurrentThread.afterFork child)

def next (s : TaskTable) : Event → Except Empty TaskTable
  | .construct t =>
      .ok { s.call t (CurrentThread.threadNameInitializer t) with constructed := true }
  | .pthread_create t child =>
      match s.task t with
      | none => .ok s
      | some task => .ok (s.setTask child (some ⟨task.process, .new, false⟩))
  | .runInThread t name => .ok (s.call t fun c => (c.runInThread t name).map Prod.snd)
  | .tid t => .ok (s.call t fun c => (c.tid t).map Prod.snd)
  | .fork t child => .ok (s.fork t child)
  | .exitThread t => .ok (s.setTask t none)
  | .exitProcess process => .ok (s.kill process)

/-- The kernel gives out an id that no thread has. -/
def isFree (s : TaskTable) (t : Nat) : Bool := 0 < t && t ≤ pidMax && (s.task t).isNone

def enabled (s : TaskTable) : Event → Bool
  | .construct t => !s.constructed && (s.task t).isSome
  | .pthread_create t child | .fork t child =>
      s.constructed && (s.task t).isSome && s.isFree child
  | .runInThread t _ | .tid t | .exitThread t => s.constructed && (s.task t).isSome
  | .exitProcess _ => s.constructed

/-- One process with one thread. -/
def start (t : Nat) : TaskTable where
  task := Function.update (fun _ => none) t (some ⟨t, .new, false⟩)
  constructed := false
  called := []
  aborted := []

/-- A program and all the processes it forks. -/
def program : Lts TaskTable Event Empty where
  init s := ∃ t, 0 < t ∧ t ≤ pidMax ∧ s = start t
  enabled s a := s.enabled a = true
  next := next

instance (s : TaskTable) (a : Event) : Decidable (program.enabled s a) :=
  inferInstanceAs (Decidable (_ = true))

end TaskTable

/-! ## The text -/

namespace CurrentThread

theorem length_tidText (t : Nat) : (tidText t).length = max 5 (decimal t).length + 1 := by
  rw [tidText, List.length_append, List.length_leftpad]
  rfl

/-- The assertion. -/
theorem length_tidText_iff {t : Nat} : (tidText t).length = 6 ↔ t < 100000 := by
  rw [length_tidText, show 100000 = 10 ^ 5 from rfl, ← length_decimal_le_iff (by decide)]
  omega

/-- Blanks come before the digits of an id with less than five. -/
theorem tidText_eq_iff {t : Nat} : tidText t = decimal t ++ str " " ↔ 10000 ≤ t := by
  have hlen : (decimal t).length ≤ 4 ↔ t < 10 ^ 4 := length_decimal_le_iff (by decide)
  rw [tidText, List.append_cancel_right_eq, List.leftpad, List.append_left_eq_self,
    List.replicate_eq_nil_iff]
  omega

/-! ## One thread -/

/-- The variables are those of the thread with the id `t`. -/
structure CachedAs (c : CurrentThread) (t : Nat) : Prop where
  tid : c.t_cachedTid = t
  text : c.t_tidString = tidText t
  short : t < 100000

/-- Nothing is cached yet, or the right id is. -/
def Fits (c : CurrentThread) (t : Nat) : Prop := c.t_cachedTid = 0 ∨ c.CachedAs t

variable {c c' : CurrentThread} {t t' : Nat}

theorem cacheTid_of_zero (h : c.t_cachedTid = 0) (hshort : t < 100000) :
    cacheTid t c = .ok { c with t_cachedTid := t, t_tidString := tidText t } := by
  have hsix : (tidText t).length = 6 := length_tidText_iff.mpr hshort
  have htext : snprintf32 (tidText t) = tidText t := List.take_of_length_le (by omega)
  rw [cacheTid, if_pos h]
  simp only [check_of hsix, ok_bind, htext]
  rfl

theorem cacheTid_long (h : c.t_cachedTid = 0) (hlong : ¬t < 100000) :
    cacheTid t c = .error .width := by
  have hsix : ¬(tidText t).length = 6 := mt length_tidText_iff.mp hlong
  rw [cacheTid, if_pos h]
  simp only [check_not hsix]
  rfl

/-- A call returns the id, and only for want of room it does not return. -/
theorem tid_cases (ht : 0 < t) (h : c.Fits t) :
    (∃ c', tid t c = .ok (t, c') ∧ c'.CachedAs t) ∨ (tid t c = .error .width ∧ ¬t < 100000) := by
  unfold tid
  rcases h with hzero | hright
  · rw [if_pos hzero]
    by_cases hshort : t < 100000
    · rw [cacheTid_of_zero hzero hshort]
      exact Or.inl ⟨_, rfl, rfl, rfl, hshort⟩
    · rw [cacheTid_long hzero hshort]
      exact Or.inr ⟨rfl, hshort⟩
  · have hne : ¬c.t_cachedTid = 0 := by
      rw [hright.tid]
      omega
    refine Or.inl ⟨c, ?_, hright⟩
    rw [if_neg hne, ok_bind, ← hright.tid]
    rfl

/-- A function that calls `tid()` in the thread with the id `t` and does
nothing else to what is cached. -/
def Calls (t : Nat) (f : CurrentThread → Except Fault CurrentThread) (c : CurrentThread) : Prop :=
  (∃ c', f c = .ok c' ∧ c'.CachedAs t) ∨ (f c = .error .width ∧ ¬t < 100000)

/-- `f` is a call of `tid()`, from `c'`, and then `g`. -/
theorem calls_of_tid {f : CurrentThread → Except Fault CurrentThread}
    {g : CurrentThread → CurrentThread} (ht : 0 < t) (h : c'.Fits t)
    (hf : f c = tid t c' >>= fun r => .ok (g r.2))
    (hg : ∀ c, c.CachedAs t → (g c).CachedAs t) : Calls t f c := by
  rcases tid_cases ht h with ⟨c'', htid, hright⟩ | ⟨htid, hlong⟩
  · rw [htid, ok_bind] at hf
    exact Or.inl ⟨_, hf, hg c'' hright⟩
  · rw [htid] at hf
    exact Or.inr ⟨hf, hlong⟩

theorem CachedAs.setName (h : c.CachedAs t) (name : Bytes) :
    CachedAs { c with t_threadName := name } t := ⟨h.tid, h.text, h.short⟩

theorem map_snd {ε α β : Type} (x : Except ε (α × β)) :
    x.map Prod.snd = x >>= fun r => .ok r.2 := by
  cases x <;> rfl

theorem calls_tid (ht : 0 < t) (h : c.Fits t) : Calls t (fun c => (c.tid t).map Prod.snd) c :=
  calls_of_tid ht h (map_snd _) fun _ hright => hright

theorem calls_runInThread (ht : 0 < t) (h : c.Fits t) (name : Bytes) :
    Calls t (fun c => (c.runInThread t name).map Prod.snd) c := by
  refine calls_of_tid ht h ?_ fun _ hright => hright.setName name
  show (runInThread t name c).map Prod.snd = _
  unfold runInThread
  cases tid t c <;> rfl

theorem calls_threadNameInitializer (ht : 0 < t) (h : c.Fits t) :
    Calls t (threadNameInitializer t) c := by
  have hmain : Fits { c with t_threadName := str "main" } t :=
    h.imp id fun hright => hright.setName _
  exact calls_of_tid ht hmain rfl fun _ hright => hright

/-- Whatever is cached, also for another thread. -/
theorem calls_afterFork (ht : 0 < t) : Calls t (afterFork t) c := by
  have hnone : Fits { c with t_cachedTid := 0, t_threadName := str "main" } t := Or.inl rfl
  exact calls_of_tid ht hnone rfl fun _ hright => hright

end CurrentThread

/-! ## All of them -/

open CurrentThread (Calls CachedAs)

/-- The thread has the id `t`, and its variables are in order. -/
structure Task.Sound (task : Task) (t : Nat) : Prop where
  pos : 0 < t
  fits : task.tls.Fits t
  returned : task.returned = true → task.tls.CachedAs t

namespace TaskTable

/-- `tid()` has returned in the thread with the id `t`, or killed it. -/
def Returned (s : TaskTable) (t : Nat) : Prop :=
  (∃ task, s.task t = some task ∧ task.returned = true) ∨ t ∈ s.aborted

structure Inv (s : TaskTable) : Prop where
  sound : ∀ t task, s.task t = some task → task.Sound t
  aborted : s.aborted = [] ↔ ∀ t ∈ s.called, t < 100000

variable {s s' : TaskTable} {t child : Nat} {task : Task}

theorem task_kill {process : Nat} (h : (s.kill process).task t = some task) :
    s.task t = some task ∧ task.process ≠ process := by
  obtain ⟨hs, hne⟩ := Option.filter_eq_some_iff.mp h
  exact ⟨hs, of_decide_eq_true hne⟩

theorem Inv.kill (h : s.Inv) (process : Nat) : (s.kill process).Inv where
  sound t task hs := h.sound t task (task_kill hs).1
  aborted := h.aborted

theorem task_setTask_self (s : TaskTable) (t : Nat) (new : Option Task) :
    (s.setTask t new).task t = new := Function.update_self ..

theorem task_setTask_ne {t' : Nat} (h : t' ≠ t) (s : TaskTable) (new : Option Task) :
    (s.setTask t new).task t' = s.task t' := Function.update_of_ne h ..

theorem Inv.setTask (h : s.Inv) (t : Nat) {new : Option Task}
    (hnew : ∀ task, new = some task → task.Sound t) : (s.setTask t new).Inv where
  sound t' task hs := by
    by_cases ht : t' = t
    · subst ht
      rw [task_setTask_self] at hs
      exact hnew task hs
    · rw [task_setTask_ne ht] at hs
      exact h.sound t' task hs
  aborted := h.aborted

/-- A call in the thread with the id `t`; before it, that thread's variables
need not be in order. -/
theorem inv_call {f : CurrentThread → Except CurrentThread.Fault CurrentThread} (ht : 0 < t)
    (htask : s.task t = some task) (hothers : ∀ t' task, t' ≠ t → s.task t' = some task →
      task.Sound t')
    (haborted : s.aborted = [] ↔ ∀ t ∈ s.called, t < 100000) (hcalls : Calls t f task.tls) :
    (s.call t f).Inv ∧ (s.call t f).Returned t := by
  rcases hcalls with ⟨c', hf, hright⟩ | ⟨hf, hlong⟩
  · have hcall : s.call t f = { s.setTask t (some ⟨task.process, c', true⟩) with
        called := s.called ++ [t] } := by
      simp only [TaskTable.call, htask, hf]
    have hself := task_setTask_self s t (some ⟨task.process, c', true⟩)
    rw [hcall]
    refine ⟨⟨?_, ?_⟩, Or.inl ⟨_, hself, rfl⟩⟩
    · intro t' task' hs
      change (s.setTask t _).task t' = some task' at hs
      by_cases hne : t' = t
      · subst hne
        obtain rfl := Option.some.inj (hself.symm.trans hs)
        exact ⟨ht, Or.inr hright, fun _ => hright⟩
      · rw [task_setTask_ne hne] at hs
        exact hothers t' task' hne hs
    · show s.aborted = [] ↔ ∀ t' ∈ s.called ++ [t], t' < 100000
      rw [haborted]
      simp only [List.mem_append, List.mem_singleton]
      constructor
      · rintro hall t' (ht' | rfl)
        · exact hall t' ht'
        · exact hright.short
      · exact fun hall t' ht' => hall t' (Or.inl ht')
  · have hcall : s.call t f = { s.kill task.process with
        called := s.called ++ [t], aborted := s.aborted ++ [t] } := by
      simp only [TaskTable.call, htask, hf]
    rw [hcall]
    refine ⟨⟨?_, ?_⟩, Or.inr (List.mem_append_right _ (List.mem_singleton.mpr rfl))⟩
    · intro t' task' hkill
      obtain ⟨hs, hprocess⟩ := task_kill hkill
      refine hothers t' task' ?_ hs
      rintro rfl
      obtain rfl := Option.some.inj (htask.symm.trans hs)
      exact hprocess rfl
    · show s.aborted ++ [t] = [] ↔ ∀ t' ∈ s.called ++ [t], t' < 100000
      constructor
      · intro hnil
        exact absurd hnil (List.append_ne_nil_of_right_ne_nil _ (List.cons_ne_nil _ _))
      · intro hall
        exact absurd (hall t (by simp)) hlong

theorem Inv.call (h : s.Inv) {f : CurrentThread → Except CurrentThread.Fault CurrentThread}
    (hlive : ∃ task, s.task t = some task)
    (hcalls : ∀ {c : CurrentThread}, 0 < t → c.Fits t → Calls t f c) :
    (s.call t f).Inv ∧ (s.call t f).Returned t := by
  obtain ⟨task, htask⟩ := hlive
  have hsound := h.sound t task htask
  exact inv_call hsound.pos htask (fun t' task' _ hs => h.sound t' task' hs) h.aborted
    (hcalls hsound.pos hsound.fits)

theorem Inv.fork (h : s.Inv) (hlive : ∃ task, s.task t = some task) (hchild : 0 < child) :
    (s.fork t child).Inv ∧ (s.fork t child).Returned child := by
  obtain ⟨task, htask⟩ := hlive
  unfold TaskTable.fork
  simp only [htask]
  refine inv_call hchild (task_setTask_self s child _) ?_ h.aborted
    (CurrentThread.calls_afterFork hchild)
  intro t' task' hne hs
  rw [task_setTask_ne hne] at hs
  exact h.sound t' task' hs

theorem sound_new (ht : 0 < t) (process : Nat) : Task.Sound ⟨process, .new, false⟩ t :=
  ⟨ht, Or.inl rfl, fun h => by cases h⟩

/-! What the events ask for. -/

theorem live_of {b : Bool} (h : (b && (s.task t).isSome) = true) :
    ∃ task, s.task t = some task :=
  Option.isSome_iff_exists.mp (Bool.and_eq_true_iff.mp h).2

theorem live_and_free {b : Bool} (h : (b && (s.task t).isSome && s.isFree child) = true) :
    (∃ task, s.task t = some task) ∧ 0 < child := by
  obtain ⟨hlive, hfree⟩ := Bool.and_eq_true_iff.mp h
  simp only [isFree, Bool.and_eq_true, decide_eq_true_eq] at hfree
  exact ⟨live_of hlive, hfree.1.1⟩

theorem program_invariant : program.Invariant Inv where
  init := by
    rintro s ⟨t, ht, -, rfl⟩
    refine ⟨fun t' task hs => ?_, ?_⟩
    · change Function.update (fun _ => none) t (some _) t' = some task at hs
      by_cases hne : t' = t
      · subst hne
        rw [Function.update_self] at hs
        obtain rfl := Option.some.inj hs
        exact sound_new ht t'
      · rw [Function.update_of_ne hne] at hs
        cases hs
    · exact iff_of_true rfl fun _ h => by cases h
  step s a s' h he hn := by
    cases a with
    | construct t =>
        cases hn
        have hcall := (h.call (live_of he) CurrentThread.calls_threadNameInitializer).1
        exact ⟨hcall.sound, hcall.aborted⟩
    | pthread_create t child =>
        obtain ⟨⟨task, htask⟩, hchild⟩ := live_and_free he
        simp only [program, next, htask] at hn
        cases hn
        refine h.setTask child fun task' htask' => ?_
        cases htask'
        exact sound_new hchild _
    | runInThread t name =>
        cases hn
        exact (h.call (live_of he) fun ht hfits =>
          CurrentThread.calls_runInThread ht hfits name).1
    | tid t =>
        cases hn
        exact (h.call (live_of he) CurrentThread.calls_tid).1
    | fork t child =>
        cases hn
        obtain ⟨hlive, hchild⟩ := live_and_free he
        exact (h.fork hlive hchild).1
    | exitThread t =>
        cases hn
        exact h.setTask t fun task htask => by cases htask
    | exitProcess process =>
        cases hn
        exact h.kill process

/-! ## Every history -/

/-- In every history, a thread in which `tid()` has returned has the kernel's
id and its text, and so has the one thread of a child process from the
beginning. No assertion has failed exactly if every id asked for was below
100000; the text is the digits and a blank from 10000 on. -/
theorem cached_tid_right {s : TaskTable} (hs : program.Reachable s) :
    (∀ t task, s.task t = some task → task.returned = true →
      task.tls.t_cachedTid = t ∧ task.tls.t_tidString = CurrentThread.tidText t ∧
        (task.tls.t_tidString = decimal t ++ str " " ↔ 10000 ≤ t)) ∧
    (∀ t a, a = .tid t ∨ (∃ parent, a = .fork parent t) → program.enabled s a →
      ∃ s', program.next s a = .ok s' ∧ s'.Returned t) ∧
    (s.aborted = [] ↔ ∀ t ∈ s.called, t < 100000) := by
  have hinv := program_invariant.reachable hs
  refine ⟨?_, ?_, hinv.aborted⟩
  · intro t task htask hreturned
    have hcached := (hinv.sound t task htask).returned hreturned
    refine ⟨hcached.tid, hcached.text, ?_⟩
    rw [hcached.text]
    exact CurrentThread.tidText_eq_iff
  · rintro t a (rfl | ⟨parent, rfl⟩) he
    · exact ⟨_, rfl, (hinv.call (live_of he) CurrentThread.calls_tid).2⟩
    · obtain ⟨hlive, hchild⟩ := live_and_free he
      exact ⟨_, rfl, (hinv.fork hlive hchild).2⟩

/-- A thread and a child process with ids of five digits. -/
theorem cached_tid_right_five_digits : ∃ s, program.Reachable s ∧ s.aborted = [] ∧
    s.called = [12345, 12346, 99999] := by
  have hstart : program.init (start 12345) := ⟨12345, by decide, by decide, rfl⟩
  obtain ⟨s, hs, hcalled⟩ := Lts.exists_reachable_of_exec [.construct 12345,
    .pthread_create 12345 12346, .runInThread 12346 (str "loop"), .fork 12346 99999]
    (fun s : TaskTable => decide (s.called = [12345, 12346, 99999])) hstart (by decide +kernel)
  have hlist := of_decide_eq_true hcalled
  refine ⟨s, hs, (cached_tid_right hs).2.2.mpr ?_, hlist⟩
  rw [hlist]
  decide

/-- The kernel gives the program's first thread the id 100000. -/
theorem cached_tid_not_long : ¬∀ s, program.Reachable s → s.aborted = [] := by
  intro hall
  have hstart : program.init (start 100000) := ⟨100000, by decide, by decide, rfl⟩
  obtain ⟨s, hs, haborted⟩ := Lts.exists_reachable_of_exec [.construct 100000]
    (fun s : TaskTable => decide (s.aborted = [100000])) hstart (by decide +kernel)
  have hnil := hall s hs
  rw [of_decide_eq_true haborted] at hnil
  cases hnil

end TaskTable

end Muduo
