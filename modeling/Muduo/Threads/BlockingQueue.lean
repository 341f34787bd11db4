import Muduo.Base
import Muduo.Lib.Lts
import Muduo.Lib.Threads

/-!
# `BlockingQueue`

The queue without a bound: `put` never waits, and `notEmpty_` is the only
condition variable. Like `BoundedBlockingQueue`, any number of threads are in
`put`, `take` and `size` at a time, interleaved statement by statement.

Two measures go with the invariant (`Sound`): who will see an item that a
sleeper could take (`takers`), and how many statements a call still has before
it (`Place.weight`), in which a signal pays for the thread it wakes.
-/

namespace Muduo

open Lib Lib.Threads

namespace BlockingQueue

/-- Where a thread is: in no call; in `put(x)`, `take()` or `size()`, at its
statements in order; in `take()` also asleep in `notEmpty_.wait()`, or woken
there without the mutex. -/
inductive Place (T : Type) where
  | idle
  | putLock (x : T) | putPush (x : T) | putNotify (x : T) | putUnlock (x : T)
  | takeLock | takeTest | takeSleep | takeWait | takeWoken | takePop | takeUnlock (front : T)
  | sizeLock | sizeRead | sizeUnlock (n : Nat)
deriving DecidableEq

/-- `assert(!queue_.empty())` -/
inductive Fault where
  | empty
deriving DecidableEq

namespace Place

variable {T : Type}

/-- Does a thread there hold the mutex? -/
def inside : Place T → Bool
  | .putPush _ | .putNotify _ | .putUnlock _ => true
  | .takeTest | .takeSleep | .takePop | .takeUnlock _ => true
  | .sizeRead | .sizeUnlock _ => true
  | _ => false

/-- Does a step there take the mutex? -/
def locks : Place T → Bool
  | .putLock _ | .takeLock | .takeWoken | .sizeLock => true
  | _ => false

/-- Is the next thing there a signal? -/
def signals : Place T → Bool
  | .putNotify _ => true
  | _ => false

/-- The threads that have yet to test `queue_.empty()`, or found it false, and
a signal owed to `notEmpty_`. -/
def takers : Place T → Nat
  | .takeLock | .takeTest | .takeSleep | .takeWoken | .takePop => 1
  | .putNotify _ => 1
  | _ => 0

/-- The statements before a thread there, with four more for the thread that
its signal wakes. -/
def weight : Place T → Nat
  | .idle | .takeWait => 0
  | .putUnlock _ | .takeUnlock _ | .takeSleep | .sizeUnlock _ => 1
  | .takePop | .sizeRead => 2
  | .takeTest | .sizeLock => 3
  | .takeLock | .takeWoken => 4
  | .putNotify _ => 6
  | .putPush _ => 7
  | .putLock _ => 8

end Place

/-- `notEmpty_` -/
def notEmpty {T : Type} : Condition (Place T) where
  asleep | .takeWait => true | _ => false
  woken | .takeWait => .takeWoken | p => p
  woken_awake p := by cases p <;> rfl
  woken_of_awake p := by cases p <;> first | exact fun _ => rfl | nofun

/-- A thread calls a member, makes a step, signals (and `w`, if any, is woken),
or wakes up without a signal. -/
inductive Event (Tid T : Type) where
  | put (t : Tid) (x : T)
  | take (t : Tid)
  | size (t : Tid)
  | step (t : Tid)
  | notify (t : Tid) (w : Option Tid)
  | spurious (t : Tid)

/-- Is it an event of a call under way, which nothing keeps from happening? -/
def Event.own {Tid T : Type} : Event Tid T → Bool
  | .step _ | .notify _ _ => true
  | _ => false

end BlockingQueue

/-- The queue and the threads in it. -/
structure BlockingQueue (Tid T : Type) where
  queue : List T
  /-- Who holds `mutex_`. -/
  holder : Option Tid
  pc : Tid → BlockingQueue.Place T
  /-- What was pushed and what was popped, in that order, and by whom. -/
  pushed : List (Tid × T)
  popped : List (Tid × T)
  /-- The calls that have returned, those of `size` with what they returned. -/
  puts : List (Tid × T)
  takes : List (Tid × T)
  sizes : List (Tid × Nat)

namespace BlockingQueue

variable {Tid T : Type} [DecidableEq Tid]

def new : BlockingQueue Tid T := ⟨[], none, fun _ => .idle, [], [], [], [], []⟩

def go (s : BlockingQueue Tid T) (t : Tid) (p : Place T) : BlockingQueue Tid T :=
  { s with pc := Function.update s.pc t p }

def lock (s : BlockingQueue Tid T) (t : Tid) (p : Place T) : BlockingQueue Tid T :=
  { s with holder := some t }.go t p

def unlock (s : BlockingQueue Tid T) (t : Tid) (p : Place T) : BlockingQueue Tid T :=
  { s with holder := none }.go t p

/-- The statement that `t` is at. -/
def advance (s : BlockingQueue Tid T) (t : Tid) :
    Place T → Except Fault (BlockingQueue Tid T)
  | .putLock x => .ok (s.lock t (.putPush x))
  | .putPush x =>
      .ok ({ s with queue := s.queue ++ [x], pushed := s.pushed ++ [(t, x)] }.go t (.putNotify x))
  | .putUnlock x => .ok ({ s with puts := s.puts ++ [(t, x)] }.unlock t .idle)
  | .takeLock => .ok (s.lock t .takeTest)
  | .takeTest => .ok (s.go t (if s.queue.isEmpty then .takeSleep else .takePop))
  | .takeSleep => .ok (s.unlock t .takeWait)
  | .takeWoken => .ok (s.lock t .takeTest)
  | .takePop =>
      match s.queue with
      | [] => .error .empty
      | x :: rest =>
          .ok ({ s with queue := rest, popped := s.popped ++ [(t, x)] }.go t (.takeUnlock x))
  | .takeUnlock x => .ok ({ s with takes := s.takes ++ [(t, x)] }.unlock t .idle)
  | .sizeLock => .ok (s.lock t .sizeRead)
  | .sizeRead => .ok (s.go t (.sizeUnlock s.queue.length))
  | .sizeUnlock n => .ok ({ s with sizes := s.sizes ++ [(t, n)] }.unlock t .idle)
  | .idle | .putNotify _ | .takeWait => .ok s

/-- May a thread at `p` make a step of its own? -/
def canStep (s : BlockingQueue Tid T) (p : Place T) : Bool :=
  p.inside && !p.signals || p.locks && s.holder.isNone

def Enabled (s : BlockingQueue Tid T) : Event Tid T → Prop
  | .put t _ | .take t | .size t => s.pc t = .idle
  | .step t => s.canStep (s.pc t) = true
  | .notify t w => (s.pc t).signals = true ∧ notEmpty.MayNotify s.pc w
  | .spurious t => notEmpty.asleep (s.pc t) = true

def next (s : BlockingQueue Tid T) : Event Tid T → Except Fault (BlockingQueue Tid T)
  | .put t x => .ok (s.go t (.putLock x))
  | .take t => .ok (s.go t .takeLock)
  | .size t => .ok (s.go t .sizeLock)
  | .step t => s.advance t (s.pc t)
  | .notify t w =>
      match s.pc t with
      | .putNotify x => .ok ({ s with pc := notEmpty.notify s.pc w }.go t (.putUnlock x))
      | _ => .ok s
  | .spurious t => .ok { s with pc := notEmpty.notify s.pc (some t) }

/-- Any number of threads at a queue. -/
def system : Lts (BlockingQueue Tid T) (Event Tid T) Fault where
  init s := s = new
  enabled := Enabled
  next := next

instance [Fintype Tid] [DecidableEq T] (s : BlockingQueue Tid T) :
    ∀ a, Decidable (system.enabled s a)
  | .put t _ | .take t | .size t => inferInstanceAs (Decidable (s.pc t = .idle))
  | .step t => inferInstanceAs (Decidable (s.canStep (s.pc t) = true))
  | .notify _ _ => inferInstanceAs (Decidable (_ = true ∧ notEmpty.MayNotify s.pc _))
  | .spurious _ => inferInstanceAs (Decidable (_ = true))

/-! ## All an event can do -/

variable {s s' : BlockingQueue Tid T} {a : Event Tid T} {t u : Tid} {p q : Place T}

/-- A call begins. -/
inductive Calls : Event Tid T → Tid → Place T → Prop where
  | put (t : Tid) (x : T) : Calls (.put t x) t (.putLock x)
  | take (t : Tid) : Calls (.take t) t .takeLock
  | size (t : Tid) : Calls (.size t) t .sizeLock

/-- The mutex is taken, for the first time or again. -/
inductive Locks : Place T → Place T → Prop where
  | put (x : T) : Locks (.putLock x) (.putPush x)
  | take : Locks .takeLock .takeTest
  | takeAgain : Locks .takeWoken .takeTest
  | size : Locks .sizeLock .sizeRead

/-- What is looked at in the queue. -/
inductive Looks (l : List T) : Place T → Place T → Prop where
  | empty : l = [] → Looks l .takeTest .takeSleep
  | any : l ≠ [] → Looks l .takeTest .takePop
  | size : Looks l .sizeRead (.sizeUnlock l.length)

inductive Move (s : BlockingQueue Tid T) : Event Tid T → BlockingQueue Tid T → Prop where
  | call {a : Event Tid T} {t : Tid} {p : Place T} : s.pc t = .idle → Calls a t p →
      Move s a (s.go t p)
  | locked {t : Tid} {p : Place T} : s.holder = none → Locks (s.pc t) p →
      Move s (.step t) (s.lock t p)
  | looked {t : Tid} {p : Place T} : Looks s.queue (s.pc t) p → Move s (.step t) (s.go t p)
  | sleep {t : Tid} : s.pc t = .takeSleep → Move s (.step t) (s.unlock t .takeWait)
  | push {t : Tid} {x : T} : s.pc t = .putPush x → Move s (.step t) ({ s with
      queue := s.queue ++ [x], pushed := s.pushed ++ [(t, x)] }.go t (.putNotify x))
  | pop {t : Tid} {x : T} {rest : List T} : s.pc t = .takePop → s.queue = x :: rest →
      Move s (.step t)
        ({ s with queue := rest, popped := s.popped ++ [(t, x)] }.go t (.takeUnlock x))
  | notified {t : Tid} {x : T} {w : Option Tid} : s.pc t = .putNotify x →
      notEmpty.MayNotify s.pc w → Move s (.notify t w)
        ({ s with pc := notEmpty.notify s.pc w }.go t (.putUnlock x))
  | put {t : Tid} {x : T} : s.pc t = .putUnlock x → Move s (.step t)
      ({ s with puts := s.puts ++ [(t, x)] }.unlock t .idle)
  | taken {t : Tid} {x : T} : s.pc t = .takeUnlock x → Move s (.step t)
      ({ s with takes := s.takes ++ [(t, x)] }.unlock t .idle)
  | sized {t : Tid} {n : Nat} : s.pc t = .sizeUnlock n → Move s (.step t)
      ({ s with sizes := s.sizes ++ [(t, n)] }.unlock t .idle)
  | spurious {t : Tid} : notEmpty.asleep (s.pc t) = true → Move s (.spurious t)
      { s with pc := notEmpty.notify s.pc (some t) }

theorem move_of_step (hstep : s.canStep (s.pc t) = true) (hn : s.advance t (s.pc t) = .ok s') :
    Move s (.step t) s' := by
  have hfree : (s.pc t).inside = false → s.holder = none := by
    intro hout
    rw [canStep, hout, Bool.false_and, Bool.false_or, Bool.and_eq_true] at hstep
    exact Option.isNone_iff_eq_none.mp hstep.2
  cases hpc : s.pc t with
  | idle | takeWait | putNotify => simp [hpc, canStep, Place.inside, Place.locks,
      Place.signals] at hstep
  | putLock x =>
      rw [hpc] at hn hfree
      obtain rfl := Except.ok.inj hn
      exact .locked (hfree rfl) (hpc ▸ .put x)
  | takeLock =>
      rw [hpc] at hn hfree
      obtain rfl := Except.ok.inj hn
      exact .locked (hfree rfl) (hpc ▸ .take)
  | takeWoken =>
      rw [hpc] at hn hfree
      obtain rfl := Except.ok.inj hn
      exact .locked (hfree rfl) (hpc ▸ .takeAgain)
  | sizeLock =>
      rw [hpc] at hn hfree
      obtain rfl := Except.ok.inj hn
      exact .locked (hfree rfl) (hpc ▸ .size)
  | takeTest =>
      rw [hpc] at hn
      obtain rfl := Except.ok.inj hn
      cases hempty : s.queue.isEmpty with
      | true => exact .looked (hpc ▸ .empty (List.isEmpty_iff.mp hempty))
      | false => exact .looked (hpc ▸ .any (List.isEmpty_eq_false_iff.mp hempty))
  | sizeRead =>
      rw [hpc] at hn
      obtain rfl := Except.ok.inj hn
      exact .looked (hpc ▸ .size)
  | takeSleep =>
      rw [hpc] at hn
      obtain rfl := Except.ok.inj hn
      exact .sleep hpc
  | putPush x =>
      rw [hpc] at hn
      obtain rfl := Except.ok.inj hn
      exact .push hpc
  | takePop =>
      rw [hpc, advance] at hn
      split at hn
      · cases hn
      · obtain rfl := Except.ok.inj hn
        exact .pop hpc ‹_›
  | putUnlock x =>
      rw [hpc] at hn
      obtain rfl := Except.ok.inj hn
      exact .put hpc
  | takeUnlock x =>
      rw [hpc] at hn
      obtain rfl := Except.ok.inj hn
      exact .taken hpc
  | sizeUnlock n =>
      rw [hpc] at hn
      obtain rfl := Except.ok.inj hn
      exact .sized hpc

theorem move_of_next (he : s.Enabled a) (hn : s.next a = .ok s') : Move s a s' := by
  cases a with
  | put t x =>
      obtain rfl := Except.ok.inj hn
      exact .call he (.put t x)
  | take t =>
      obtain rfl := Except.ok.inj hn
      exact .call he (.take t)
  | size t =>
      obtain rfl := Except.ok.inj hn
      exact .call he (.size t)
  | step t => exact move_of_step he hn
  | notify t w =>
      simp only [Enabled, next] at he hn
      obtain ⟨hsignals, hw⟩ := he
      cases hpc : s.pc t with
      | putNotify x =>
          rw [hpc] at hn
          obtain rfl := Except.ok.inj hn
          exact .notified hpc hw
      | _ =>
          rw [hpc] at hsignals
          cases hsignals
  | spurious t =>
      obtain rfl := Except.ok.inj hn
      exact .spurious he

/-! ## What holds in every state -/

/-- What a thread there has made sure of, and relies on. -/
def Sure (l : List T) : Place T → Prop
  | .takeSleep => l = []
  | .takePop => l ≠ []
  | .sizeUnlock n => n = l.length
  | _ => True

theorem sure_of_outside (l : List T) {p : Place T} (hp : p.inside = false) : Sure l p := by
  cases p <;> trivial

/-- The item of a `put` that has pushed it and not returned. -/
def putting : Place T → List T
  | .putNotify x | .putUnlock x => [x]
  | _ => []

/-- The item of a `take` that has popped it and not returned. -/
def taking : Place T → List T
  | .takeUnlock x => [x]
  | _ => []

/-- Nobody but the holder of the mutex is inside, and what the holder has seen
is so; the content is what was pushed and not popped; a call pushes or pops
once, between its start and its end. -/
structure Sound (s : BlockingQueue Tid T) : Prop where
  mutex : Exclusive Place.inside s.holder s.pc
  sure : ∀ t, Sure s.queue (s.pc t)
  fifo : s.pushed.map Prod.snd = s.popped.map Prod.snd ++ s.queue
  puts : InHand putting s.pushed s.puts s.pc
  takes : InHand taking s.popped s.takes s.pc

theorem sound_new : Sound (new : BlockingQueue Tid T) where
  mutex _ := ⟨nofun, nofun⟩
  sure _ := trivial
  fifo := rfl
  puts _ := rfl
  takes _ := rfl

/-- A step that moves no item. -/
theorem Sound.move (h : Sound s) {holder : Option Tid} {sizes : List (Tid × Nat)}
    (hmutex : Exclusive Place.inside holder (Function.update s.pc t p))
    (hsure : Sure s.queue p) (hput : putting p = putting (s.pc t))
    (htake : taking p = taking (s.pc t)) :
    Sound ({ s with holder := holder, sizes := sizes }.go t p) where
  mutex := hmutex
  sure := (Function.forall_update_iff s.pc _).mpr ⟨hsure, fun u _ => h.sure u⟩
  fifo := h.fifo
  puts := h.puts.same hput
  takes := h.takes.same htake

omit [DecidableEq Tid] in
theorem inside_woken (q : Place T) : (notEmpty.woken q).inside = q.inside := by
  cases q <;> rfl

omit [DecidableEq Tid] in
theorem sure_woken (l : List T) (q : Place T) : Sure l (notEmpty.woken q) = Sure l q := by
  cases q <;> rfl

omit [DecidableEq Tid] in
theorem putting_woken (q : Place T) : putting (notEmpty.woken q) = putting q := by
  cases q <;> rfl

omit [DecidableEq Tid] in
theorem taking_woken (q : Place T) : taking (notEmpty.woken q) = taking q := by
  cases q <;> rfl

/-- A signal moves no item. -/
theorem Sound.notify (h : Sound s) (w : Option Tid) :
    Sound { s with pc := notEmpty.notify s.pc w } where
  mutex := h.mutex.notify inside_woken w
  sure := Condition.forall_notify (K := fun _ => Sure s.queue)
    (fun _ q hq => by rwa [sure_woken]) h.sure w
  fifo := h.fifo
  puts := h.puts.notify putting_woken w
  takes := h.takes.notify taking_woken w

theorem Sound.notified (h : Sound s) {x : T} {w : Option Tid} (hpc : s.pc t = .putNotify x) :
    Sound ({ s with pc := notEmpty.notify s.pc w }.go t (.putUnlock x)) := by
  have hn := h.notify w
  have hpc' : notEmpty.notify s.pc w t = .putNotify x := Condition.notify_eq hpc rfl
  exact hn.move (hn.mutex.stay (by simp only [hpc']; rfl)) trivial (by simp only [hpc']; rfl)
    (by simp only [hpc']; rfl)

theorem Sound.push (h : Sound s) {x : T} (hpc : s.pc t = .putPush x) :
    Sound ({ s with
      queue := s.queue ++ [x], pushed := s.pushed ++ [(t, x)] }.go t (.putNotify x)) where
  mutex := h.mutex.stay (by rw [hpc]; rfl)
  sure := h.mutex.known (fun _ => sure_of_outside _) (by rw [hpc]; rfl) trivial
  fifo := by
    change (s.pushed ++ [(t, x)]).map Prod.snd = s.popped.map Prod.snd ++ (s.queue ++ [x])
    rw [List.map_append, h.fifo, List.append_assoc]
    rfl
  puts := h.puts.do (by rw [hpc]; rfl) rfl
  takes := h.takes.same (by rw [hpc]; rfl)

theorem Sound.pop (h : Sound s) {x : T} {rest : List T} (hpc : s.pc t = .takePop)
    (hqueue : s.queue = x :: rest) :
    Sound ({ s with queue := rest, popped := s.popped ++ [(t, x)] }.go t (.takeUnlock x)) where
  mutex := h.mutex.stay (by rw [hpc]; rfl)
  sure := h.mutex.known (fun _ => sure_of_outside _) (by rw [hpc]; rfl) trivial
  fifo := by
    change s.pushed.map Prod.snd = (s.popped ++ [(t, x)]).map Prod.snd ++ rest
    rw [h.fifo, hqueue, List.map_append, List.append_assoc]
    rfl
  puts := h.puts.same (by rw [hpc]; rfl)
  takes := h.takes.do (by rw [hpc]; rfl) rfl

theorem Sound.put (h : Sound s) {x : T} (hpc : s.pc t = .putUnlock x) :
    Sound ({ s with puts := s.puts ++ [(t, x)] }.unlock t .idle) where
  mutex := h.mutex.release (by rw [hpc]; rfl) rfl
  sure := h.mutex.known (fun _ => sure_of_outside _) (by rw [hpc]; rfl) trivial
  fifo := h.fifo
  puts := h.puts.end (by rw [hpc]; rfl) rfl
  takes := h.takes.same (by rw [hpc]; rfl)

theorem Sound.taken (h : Sound s) {x : T} (hpc : s.pc t = .takeUnlock x) :
    Sound ({ s with takes := s.takes ++ [(t, x)] }.unlock t .idle) where
  mutex := h.mutex.release (by rw [hpc]; rfl) rfl
  sure := h.mutex.known (fun _ => sure_of_outside _) (by rw [hpc]; rfl) trivial
  fifo := h.fifo
  puts := h.puts.same (by rw [hpc]; rfl)
  takes := h.takes.end (by rw [hpc]; rfl) rfl

omit [DecidableEq Tid] in
theorem Calls.quiet (h : Calls a t p) : p.inside = false ∧ putting p = [] ∧ taking p = [] := by
  cases h <;> exact ⟨rfl, rfl, rfl⟩

omit [DecidableEq Tid] in
theorem Locks.quiet (h : Locks p q) (l : List T) :
    q.inside = true ∧ Sure l q ∧ putting q = putting p ∧ taking q = taking p := by
  cases h <;> exact ⟨rfl, trivial, rfl, rfl⟩

omit [DecidableEq Tid] in
theorem Looks.quiet {l : List T} (h : Looks l p q) :
    q.inside = p.inside ∧ Sure l q ∧ putting q = putting p ∧ taking q = taking p := by
  cases h with
  | empty hl => exact ⟨rfl, hl, rfl, rfl⟩
  | any hl => exact ⟨rfl, hl, rfl, rfl⟩
  | size => exact ⟨rfl, rfl, rfl, rfl⟩

/-- **One event.** -/
theorem Sound.step (h : Sound s) (m : Move s a s') : Sound s' := by
  cases m with
  | call hpc hc =>
      obtain ⟨hout, hput, htake⟩ := hc.quiet
      exact h.move (h.mutex.stay (by rw [hout, hpc]; rfl)) (sure_of_outside _ hout)
        (by rw [hput, hpc]; rfl) (by rw [htake, hpc]; rfl)
  | locked hfree hl =>
      obtain ⟨hin, hsure, hput, htake⟩ := hl.quiet s.queue
      have hmutex := h.mutex
      rw [hfree] at hmutex
      exact h.move (hmutex.acquire hin) hsure hput htake
  | looked hl =>
      obtain ⟨hin, hsure, hput, htake⟩ := hl.quiet
      exact h.move (h.mutex.stay hin) hsure hput htake
  | sleep hpc =>
      exact h.move (h.mutex.release (by rw [hpc]; rfl) rfl) trivial (by rw [hpc]; rfl)
        (by rw [hpc]; rfl)
  | push hpc => exact h.push hpc
  | pop hpc hqueue => exact h.pop hpc hqueue
  | notified hpc _ => exact h.notified hpc
  | put hpc => exact h.put hpc
  | taken hpc => exact h.taken hpc
  | sized hpc =>
      exact h.move (h.mutex.release (by rw [hpc]; rfl) rfl) trivial (by rw [hpc]; rfl)
        (by rw [hpc]; rfl)
  | spurious _ => exact h.notify _

/-- The assertion holds, and `front()` finds an item. -/
theorem Sound.no_fault (h : Sound s) (a : Event Tid T) : ∃ s', s.next a = .ok s' := by
  cases a with
  | notify t w => cases hpc : s.pc t <;> exact ⟨_, by rw [next, hpc]⟩
  | step t =>
      rw [next]
      have hsure := h.sure t
      cases hpc : s.pc t with
      | takePop =>
          rw [hpc] at hsure
          rw [advance]
          cases hqueue : s.queue with
          | nil => exact absurd hqueue hsure
          | cons x rest => exact ⟨_, rfl⟩
      | _ => exact ⟨_, rfl⟩
  | _ => exact ⟨_, rfl⟩

/-! ## The sleepers -/

section Served

variable [Fintype Tid]

/-- While somebody sleeps, every item has a thread that will see it. -/
def Signalled (s : BlockingQueue Tid T) : Prop :=
  Served notEmpty Place.takers s.queue.length s.pc

omit [DecidableEq Tid] in
theorem takers_woken (q : Place T) : q.takers ≤ (notEmpty.woken q).takers := by
  cases q <;> first | exact le_rfl | exact Nat.zero_le _

theorem asleep_woken (q : Place T) (hq : notEmpty.asleep (notEmpty.woken q) = true) :
    notEmpty.asleep q = true := by
  rw [notEmpty.woken_awake] at hq
  cases hq

omit [DecidableEq Tid] in
theorem takers_asleep (q : Place T) (hq : notEmpty.asleep q = true) :
    q.takers + 1 ≤ (notEmpty.woken q).takers := by
  cases q <;> first | exact le_rfl | cases hq

theorem Signalled.step (h : Signalled s) (hsound : Sound s) (m : Move s a s') :
    Signalled s' := by
  unfold Signalled at h
  cases m with
  | call hpc hc =>
      refine h.move (by cases hc <;> rfl) ?_
      rw [hpc]
      exact Nat.add_le_add_left (Nat.zero_le _) _
  | @locked t p _ hl =>
      generalize hq : s.pc t = q at hl
      cases hl <;> exact h.move rfl (by rw [hq]; exact le_rfl)
  | @looked t p hl =>
      generalize hq : s.pc t = q at hl
      cases hl <;> exact h.move rfl (by rw [hq]; exact le_rfl)
  | @sleep t hpc =>
      have hempty := hsound.sure t
      rw [hpc] at hempty
      change Served _ _ s.queue.length _
      rw [show s.queue = [] from hempty]
      exact Served.zero
  | push hpc =>
      refine h.move rfl ?_
      change (s.queue ++ [_]).length + _ ≤ _
      rw [hpc, List.length_append]
      exact le_rfl
  | pop hpc hqueue =>
      refine h.move rfl ?_
      rw [hpc, hqueue]
      exact le_rfl
  | notified hpc hw =>
      exact Served.notify h hw takers_asleep (by rw [hpc]; rfl) rfl (by rw [hpc]; exact le_rfl)
  | put hpc => exact h.move rfl (by rw [hpc]; exact le_rfl)
  | taken hpc => exact h.move rfl (by rw [hpc]; exact le_rfl)
  | sized hpc => exact h.move rfl (by rw [hpc]; exact le_rfl)
  | @spurious t _ => exact h.wake (d := notEmpty) asleep_woken takers_woken (some t)

/-- What holds in every reachable state. -/
theorem sound_invariant :
    system.Invariant fun s : BlockingQueue Tid T => Sound s ∧ Signalled s where
  init := by
    rintro s rfl
    refine ⟨sound_new, ?_⟩
    rintro ⟨_, h⟩
    cases h
  step s a s' h he hn :=
    ⟨h.1.step (move_of_next he hn), h.2.step h.1 (move_of_next he hn)⟩

/-! ## Who can go on -/

omit [DecidableEq Tid] [Fintype Tid] in
/-- Whom a signal may wake. -/
theorem exists_mayNotify (pc : Tid → Place T) : ∃ w, notEmpty.MayNotify pc w := by
  by_cases h : ∃ t, notEmpty.asleep (pc t) = true
  · obtain ⟨t, ht⟩ := h
    exact ⟨some t, ht⟩
  · exact ⟨none, fun t => Bool.eq_false_iff.mpr fun ht => h ⟨t, ht⟩⟩

omit [DecidableEq Tid] [Fintype Tid] in
/-- The holder of the mutex can go on. -/
theorem exists_own_of_inside (hin : (s.pc t).inside = true) :
    ∃ a : Event Tid T, a.own = true ∧ s.Enabled a := by
  cases hsignals : (s.pc t).signals with
  | true =>
      obtain ⟨w, hw⟩ := exists_mayNotify s.pc
      exact ⟨.notify t w, rfl, hsignals, hw⟩
  | false =>
      refine ⟨.step t, rfl, ?_⟩
      simp [Enabled, canStep, hin, hsignals]

omit [Fintype Tid] in
/-- Somebody in a call can go on, unless all who are in one sleep. -/
theorem Sound.exists_own (h : Sound s) (hidle : s.pc t ≠ .idle)
    (hawake : notEmpty.asleep (s.pc t) = false) :
    ∃ a : Event Tid T, a.own = true ∧ s.Enabled a := by
  cases hholder : s.holder with
  | some u => exact exists_own_of_inside ((h.mutex u).mpr hholder)
  | none =>
      have hout := Exclusive.outside (hholder ▸ h.mutex) t
      refine ⟨.step t, rfl, ?_⟩
      have hlocks : (s.pc t).locks = true := by
        cases hpc : s.pc t with
        | idle => exact absurd hpc hidle
        | takeWait =>
            rw [hpc] at hawake
            cases hawake
        | putLock | takeLock | takeWoken | sizeLock => rfl
        | _ =>
            rw [hpc] at hout
            cases hout
      simp [Enabled, canStep, hlocks, hholder]

omit [DecidableEq Tid] in
/-- A sleeper with an item to take is not left alone. -/
theorem Signalled.exists_awake (h : Signalled s) (hasleep : notEmpty.asleep (s.pc t) = true)
    (hany : s.queue ≠ []) : ∃ u, s.pc u ≠ .idle ∧ notEmpty.asleep (s.pc u) = false := by
  obtain ⟨u, hu⟩ := h.exists_pos hasleep (List.length_pos_iff.mpr hany)
  refine ⟨u, fun hidle => ?_, ?_⟩
  · rw [hidle] at hu
    cases hu
  · cases hpc : s.pc u with
    | takeWait =>
        rw [hpc] at hu
        cases hu
    | _ => rfl

/-! ## How long a call can take -/

/-- What an event brings in: the statements of a call, or those of a thread that
wakes up by itself. -/
def Event.cost : Event Tid T → Nat
  | .put _ _ => 9
  | .take _ => 5
  | .size _ => 4
  | .spurious _ => 5
  | .step _ | .notify _ _ => 0

/-- The statements before the threads. -/
def weight (s : BlockingQueue Tid T) : Nat := tally (fun _ => Place.weight) s.pc

theorem weight_go (s : BlockingQueue Tid T) (t : Tid) (p : Place T) :
    (s.go t p).weight + (s.pc t).weight = s.weight + p.weight :=
  tally_move (fun _ => Place.weight) s.pc t p

/-- A signal costs what the thread it wakes has before it again. -/
theorem weight_notify (s : BlockingQueue Tid T) {w : Option Tid} (hw : notEmpty.MayNotify s.pc w) :
    { s with pc := notEmpty.notify s.pc w }.weight ≤ s.weight + 4 := by
  cases w with
  | none => exact Nat.le_add_right _ _
  | some w =>
      have htally := tally_move (fun _ => Place.weight) s.pc w (notEmpty.woken (s.pc w))
      have hwoken : (notEmpty.woken (s.pc w)).weight ≤ 4 := by
        cases hpc : s.pc w with
        | takeWait => exact le_rfl
        | _ =>
            rw [Condition.MayNotify, hpc] at hw
            cases hw
      simp only [Condition.notify, weight]
      omega

theorem weight_move (m : Move s a s') : s'.weight + 1 ≤ s.weight + a.cost := by
  cases m with
  | @call _ t p hpc hc =>
      have h := weight_go s t p
      rw [hpc] at h
      cases hc <;> simp only [Place.weight, Event.cost] at h ⊢ <;> omega
  | @locked t p _ hl =>
      have h := weight_go s t p
      change (s.go t p).weight + 1 ≤ _
      generalize s.pc t = q at h hl
      cases hl <;> simp only [Place.weight, Event.cost] at h ⊢ <;> omega
  | @looked t p hl =>
      have h := weight_go s t p
      generalize s.pc t = q at h hl
      cases hl <;> simp only [Place.weight, Event.cost] at h ⊢ <;> omega
  | @sleep t hpc =>
      have h := weight_go s t .takeWait
      change (s.go t .takeWait).weight + 1 ≤ _
      rw [hpc] at h
      simp only [Place.weight, Event.cost] at h ⊢
      omega
  | @push t x hpc =>
      have h := weight_go s t (.putNotify x)
      change (s.go t (.putNotify x)).weight + 1 ≤ _
      rw [hpc] at h
      simp only [Place.weight, Event.cost] at h ⊢
      omega
  | @pop t x _ hpc _ =>
      have h := weight_go s t (.takeUnlock x)
      change (s.go t (.takeUnlock x)).weight + 1 ≤ _
      rw [hpc] at h
      simp only [Place.weight, Event.cost] at h ⊢
      omega
  | @notified t x w hpc hw =>
      have h := weight_go { s with pc := notEmpty.notify s.pc w } t (.putUnlock x)
      have hwoken := weight_notify s hw
      have hpc' : notEmpty.notify s.pc w t = .putNotify x := Condition.notify_eq hpc rfl
      simp only [hpc', Place.weight, Event.cost] at h ⊢
      omega
  | @put t _ hpc | @taken t _ hpc | @sized t _ hpc =>
      have h := weight_go s t .idle
      change (s.go t .idle).weight + 1 ≤ _
      rw [hpc] at h
      simp only [Place.weight, Event.cost] at h ⊢
      omega
  | @spurious t hasleep =>
      have h := weight_notify s (w := some t) hasleep
      simp only [Event.cost]
      omega

/-- **An unbounded FIFO.** However the threads are interleaved: what was pushed
is what was popped and then the content, in order; each call pushes or pops
once, between its start and its end, and `size` returns what was pushed and not
popped; no assertion fails. If no more calls are made and nobody wakes up by
itself, then after so many events as the threads have statements before them
nothing more can happen, and then all calls have returned but for the `take`s
that sleep at an empty queue. -/
theorem put_take_settle (hs : system.Reachable s) :
    s.pushed.map Prod.snd = s.popped.map Prod.snd ++ s.queue ∧
      (∀ t, callsOf t s.pushed = callsOf t s.puts ++ putting (s.pc t)) ∧
      (∀ t, callsOf t s.popped = callsOf t s.takes ++ taking (s.pc t)) ∧
      (∀ t n, s.pc t = .sizeUnlock n → s.pushed.length = s.popped.length + n) ∧
      (∀ a, s.Enabled a → ∃ s', s.next a = .ok s') ∧
      (∀ as s', system.Run s as s' → (∀ a ∈ as, a.own = true) → as.length ≤ s.weight) ∧
      ((∀ a : Event Tid T, a.own = true → ¬s.Enabled a) →
        ∀ t, s.pc t = .idle ∨ s.pc t = .takeWait ∧ s.queue = []) := by
  obtain ⟨h, hserved⟩ := sound_invariant.reachable hs
  refine ⟨h.fifo, h.puts, h.takes, ?_, fun a _ => h.no_fault a, ?_, ?_⟩
  · intro t n hpc
    have hsure := h.sure t
    rw [hpc] at hsure
    have hlen := congrArg List.length h.fifo
    simp only [List.length_map, List.length_append] at hlen
    rw [hlen, show n = s.queue.length from hsure]
  · intro as s' hrun hown
    have hzero : Lts.total Event.cost as = 0 := by
      refine Lts.total_eq_zero fun a ha => ?_
      have ha := hown a ha
      cases a <;> first | rfl | cases ha
    have hlen := hrun.length_le (I := fun _ => True) weight Event.cost
      (fun _ _ _ _ _ _ => trivial)
      (fun _ _ _ _ he hn => weight_move (move_of_next he hn)) trivial
    omega
  · intro hstuck t
    have hstays : ∀ u, s.pc u ≠ .idle → notEmpty.asleep (s.pc u) = true := by
      intro u hidle
      by_contra hawake
      obtain ⟨a, hown, ha⟩ := h.exists_own hidle (Bool.eq_false_iff.mpr hawake)
      exact hstuck a hown ha
    by_cases hidle : s.pc t = .idle
    · exact Or.inl hidle
    · have hasleep := hstays t hidle
      refine Or.inr ⟨?_, ?_⟩
      · cases hpc : s.pc t <;> rw [hpc] at hasleep <;> first | rfl | cases hasleep
      · by_contra hany
        obtain ⟨u, hu, hawake⟩ := hserved.exists_awake hasleep hany
        rw [hstays u hu] at hawake
        cases hawake

/-- Thread 1 sleeps when thread 0 puts an item and wakes it, but thread 2 is
faster: thread 1 sleeps again, at an empty queue, and that is all. -/
theorem put_take_settle_three : ∃ s : BlockingQueue (Fin 3) Nat,
    s.takes = [(2, 7)] ∧ s.pc 1 = .takeWait ∧
      s.pushed.map Prod.snd = s.popped.map Prod.snd ++ s.queue ∧
      ∀ as s', system.Run s as s' → (∀ a ∈ as, a.own = true) → as.length ≤ 0 := by
  obtain ⟨s, hs, hp⟩ := Lts.exists_reachable_of_exec
    (L := (system : Lts (BlockingQueue (Fin 3) Nat) _ _))
    [.take 1, .step 1, .step 1, .step 1, .put 0 7, .step 0, .step 0, .notify 0 (some 1), .step 0,
      .take 2, .step 2, .step 2, .step 2, .step 2, .step 1, .step 1, .step 1]
    (fun s => s.takes = [(2, 7)] ∧ s.pc 1 = .takeWait ∧ s.weight = 0) rfl (by decide +kernel)
  obtain ⟨htakes, hpc, hweight⟩ := of_decide_eq_true hp
  obtain ⟨hfifo, -, -, -, -, hsettle, -⟩ := put_take_settle hs
  exact ⟨s, htakes, hpc, hfifo, fun as s' hrun hown => hweight ▸ hsettle as s' hrun hown⟩

end Served

end BlockingQueue

end Muduo
