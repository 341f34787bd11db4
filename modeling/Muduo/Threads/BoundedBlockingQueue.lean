import Muduo.Base
import Muduo.Lib.Lts
import Muduo.Lib.Threads

/-!
# `BoundedBlockingQueue`

`put` and `take` under a mutex, with the condition variables `notEmpty_` and
`notFull_`. Any number of threads may be in either at a time, and they are
interleaved statement by statement: that the mutex keeps all but one out is
proved of the runs. A signal wakes at most one thread; a thread that was woken
has to take the mutex again and may find that another was faster; a thread may
also wake up with no signal at all.

The items are in a `boost::circular_buffer`, of which the model uses what its
documentation says (`LawfulCircularBuffer`). Its `push_back` overwrites when
the buffer is full; that it is never called then is proved, not assumed
(`put_take_fifo`).
-/

namespace Muduo

open Lib Lib.Threads

/-! ## The circular buffer -/

/-- The members of `boost::circular_buffer` that the queue calls. -/
class CircularBuffer (β : Type) (T : outParam Type) where
  ofCapacity : Nat → β
  capacity : β → Nat
  content : β → List T
  full : β → Bool
  empty : β → Bool
  /-- `none` where the precondition of `front()` fails. -/
  front : β → Option T
  pushBack : β → T → β
  popFront : β → β

open CircularBuffer

/-- What is documented of them: `push_back` keeps the last `capacity()` of
the items. -/
class LawfulCircularBuffer (β : Type) (T : outParam Type) [CircularBuffer β T] : Prop where
  capacity_ofCapacity (n : Nat) : capacity (ofCapacity n : β) = n
  content_ofCapacity (n : Nat) : content (ofCapacity n : β) = []
  full_iff (b : β) : full b = true ↔ (content b).length = capacity b
  empty_iff (b : β) : empty b = true ↔ content b = []
  front_eq (b : β) : front b = (content b).head?
  capacity_pushBack (b : β) (x : T) : capacity (pushBack b x) = capacity b
  content_pushBack (b : β) (x : T) : content (pushBack b x) =
    (content b ++ [x]).drop ((content b).length + 1 - capacity b)
  capacity_popFront (b : β) : capacity (popFront b) = capacity b
  content_popFront (b : β) : content b ≠ [] → content (popFront b) = (content b).tail

section Laws

variable {β T : Type} [CircularBuffer β T] [LawfulCircularBuffer β T]

/-- Nothing is overwritten in a buffer that has room. -/
theorem content_pushBack_of_room {b : β} (h : (content b).length < capacity b) (x : T) :
    content (pushBack b x) = content b ++ [x] := by
  rw [LawfulCircularBuffer.content_pushBack, Nat.sub_eq_zero_of_le h, List.drop_zero]

end Laws

/-- A circular buffer kept as the list of its items. -/
structure ListBuffer (T : Type) where
  capacity : Nat
  items : List T

instance (T : Type) : CircularBuffer (ListBuffer T) T where
  ofCapacity n := ⟨n, []⟩
  capacity b := b.capacity
  content b := b.items
  full b := b.items.length = b.capacity
  empty b := b.items.isEmpty
  front b := b.items.head?
  pushBack b x := { b with items := (b.items ++ [x]).drop (b.items.length + 1 - b.capacity) }
  popFront b := { b with items := b.items.tail }

instance (T : Type) : LawfulCircularBuffer (ListBuffer T) T where
  capacity_ofCapacity _ := rfl
  content_ofCapacity _ := rfl
  full_iff _ := decide_eq_true_iff
  empty_iff _ := List.isEmpty_iff
  front_eq _ := rfl
  capacity_pushBack _ _ := rfl
  content_pushBack _ _ := rfl
  capacity_popFront _ := rfl
  content_popFront _ _ := rfl

/-! ## The queue -/

/-- Where a thread is: in no call; in `put(x)`, at its statements in order,
asleep in `notFull_.wait()`, or woken there without the mutex; in `take()`
likewise. -/
inductive QueuePlace (T : Type) where
  | idle
  | putLock (x : T) | putTest (x : T) | putSleep (x : T) | putWait (x : T) | putWoken (x : T)
  | putPush (x : T) | putNotify (x : T) | putUnlock (x : T)
  | takeLock | takeTest | takeSleep | takeWait | takeWoken
  | takePop | takeNotify (front : T) | takeUnlock (front : T)
deriving DecidableEq

/-- The assertions before `push_back` and `front`, and `front` with nothing
there. -/
inductive QueueFault where
  | full | empty | noFront
deriving DecidableEq

namespace QueuePlace

variable {T : Type}

/-- Does a thread there hold the mutex? -/
def inside : QueuePlace T → Bool
  | .putTest _ | .putSleep _ | .putPush _ | .putNotify _ | .putUnlock _ => true
  | .takeTest | .takeSleep | .takePop | .takeNotify _ | .takeUnlock _ => true
  | _ => false

/-- Does a step there take the mutex? -/
def locks : QueuePlace T → Bool
  | .putLock _ | .putWoken _ | .takeLock | .takeWoken => true
  | _ => false

def inTake : QueuePlace T → Bool
  | .takeLock | .takeTest | .takeSleep | .takeWait | .takeWoken => true
  | .takePop | .takeNotify _ | .takeUnlock _ => true
  | _ => false

def inPut : QueuePlace T → Bool
  | .putLock _ | .putTest _ | .putSleep _ | .putWait _ | .putWoken _ => true
  | .putPush _ | .putNotify _ | .putUnlock _ => true
  | _ => false

end QueuePlace

/-- `notEmpty_` -/
def notEmpty {T : Type} : Condition (QueuePlace T) where
  asleep | .takeWait => true | _ => false
  woken | .takeWait => .takeWoken | p => p
  woken_awake p := by cases p <;> rfl
  woken_of_awake p := by cases p <;> first | exact fun _ => rfl | nofun

/-- `notFull_` -/
def notFull {T : Type} : Condition (QueuePlace T) where
  asleep | .putWait _ => true | _ => false
  woken | .putWait x => .putWoken x | p => p
  woken_awake p := by cases p <;> rfl
  woken_of_awake p := by cases p <;> first | exact fun _ => rfl | nofun

/-- The condition variable that a thread there signals. -/
def QueuePlace.signals {T : Type} : QueuePlace T → Option (Condition (QueuePlace T))
  | .putNotify _ => some notEmpty
  | .takeNotify _ => some notFull
  | _ => none

/-- The queue and the threads in it. -/
structure BoundedBlockingQueue (Tid β T : Type) where
  queue : β
  /-- Who holds `mutex_`. -/
  holder : Option Tid
  pc : Tid → QueuePlace T
  /-- What was pushed and what was popped, in that order, and by whom. -/
  pushed : List (Tid × T)
  popped : List (Tid × T)
  /-- The calls that have returned. -/
  puts : List (Tid × T)
  takes : List (Tid × T)

/-- A thread calls `put` or `take`, makes a step, signals (and `w`, if any, is
woken), or wakes up without a signal. -/
inductive QueueEvent (Tid T : Type) where
  | put (t : Tid) (x : T)
  | take (t : Tid)
  | step (t : Tid)
  | notify (t : Tid) (w : Option Tid)
  | spurious (t : Tid)

namespace BoundedBlockingQueue

variable {Tid β T : Type} [DecidableEq Tid] [CircularBuffer β T]

def new (maxSize : Nat) : BoundedBlockingQueue Tid β T :=
  ⟨ofCapacity maxSize, none, fun _ => .idle, [], [], [], []⟩

def go (s : BoundedBlockingQueue Tid β T) (t : Tid) (p : QueuePlace T) :
    BoundedBlockingQueue Tid β T :=
  { s with pc := Function.update s.pc t p }

def lock (s : BoundedBlockingQueue Tid β T) (t : Tid) (p : QueuePlace T) :
    BoundedBlockingQueue Tid β T :=
  { s with holder := some t }.go t p

def unlock (s : BoundedBlockingQueue Tid β T) (t : Tid) (p : QueuePlace T) :
    BoundedBlockingQueue Tid β T :=
  { s with holder := none }.go t p

/-- The statement of `put` or `take` that `t` is at. -/
def advance (s : BoundedBlockingQueue Tid β T) (t : Tid) :
    QueuePlace T → Except QueueFault (BoundedBlockingQueue Tid β T)
  | .putLock x => .ok (s.lock t (.putTest x))
  | .putTest x => .ok (s.go t (if full s.queue then .putSleep x else .putPush x))
  | .putSleep x => .ok (s.unlock t (.putWait x))
  | .putWoken x => .ok (s.lock t (.putTest x))
  | .putPush x => do
      check (full s.queue = false) .full
      return { s with
        queue := pushBack s.queue x, pushed := s.pushed ++ [(t, x)] }.go t (.putNotify x)
  | .putUnlock x => .ok ({ s with puts := s.puts ++ [(t, x)] }.unlock t .idle)
  | .takeLock => .ok (s.lock t .takeTest)
  | .takeTest => .ok (s.go t (if empty s.queue then .takeSleep else .takePop))
  | .takeSleep => .ok (s.unlock t .takeWait)
  | .takeWoken => .ok (s.lock t .takeTest)
  | .takePop => do
      check (empty s.queue = false) .empty
      match front s.queue with
      | none => .error .noFront
      | some x => return { s with
          queue := popFront s.queue, popped := s.popped ++ [(t, x)] }.go t (.takeNotify x)
  | .takeUnlock x => .ok ({ s with takes := s.takes ++ [(t, x)] }.unlock t .idle)
  | .idle | .putWait _ | .putNotify _ | .takeWait | .takeNotify _ => .ok s

/-- May a thread at `p` make a step of its own? -/
def canStep (s : BoundedBlockingQueue Tid β T) (p : QueuePlace T) : Bool :=
  p.inside && p.signals.isNone || p.locks && s.holder.isNone

def Enabled (s : BoundedBlockingQueue Tid β T) : QueueEvent Tid T → Prop
  | .put t _ => s.pc t = .idle
  | .take t => s.pc t = .idle
  | .step t => s.canStep (s.pc t) = true
  | .notify t w => ∃ c ∈ (s.pc t).signals, c.MayNotify s.pc w
  | .spurious t => notEmpty.asleep (s.pc t) = true ∨ notFull.asleep (s.pc t) = true

def next (s : BoundedBlockingQueue Tid β T) :
    QueueEvent Tid T → Except QueueFault (BoundedBlockingQueue Tid β T)
  | .put t x => .ok (s.go t (.putLock x))
  | .take t => .ok (s.go t .takeLock)
  | .step t => s.advance t (s.pc t)
  | .notify t w =>
      match s.pc t with
      | .putNotify x => .ok ({ s with pc := notEmpty.notify s.pc w }.go t (.putUnlock x))
      | .takeNotify x => .ok ({ s with pc := notFull.notify s.pc w }.go t (.takeUnlock x))
      | _ => .ok s
  | .spurious t =>
      if notEmpty.asleep (s.pc t) then .ok { s with pc := notEmpty.notify s.pc (some t) }
      else .ok { s with pc := notFull.notify s.pc (some t) }

/-- Any number of threads in a queue of capacity `maxSize`. -/
def system (maxSize : Nat) :
    Lts (BoundedBlockingQueue Tid β T) (QueueEvent Tid T) QueueFault where
  init s := s = new maxSize
  enabled := Enabled
  next := next

instance [Fintype Tid] [DecidableEq T] (maxSize : Nat) (s : BoundedBlockingQueue Tid β T) :
    ∀ a, Decidable ((system maxSize).enabled s a)
  | .put t _ => inferInstanceAs (Decidable (s.pc t = .idle))
  | .take t => inferInstanceAs (Decidable (s.pc t = .idle))
  | .step t => inferInstanceAs (Decidable (s.canStep (s.pc t) = true))
  | .notify t w => inferInstanceAs (Decidable (∃ c ∈ (s.pc t).signals, c.MayNotify s.pc w))
  | .spurious _ => inferInstanceAs (Decidable (_ = true ∨ _ = true))

/-! ## All an event can do -/

variable {n : Nat} {s s' : BoundedBlockingQueue Tid β T} {a : QueueEvent Tid T} {t : Tid}
  {p : QueuePlace T}

/-- The mutex is taken, for the first time or again. -/
inductive Locks : QueuePlace T → QueuePlace T → Prop where
  | put (x : T) : Locks (.putLock x) (.putTest x)
  | putAgain (x : T) : Locks (.putWoken x) (.putTest x)
  | take : Locks .takeLock .takeTest
  | takeAgain : Locks .takeWoken .takeTest

/-- The test of a loop. -/
inductive Tests (b : β) : QueuePlace T → QueuePlace T → Prop where
  | full (x : T) : full b = true → Tests b (.putTest x) (.putSleep x)
  | room (x : T) : full b = false → Tests b (.putTest x) (.putPush x)
  | empty : empty b = true → Tests b .takeTest .takeSleep
  | any : empty b = false → Tests b .takeTest .takePop

/-- `wait` lets the mutex go and sleeps in one. -/
inductive Sleeps : QueuePlace T → QueuePlace T → Prop where
  | put (x : T) : Sleeps (.putSleep x) (.putWait x)
  | take : Sleeps .takeSleep .takeWait

inductive Move (s : BoundedBlockingQueue Tid β T) : BoundedBlockingQueue Tid β T → Prop where
  | call {t : Tid} {p : QueuePlace T} : s.pc t = .idle → (p = .takeLock ∨ ∃ x, p = .putLock x) →
      Move s (s.go t p)
  | locked {t : Tid} {p : QueuePlace T} : s.holder = none → Locks (s.pc t) p → Move s (s.lock t p)
  | tested {t : Tid} {p : QueuePlace T} : Tests s.queue (s.pc t) p → Move s (s.go t p)
  | sleep {t : Tid} {p : QueuePlace T} : Sleeps (s.pc t) p → Move s (s.unlock t p)
  | push {t : Tid} {x : T} : s.pc t = .putPush x → full s.queue = false →
      Move s ({ s with
        queue := pushBack s.queue x, pushed := s.pushed ++ [(t, x)] }.go t (.putNotify x))
  | pop {t : Tid} {x : T} : s.pc t = .takePop → front s.queue = some x →
      Move s ({ s with
        queue := popFront s.queue, popped := s.popped ++ [(t, x)] }.go t (.takeNotify x))
  | putNotified {t : Tid} {x : T} {w : Option Tid} : s.pc t = .putNotify x →
      notEmpty.MayNotify s.pc w →
      Move s ({ s with pc := notEmpty.notify s.pc w }.go t (.putUnlock x))
  | takeNotified {t : Tid} {x : T} {w : Option Tid} : s.pc t = .takeNotify x →
      notFull.MayNotify s.pc w →
      Move s ({ s with pc := notFull.notify s.pc w }.go t (.takeUnlock x))
  | put {t : Tid} {x : T} : s.pc t = .putUnlock x →
      Move s ({ s with puts := s.puts ++ [(t, x)] }.unlock t .idle)
  | taken {t : Tid} {x : T} : s.pc t = .takeUnlock x →
      Move s ({ s with takes := s.takes ++ [(t, x)] }.unlock t .idle)
  | spurious {t : Tid} {c : Condition (QueuePlace T)} : c = notEmpty ∨ c = notFull →
      c.asleep (s.pc t) = true → Move s { s with pc := c.notify s.pc (some t) }

theorem move_of_step (hstep : s.canStep (s.pc t) = true) (hn : s.advance t (s.pc t) = .ok s') :
    Move s s' := by
  have hfree : (s.pc t).inside = false → s.holder = none := by
    intro hout
    rw [canStep, hout, Bool.false_and, Bool.false_or, Bool.and_eq_true] at hstep
    exact Option.isNone_iff_eq_none.mp hstep.2
  cases hpc : s.pc t with
  | idle | putWait | takeWait | putNotify | takeNotify => simp [hpc, canStep,
      QueuePlace.inside, QueuePlace.locks, QueuePlace.signals] at hstep
  | putLock x =>
      rw [hpc] at hn hfree
      obtain rfl := Except.ok.inj hn
      exact .locked (hfree rfl) (hpc ▸ .put x)
  | putWoken x =>
      rw [hpc] at hn hfree
      obtain rfl := Except.ok.inj hn
      exact .locked (hfree rfl) (hpc ▸ .putAgain x)
  | takeLock =>
      rw [hpc] at hn hfree
      obtain rfl := Except.ok.inj hn
      exact .locked (hfree rfl) (hpc ▸ .take)
  | takeWoken =>
      rw [hpc] at hn hfree
      obtain rfl := Except.ok.inj hn
      exact .locked (hfree rfl) (hpc ▸ .takeAgain)
  | putTest x =>
      rw [hpc] at hn
      obtain rfl := Except.ok.inj hn
      cases hfull : full s.queue with
      | true => exact .tested (hpc ▸ .full x hfull)
      | false => exact .tested (hpc ▸ .room x hfull)
  | putSleep x =>
      rw [hpc] at hn
      obtain rfl := Except.ok.inj hn
      exact .sleep (hpc ▸ .put x)
  | takeTest =>
      rw [hpc] at hn
      obtain rfl := Except.ok.inj hn
      cases hempty : empty s.queue with
      | true => exact .tested (hpc ▸ .empty hempty)
      | false => exact .tested (hpc ▸ .any hempty)
  | takeSleep =>
      rw [hpc] at hn
      obtain rfl := Except.ok.inj hn
      exact .sleep (hpc ▸ .take)
  | putPush x =>
      rw [hpc] at hn
      obtain ⟨_, hc, hn⟩ := bind_eq_ok hn
      obtain rfl := Except.ok.inj hn
      exact .push hpc (of_check hc)
  | takePop =>
      rw [hpc] at hn
      obtain ⟨_, hc, hn⟩ := bind_eq_ok hn
      split at hn
      · cases hn
      · obtain rfl := Except.ok.inj hn
        exact .pop hpc ‹_›
  | putUnlock x =>
      rw [hpc] at hn
      obtain rfl := Except.ok.inj hn
      exact .put hpc
  | takeUnlock x =>
      rw [hpc] at hn
      obtain rfl := Except.ok.inj hn
      exact .taken hpc

theorem move_of_next (he : s.Enabled a) (hn : s.next a = .ok s') : Move s s' := by
  cases a with
  | put t x =>
      obtain rfl := Except.ok.inj hn
      exact .call he (Or.inr ⟨x, rfl⟩)
  | take t =>
      obtain rfl := Except.ok.inj hn
      exact .call he (Or.inl rfl)
  | step t => exact move_of_step he hn
  | notify t w =>
      simp only [Enabled, next] at he hn
      obtain ⟨c, hc, hw⟩ := he
      cases hpc : s.pc t with
      | putNotify x =>
          simp only [hpc] at hc hn
          obtain rfl := Option.some.inj hc
          obtain rfl := Except.ok.inj hn
          exact .putNotified hpc hw
      | takeNotify x =>
          simp only [hpc] at hc hn
          obtain rfl := Option.some.inj hc
          obtain rfl := Except.ok.inj hn
          exact .takeNotified hpc hw
      | _ =>
          rw [hpc] at hc
          cases hc
  | spurious t =>
      simp only [Enabled, next] at he hn
      split at hn
      · obtain rfl := Except.ok.inj hn
        exact .spurious (Or.inl rfl) ‹_›
      · obtain rfl := Except.ok.inj hn
        exact .spurious (Or.inr rfl) (he.resolve_left ‹_›)

/-! ## What holds in every state -/

/-- What a thread there has made sure of, and relies on. -/
def Sure (b : β) : QueuePlace T → Prop
  | .putSleep _ => full b = true
  | .putPush _ => full b = false
  | .takeSleep => empty b = true
  | .takePop => empty b = false
  | _ => True

theorem sure_of_outside (q : β) {p : QueuePlace T} (hp : p.inside = false) : Sure q p := by
  cases p <;> trivial

/-- The item of a `put` that has pushed it and not returned. -/
def putting : QueuePlace T → List T
  | .putNotify x | .putUnlock x => [x]
  | _ => []

/-- The item of a `take` that has popped it and not returned. -/
def taking : QueuePlace T → List T
  | .takeNotify x | .takeUnlock x => [x]
  | _ => []

/-- Nobody but the holder of the mutex is inside, and what the holder has
tested still holds; the content is what was pushed and not popped; a call
pushes or pops once, between its start and its end. -/
structure Sound (n : Nat) (s : BoundedBlockingQueue Tid β T) : Prop where
  mutex : Exclusive QueuePlace.inside s.holder s.pc
  sure : ∀ t, Sure s.queue (s.pc t)
  capacity : capacity s.queue = n
  bound : (content s.queue).length ≤ n
  fifo : s.pushed.map Prod.snd = s.popped.map Prod.snd ++ content s.queue
  puts : InHand putting s.pushed s.puts s.pc
  takes : InHand taking s.popped s.takes s.pc

/-- A step that moves no item. -/
theorem Sound.move (h : Sound n s) {holder : Option Tid}
    (hmutex : Exclusive QueuePlace.inside holder (Function.update s.pc t p))
    (hsure : Sure s.queue p) (hput : putting p = putting (s.pc t))
    (htake : taking p = taking (s.pc t)) :
    Sound n ({ s with holder := holder }.go t p) where
  mutex := hmutex
  sure := (Function.forall_update_iff s.pc _).mpr ⟨hsure, fun u _ => h.sure u⟩
  capacity := h.capacity
  bound := h.bound
  fifo := h.fifo
  puts := h.puts.same hput
  takes := h.takes.same htake

section Woken

omit [DecidableEq Tid]

variable {c : Condition (QueuePlace T)} (hc : c = notEmpty ∨ c = notFull) (q : QueuePlace T)

include hc

theorem inside_woken : (c.woken q).inside = q.inside := by
  rcases hc with rfl | rfl <;> cases q <;> rfl

theorem sure_woken (b : β) : Sure b (c.woken q) = Sure b q := by
  rcases hc with rfl | rfl <;> cases q <;> rfl

theorem putting_woken : putting (c.woken q) = putting q := by
  rcases hc with rfl | rfl <;> cases q <;> rfl

theorem taking_woken : taking (c.woken q) = taking q := by
  rcases hc with rfl | rfl <;> cases q <;> rfl

end Woken

/-- A signal moves no item. -/
theorem Sound.notify (h : Sound n s) {c : Condition (QueuePlace T)}
    (hc : c = notEmpty ∨ c = notFull) (w : Option Tid) :
    Sound n { s with pc := c.notify s.pc w } where
  mutex := h.mutex.notify (inside_woken hc) w
  sure := Condition.forall_notify (K := fun _ => Sure s.queue)
    (fun _ q hq => by rwa [sure_woken hc]) h.sure w
  capacity := h.capacity
  bound := h.bound
  fifo := h.fifo
  puts := h.puts.notify (putting_woken hc) w
  takes := h.takes.notify (taking_woken hc) w

/-- The signal of a thread awake, which then goes on. -/
theorem Sound.notified (h : Sound n s) {c : Condition (QueuePlace T)} {w : Option Tid}
    (hc : c = notEmpty ∨ c = notFull) (hawake : c.asleep (s.pc t) = false)
    (hin : p.inside = (s.pc t).inside) (hsure : Sure s.queue p)
    (hput : putting p = putting (s.pc t)) (htake : taking p = taking (s.pc t)) :
    Sound n ({ s with pc := c.notify s.pc w }.go t p) := by
  have hn := h.notify hc w
  rw [← Condition.notify_of_awake (w := w) hawake] at hin hput htake
  exact hn.move (hn.mutex.stay hin) hsure hput htake

theorem Locks.quiet {q : QueuePlace T} (h : Locks p q) (b : β) :
    q.inside = true ∧ Sure b q ∧ putting q = putting p ∧ taking q = taking p := by
  cases h <;> exact ⟨rfl, trivial, rfl, rfl⟩

theorem Tests.quiet {b : β} {q : QueuePlace T} (h : Tests b p q) :
    q.inside = p.inside ∧ Sure b q ∧ putting q = putting p ∧ taking q = taking p := by
  cases h <;> exact ⟨rfl, ‹_›, rfl, rfl⟩

omit [CircularBuffer β T] in
theorem Sleeps.quiet {q : QueuePlace T} (h : Sleeps p q) :
    p.inside = true ∧ q.inside = false ∧ putting q = putting p ∧ taking q = taking p := by
  cases h <;> exact ⟨rfl, rfl, rfl, rfl⟩

theorem Sound.put (h : Sound n s) {x : T} (hpc : s.pc t = .putUnlock x) :
    Sound n ({ s with puts := s.puts ++ [(t, x)] }.unlock t .idle) where
  mutex := h.mutex.release (by rw [hpc]; rfl) rfl
  sure := h.mutex.known (fun _ => sure_of_outside _) (by rw [hpc]; rfl) trivial
  capacity := h.capacity
  bound := h.bound
  fifo := h.fifo
  puts := h.puts.end (by rw [hpc]; rfl) rfl
  takes := h.takes.same (by rw [hpc]; rfl)

theorem Sound.taken (h : Sound n s) {x : T} (hpc : s.pc t = .takeUnlock x) :
    Sound n ({ s with takes := s.takes ++ [(t, x)] }.unlock t .idle) where
  mutex := h.mutex.release (by rw [hpc]; rfl) rfl
  sure := h.mutex.known (fun _ => sure_of_outside _) (by rw [hpc]; rfl) trivial
  capacity := h.capacity
  bound := h.bound
  fifo := h.fifo
  puts := h.puts.same (by rw [hpc]; rfl)
  takes := h.takes.end (by rw [hpc]; rfl) rfl

variable [LawfulCircularBuffer β T]

theorem sound_new (n : Nat) : Sound n (new n : BoundedBlockingQueue Tid β T) where
  mutex _ := ⟨nofun, nofun⟩
  sure _ := trivial
  capacity := LawfulCircularBuffer.capacity_ofCapacity n
  bound := by simp [new, LawfulCircularBuffer.content_ofCapacity]
  fifo := by simp [new, LawfulCircularBuffer.content_ofCapacity]
  puts _ := rfl
  takes _ := rfl

theorem Sound.room (h : Sound n s) (hroom : full s.queue = false) :
    (content s.queue).length < CircularBuffer.capacity s.queue := by
  refine lt_of_le_of_ne (h.capacity ▸ h.bound) fun heq => ?_
  rw [(LawfulCircularBuffer.full_iff _).mpr heq] at hroom
  cases hroom

theorem Sound.push (h : Sound n s) {x : T} (hpc : s.pc t = .putPush x)
    (hroom : full s.queue = false) :
    Sound n ({ s with
      queue := pushBack s.queue x, pushed := s.pushed ++ [(t, x)] }.go t (.putNotify x)) := by
  have hlt := h.room hroom
  have hcontent := content_pushBack_of_room hlt x
  exact {
    mutex := h.mutex.stay (by rw [hpc]; rfl)
    sure := h.mutex.known (fun _ => sure_of_outside _) (by rw [hpc]; rfl) trivial
    capacity := (LawfulCircularBuffer.capacity_pushBack ..).trans h.capacity
    bound := by
      change (content (pushBack s.queue x)).length ≤ n
      rw [hcontent, List.length_append, ← h.capacity]
      exact hlt
    fifo := by
      change (s.pushed ++ [(t, x)]).map Prod.snd = _ ++ content (pushBack s.queue x)
      rw [hcontent, List.map_append, h.fifo, List.append_assoc]
      rfl
    puts := h.puts.do (by rw [hpc]; rfl) rfl
    takes := h.takes.same (by rw [hpc]; rfl) }

theorem Sound.pop (h : Sound n s) {x : T} (hpc : s.pc t = .takePop)
    (hfront : front s.queue = some x) :
    Sound n ({ s with
      queue := popFront s.queue, popped := s.popped ++ [(t, x)] }.go t (.takeNotify x)) := by
  rw [LawfulCircularBuffer.front_eq] at hfront
  obtain ⟨rest, hrest⟩ := List.head?_eq_some_iff.mp hfront
  have hcontent : content (popFront s.queue) = rest := by
    rw [LawfulCircularBuffer.content_popFront _ (by rw [hrest]; nofun), hrest]
    rfl
  have hbound := h.bound
  rw [hrest] at hbound
  exact {
    mutex := h.mutex.stay (by rw [hpc]; rfl)
    sure := h.mutex.known (fun _ => sure_of_outside _) (by rw [hpc]; rfl) trivial
    capacity := (LawfulCircularBuffer.capacity_popFront ..).trans h.capacity
    bound := by
      change (content (popFront s.queue)).length ≤ n
      rw [hcontent]
      exact Nat.le_of_succ_le hbound
    fifo := by
      change s.pushed.map Prod.snd =
        (s.popped ++ [(t, x)]).map Prod.snd ++ content (popFront s.queue)
      rw [hcontent, h.fifo, hrest, List.map_append, List.append_assoc]
      rfl
    puts := h.puts.same (by rw [hpc]; rfl)
    takes := h.takes.do (by rw [hpc]; rfl) rfl }

/-- **One event.** -/
theorem Sound.step (h : Sound n s) (m : Move s s') : Sound n s' := by
  cases m with
  | @call t p hpc hp =>
      have hquiet : p.inside = false ∧ putting p = [] ∧ taking p = [] := by
        rcases hp with rfl | ⟨x, rfl⟩ <;> exact ⟨rfl, rfl, rfl⟩
      obtain ⟨hout, hput, htake⟩ := hquiet
      exact h.move (h.mutex.stay (by rw [hout, hpc]; rfl)) (sure_of_outside _ hout)
        (by rw [hput, hpc]; rfl) (by rw [htake, hpc]; rfl)
  | locked hfree hl =>
      obtain ⟨hin, hsure, hput, htake⟩ := hl.quiet s.queue
      have hmutex := h.mutex
      rw [hfree] at hmutex
      exact h.move (hmutex.acquire hin) hsure hput htake
  | sleep hs =>
      obtain ⟨hin, hout, hput, htake⟩ := hs.quiet
      exact h.move (h.mutex.release hin hout) (sure_of_outside _ hout) hput htake
  | tested ht =>
      obtain ⟨hin, hsure, hput, htake⟩ := ht.quiet
      exact h.move (h.mutex.stay hin) hsure hput htake
  | push hpc hroom => exact h.push hpc hroom
  | pop hpc hfront => exact h.pop hpc hfront
  | putNotified hpc _ =>
      exact h.notified (Or.inl rfl) (by rw [hpc]; rfl) (by rw [hpc]; rfl) trivial
        (by rw [hpc]; rfl) (by rw [hpc]; rfl)
  | takeNotified hpc _ =>
      exact h.notified (Or.inr rfl) (by rw [hpc]; rfl) (by rw [hpc]; rfl) trivial
        (by rw [hpc]; rfl) (by rw [hpc]; rfl)
  | put hpc => exact h.put hpc
  | taken hpc => exact h.taken hpc
  | spurious hc _ => exact h.notify hc _

theorem sound_invariant (n : Nat) :
    (system n).Invariant (Sound n : BoundedBlockingQueue Tid β T → Prop) where
  init := by
    rintro s rfl
    exact sound_new n
  step s a s' h he hn := h.step (move_of_next he hn)

/-- The assertions hold, and `front()` finds an item. -/
theorem Sound.no_fault (h : Sound n s) (a : QueueEvent Tid T) : ∃ s', s.next a = .ok s' := by
  have hsure := h.sure
  cases a with
  | put t x => exact ⟨_, rfl⟩
  | take t => exact ⟨_, rfl⟩
  | notify t w => cases hpc : s.pc t <;> exact ⟨_, by rw [next, hpc]⟩
  | spurious t =>
      rw [next]
      split <;> exact ⟨_, rfl⟩
  | step t =>
      rw [next]
      specialize hsure t
      cases hpc : s.pc t with
      | putPush x =>
          have hroom : full s.queue = false := by rwa [hpc] at hsure
          exact ⟨_, by rw [advance, check_of hroom]; rfl⟩
      | takePop =>
          have hany : empty s.queue = false := by rwa [hpc] at hsure
          cases hfront : front s.queue with
          | none =>
              rw [LawfulCircularBuffer.front_eq, List.head?_eq_none_iff,
                ← LawfulCircularBuffer.empty_iff, hany] at hfront
              cases hfront
          | some x => exact ⟨_, by rw [advance, check_of hany, hfront]; rfl⟩
      | _ => exact ⟨_, rfl⟩

/-- **A bounded FIFO.** However the threads are interleaved: what was pushed is
what was popped and then the content, in order; the size stays within the
capacity; each call pushes or pops once, between its start and its end;
`push_back` overwrites nothing and `pop_front` finds an item; no assertion
fails. -/
theorem put_take_fifo (hs : (system n).Reachable s) :
    s.pushed.map Prod.snd = s.popped.map Prod.snd ++ content s.queue ∧
      (content s.queue).length ≤ n ∧
      (∀ t, callsOf t s.pushed = callsOf t s.puts ++ putting (s.pc t)) ∧
      (∀ t, callsOf t s.popped = callsOf t s.takes ++ taking (s.pc t)) ∧
      (∀ t x, s.pc t = .putPush x → full s.queue = false ∧
        content (pushBack s.queue x) = content s.queue ++ [x]) ∧
      (∀ t, s.pc t = .takePop → content s.queue ≠ []) ∧
      ∀ a, s.Enabled a → ∃ s', s.next a = .ok s' := by
  have h := (sound_invariant n).reachable hs
  refine ⟨h.fifo, h.bound, h.puts, h.takes, fun t x hpc => ?_, fun t hpc => ?_,
    fun a _ => h.no_fault a⟩
  · have hroom := h.sure t
    rw [hpc] at hroom
    exact ⟨hroom, content_pushBack_of_room (h.room hroom) x⟩
  · have hany := h.sure t
    rw [hpc] at hany
    rw [ne_eq, ← LawfulCircularBuffer.empty_iff, show empty s.queue = false from hany]
    exact Bool.false_ne_true

/-- Room for one item: thread 0 puts 7 and waits to put 8; thread 1 takes the 7
and signals; thread 0 puts the 8. -/
theorem put_take_fifo_one : ∃ s : BoundedBlockingQueue (Fin 2) (ListBuffer Nat) Nat,
    s.popped = [(1, 7)] ∧ s.puts = [(0, 7), (0, 8)] ∧
      s.pushed.map Prod.snd = s.popped.map Prod.snd ++ s.queue.items ∧ s.queue.items = [8] := by
  obtain ⟨s, hs, hp⟩ := Lts.exists_reachable_of_exec
    (L := (system 1 : Lts (BoundedBlockingQueue (Fin 2) (ListBuffer Nat) Nat) _ _))
    [.put 0 7, .step 0, .step 0, .step 0, .notify 0 none, .step 0,
      .put 0 8, .step 0, .step 0, .step 0,
      .take 1, .step 1, .step 1, .step 1, .notify 1 (some 0), .step 1,
      .step 0, .step 0, .step 0, .notify 0 none, .step 0]
    (fun s => s.popped = [(1, 7)] ∧ s.puts = [(0, 7), (0, 8)] ∧ s.queue.items = [8]) rfl (by decide)
  obtain ⟨hpopped, hputs, hitems⟩ := of_decide_eq_true hp
  exact ⟨s, hpopped, hputs, (put_take_fifo hs).1, hitems⟩

end BoundedBlockingQueue

end Muduo
