import Muduo.Base
import Muduo.Lib.Lts
import Muduo.Lib.OrdSet
import Muduo.Timestamp
import Mathlib.Data.Prod.Lex

/-!
# `TimerQueue`

The queue with its one-shot timerfd and the `Timer` objects on the heap,
one event at a time: `addTimerInLoop` on a timer just allocated, the start
of a `handleRead`, the run of one callback, the rest of the `handleRead`
once all have run, and the expiration of the timerfd. Callbacks are user
code and may add timers: that is an `addTimerInLoop` between two runs.
`handleRead` may be called at any time, early or for no reason. The wall
clock is read at each event and may say anything positive.

A pointer is a number. A timer comes with any address that no timer alive
has: an address is used again once its timer is deleted. A dereference or a
`delete` of a pointer that is not alive is a fault. Intervals are in
microseconds, and one that is not positive is 0.

Not in the code but recorded for the theorems: `Timer.id`, the readings of
the `handleRead`s begun (`nows`), the timers ever added, the callbacks run
and the timers deleted, in order.
-/

namespace Muduo

open Lib

/-! ## Durations and the timerfd -/

/-- `struct timespec` -/
structure Timespec where
  sec : Int
  nsec : Int
deriving DecidableEq

namespace Timespec

def Normalised (ts : Timespec) : Prop := 0 ≤ ts.sec ∧ 0 ≤ ts.nsec ∧ ts.nsec < 1000 * 1000 * 1000

instance (ts : Timespec) : Decidable ts.Normalised := inferInstanceAs (Decidable (_ ∧ _ ∧ _))

/-- The duration in microseconds. -/
def micros (ts : Timespec) : Int := ts.sec * Timestamp.kMicroSecondsPerSecond + ts.nsec / 1000

end Timespec

def howMuchTimeFromNow (when now : Timestamp) : Timespec :=
  let microseconds := wrap64 (when.microSecondsSinceEpoch - now.microSecondsSinceEpoch)
  let microseconds := if microseconds < 100 then 100 else microseconds
  -- not negative, so `/` and `%` are those of C++
  { sec := microseconds / Timestamp.kMicroSecondsPerSecond
    nsec := microseconds % Timestamp.kMicroSecondsPerSecond * 1000 }

/-- The timerfd: set to nothing, or armed at some clock reading for some
duration, or armed like that and expired since, hence readable. -/
inductive Timerfd where
  | disarmed
  | armed (setAt : Timestamp) (value : Timespec)
  | expired (setAt : Timestamp) (value : Timespec)
deriving DecidableEq

namespace Timerfd

/-- `timerfd_settime`, one-shot and relative. -/
def settime (fd : Timerfd) (now : Timestamp) (value : Timespec) : Timerfd :=
  if ¬value.Normalised then fd
  else if value.sec = 0 ∧ value.nsec = 0 then disarmed
  else armed now value

/-- `read`: fails with `EAGAIN` unless expired. -/
def read : Timerfd → Timerfd
  | expired _ _ => disarmed
  | fd => fd

def expire : Timerfd → Timerfd
  | armed setAt value => expired setAt value
  | fd => fd

end Timerfd

/-! ## Timers -/

/-- `addTime`, with the interval in microseconds. -/
def addTime (timestamp : Timestamp) (micros : Nat) : Timestamp :=
  .ofInt (timestamp.microSecondsSinceEpoch + micros)

structure Timer where
  expiration : Timestamp
  interval : Nat
  id : Nat
deriving DecidableEq

namespace Timer

/-- `repeat_` -/
def repeats (t : Timer) : Bool := 0 < t.interval

def restart (t : Timer) (now : Timestamp) : Timer :=
  if t.repeats then { t with expiration := addTime now t.interval }
  else { t with expiration := .invalid }

end Timer

/-- `TimerQueue::Entry`, a pair ordered like one. -/
structure TimerEntry where
  when : Timestamp
  timer : Nat
deriving DecidableEq

namespace TimerEntry

instance : LinearOrder TimerEntry :=
  LinearOrder.lift' (fun e => (toLex (e.when, e.timer) : Timestamp ×ₗ Nat)) fun e f h => by
    obtain ⟨hw, ht⟩ := Prod.mk.inj (toLex_inj.mp h)
    cases e
    cases f
    cases hw
    cases ht
    rfl

theorem lt_iff {e f : TimerEntry} :
    e < f ↔ e.when < f.when ∨ (e.when = f.when ∧ e.timer < f.timer) :=
  Prod.Lex.lt_iff

theorem when_le {e f : TimerEntry} (h : e ≤ f) : e.when ≤ f.when := by
  rcases lt_or_eq_of_le h with h | rfl
  · rcases lt_iff.mp h with h | ⟨h, -⟩
    · exact le_of_lt h
    · exact le_of_eq h
  · exact le_rfl

end TimerEntry

/-- `UINTPTR_MAX` -/
def uintptrMax : Nat := 2 ^ 64 - 1

/-! ## The queue -/

/-- Between two calls from the loop, or in a `handleRead` that read the clock
as `now`: the callbacks of `ran` have been called, the last of them may be
running, those of `todo` are to come. -/
inductive TimerPhase where
  | idle
  | running (now : Timestamp) (ran todo : List TimerEntry)
deriving DecidableEq

/-- A timer ever added: its expiration and interval, and the number of
`handleRead`s begun before. -/
structure AddedTimer where
  when : Timestamp
  interval : Nat
  addedAt : Nat
deriving DecidableEq

/-- A run of a callback: of which timer, in which `handleRead`, what that one
took for the time, and the expiration of the timer then, in microseconds. -/
structure Firing where
  id : Nat
  handle : Nat
  now : Timestamp
  expiration : Int
deriving DecidableEq

structure TimerQueue where
  timers : OrdSet TimerEntry
  heap : Nat → Option Timer
  timerfd : Timerfd
  phase : TimerPhase
  nows : List Timestamp
  added : List AddedTimer
  log : List Firing
  deleted : List Nat

/-- The assertions of `insert` and `getExpired`, and the two ways to misuse
the heap. -/
inductive TimerFault where
  | insert | getExpired | useAfterFree | doubleFree
deriving DecidableEq

inductive TimerEvent where
  | addTimer (timer : Nat) (when : Timestamp) (interval : Nat) (now : Timestamp)
  | handleRead (now : Timestamp)
  | run
  | reset (now : Timestamp)
  | expire

namespace TimerQueue

def new : TimerQueue where
  timers := .empty
  heap _ := none
  timerfd := .disarmed
  phase := .idle
  nows := []
  added := []
  log := []
  deleted := []

def deref (s : TimerQueue) (timer : Nat) : Except TimerFault Timer :=
  match s.heap timer with
  | some t => .ok t
  | none => .error .useAfterFree

def store (s : TimerQueue) (timer : Nat) (t : Option Timer) : TimerQueue :=
  { s with heap := fun p => if p = timer then t else s.heap p }

def resetTimerfd (s : TimerQueue) (expiration now : Timestamp) : TimerQueue :=
  { s with timerfd := s.timerfd.settime now (howMuchTimeFromNow expiration now) }

/-- Would a timer that expires at `when` be the earliest? -/
def earliestChanged (s : TimerQueue) (when : Timestamp) : Bool :=
  match s.timers.begin? with
  | none => true
  | some e => when < e.when

def insert (s : TimerQueue) (timer : Nat) : Except TimerFault (Bool × TimerQueue) := do
  let t ← s.deref timer
  let when := t.expiration
  let result := s.timers.insert ⟨when, timer⟩
  check (result.2 = true) .insert
  return (s.earliestChanged when, { s with timers := result.1 })

def addTimerInLoop (s : TimerQueue) (timer : Nat) (now : Timestamp) :
    Except TimerFault TimerQueue := do
  let (earliestChanged, s) ← s.insert timer
  if earliestChanged then
    let t ← s.deref timer
    return s.resetTimerfd t.expiration now
  else return s

/-- `new Timer(cb, when, interval)` at the address `timer`. -/
def allocate (s : TimerQueue) (timer : Nat) (when : Timestamp) (interval : Nat) : TimerQueue :=
  { s.store timer (some ⟨when, interval, s.added.length⟩) with
    added := s.added ++ [⟨when, interval, s.nows.length⟩] }

def getExpired (s : TimerQueue) (now : Timestamp) :
    Except TimerFault (List TimerEntry × TimerQueue) := do
  let sentry : TimerEntry := ⟨now, uintptrMax⟩
  check (∀ e, (s.timers.eraseBelow sentry).begin? = some e → now < e.when) .getExpired
  return (s.timers.below sentry, { s with timers := s.timers.eraseBelow sentry })

/-- `delete timer` -/
def delete (s : TimerQueue) (timer : Nat) : Except TimerFault TimerQueue :=
  match s.heap timer with
  | some t => .ok { s.store timer none with deleted := s.deleted ++ [t.id] }
  | none => .error .doubleFree

/-- One iteration of the loop in `reset`. -/
def resetOne (s : TimerQueue) (now : Timestamp) (e : TimerEntry) :
    Except TimerFault TimerQueue := do
  let t ← s.deref e.timer
  if t.repeats then
    let (_, s) ← (s.store e.timer (some (t.restart now))).insert e.timer
    return s
  else s.delete e.timer

/-- `timers_.begin()->second->expiration()`, or an invalid timestamp. -/
def nextExpire (s : TimerQueue) : Except TimerFault Timestamp :=
  match s.timers.begin? with
  | none => .ok .invalid
  | some e => do
      let t ← s.deref e.timer
      return t.expiration

/-- `reset(expired, now)`; the clock reads `clock` when the timerfd is set. -/
def reset (s : TimerQueue) (expired : List TimerEntry) (now clock : Timestamp) :
    Except TimerFault TimerQueue := do
  let s ← expired.foldlM (fun s e => s.resetOne now e) s
  let next ← s.nextExpire
  if next.valid then return s.resetTimerfd next clock else return s

/-- The run of the callback of `e`, on record. -/
def run (s : TimerQueue) (now : Timestamp) (e : TimerEntry) : Except TimerFault TimerQueue := do
  let t ← s.deref e.timer
  return { s with log := s.log ++ [⟨t.id, s.nows.length - 1, now,
    t.expiration.microSecondsSinceEpoch⟩] }

/-- Is user code running, or the loop free to call? -/
def mayAdd (s : TimerQueue) : Bool :=
  match s.phase with
  | .idle => true
  | .running _ ran _ => ran ≠ []

def enabled (s : TimerQueue) : TimerEvent → Bool
  | .addTimer timer _ _ now =>
      s.mayAdd && (s.heap timer).isNone && decide (timer < uintptrMax) && now.valid
  | .handleRead now => now.valid && match s.phase with
      | .idle => true
      | .running _ _ _ => false
  | .run => match s.phase with
      | .running _ _ (_ :: _) => true
      | _ => false
  | .reset clock => clock.valid && match s.phase with
      | .running _ _ [] => true
      | _ => false
  | .expire => true

def next (s : TimerQueue) : TimerEvent → Except TimerFault TimerQueue
  | .addTimer timer when interval now => (s.allocate timer when interval).addTimerInLoop timer now
  | .handleRead now => do
      let s := { s with timerfd := s.timerfd.read, nows := s.nows ++ [now] }
      let (expired, s) ← s.getExpired now
      return { s with phase := .running now [] expired }
  | .run =>
      match s.phase with
      | .running now ran (e :: todo) => do
          let s ← s.run now e
          return { s with phase := .running now (ran ++ [e]) todo }
      | _ => .ok s
  | .reset clock =>
      match s.phase with
      | .running now ran [] => do
          let s ← s.reset ran now clock
          return { s with phase := .idle }
      | _ => .ok s
  | .expire => .ok { s with timerfd := s.timerfd.expire }

/-- An empty queue, and everything that may happen to it. -/
def system : Lts TimerQueue TimerEvent TimerFault where
  init s := s = new
  enabled s a := s.enabled a = true
  next := next

instance (s : TimerQueue) (a : TimerEvent) : Decidable (system.enabled s a) :=
  inferInstanceAs (Decidable (_ = true))

end TimerQueue

end Muduo
