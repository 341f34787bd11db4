import Muduo.Http.Response
import Muduo.Threads.QueueCalls
import Muduo.Timestamp

/-!
# Workers at a queue, stopped by an item each

`BlockingQueue_test` and `BlockingQueue_bench`: `main` starts the workers, waits
until each has counted a latch down, puts the items, puts one more item for
each worker that tells it to stop, and joins the workers. A worker takes items
until it is told to stop.

The queue and the latch are the models of the two classes. A thread makes its
next call when the one before has returned; `main` has its calls in a list
(`QueueProgram.calls`), a worker goes through the phases of `threadFunc`.
-/

namespace Muduo

open Lib Lib.Threads

/-! ## The programs -/

/-- What the two programs differ in: the items, the item that stops a worker and
how a worker knows it, and whether `size()` is printed after each `put` and
`take`. -/
structure QueueProgram (T : Type) where
  items : List T
  stop : T
  last : T → Bool
  prints : Bool
  last_stop : last stop = true
  last_items : ∀ x ∈ items, last x = false

/-- `"hello %d"` -/
def hello (i : Nat) : Bytes := str "hello " ++ HttpResponse.decimal i

theorem hello_ne_stop (i : Nat) : hello i ≠ str "stop" := fun h => by
  have hhead := congrArg List.head? h
  exact absurd (Option.some.inj hhead) (by decide)

/-- `Test`, with `run(times)`. -/
def QueueProgram.test (times : Nat) : QueueProgram Bytes where
  items := (List.range times).map hello
  stop := str "stop"
  last x := x = str "stop"
  prints := true
  last_stop := decide_eq_true rfl
  last_items := by
    intro x hx
    obtain ⟨i, -, rfl⟩ := List.mem_map.mp hx
    exact decide_eq_false (hello_ne_stop i)

/-- `Bench`, with `run(times)`; `now i` is what the `i`-th `Timestamp::now()`
returns. -/
def QueueProgram.bench (now : Nat → Timestamp) (hnow : ∀ i, (now i).valid = true) (times : Nat) :
    QueueProgram Timestamp where
  items := (List.range times).map now
  stop := .invalid
  last x := !x.valid
  prints := false
  last_stop := rfl
  last_items := by
    intro x hx
    obtain ⟨i, -, rfl⟩ := List.mem_map.mp hx
    rw [hnow i]
    rfl

/-- A call of `main`. -/
inductive MainCall (Tid T : Type) where
  | wait
  | put (x : T)
  | size
  | join (t : Tid)
deriving DecidableEq

/-- A thread in `threadFunc`: the call it makes next, or is in. `client` is the
thread of `main`, which has no part in it. -/
inductive WorkerPhase (T : Type) where
  | client
  | starting | counting
  | ready | taking
  | printing (x : T) | sizing (x : T)
  | stopped
deriving DecidableEq

/-- Does a worker there call something next? -/
def WorkerPhase.calls {T : Type} : WorkerPhase T → Bool
  | .starting | .ready | .printing _ => true
  | _ => false

/-- The phase after a step at the latch, by the statement that it was. -/
def WorkerPhase.counted {T : Type} : WorkerPhase T → LatchPlace → WorkerPhase T
  | .counting, .downUnlock => .ready
  | phase, _ => phase

namespace QueueProgram

variable {Tid T : Type} (P : QueueProgram T)

/-- The calls of `run`. -/
def run : List (MainCall Tid T) :=
  .wait :: P.items.flatMap fun x => .put x :: if P.prints then [.size] else []

/-- The calls of `joinAll`. -/
def joinAll (threads : List Tid) : List (MainCall Tid T) :=
  List.replicate threads.length (.put P.stop) ++ threads.map .join

def calls (threads : List Tid) : List (MainCall Tid T) := P.run ++ P.joinAll threads

/-- What a worker does when it is done with an item. -/
def again (x : T) : WorkerPhase T := if P.last x then .stopped else .ready

/-- What a worker does when it has got an item. -/
def got (x : T) : WorkerPhase T := if P.prints then .printing x else P.again x

/-- The phase after a step at the queue, by the statement that it was. -/
def returned : WorkerPhase T → BlockingQueue.Place T → WorkerPhase T
  | .taking, .takeUnlock x => P.got x
  | .sizing x, .sizeUnlock _ => P.again x
  | phase, _ => phase

end QueueProgram

structure QueueRun (Tid T : Type) where
  queue : BlockingQueue Tid T
  latch : CountDownLatch Tid
  /-- What `main` has yet to call. -/
  todo : List (MainCall Tid T)
  phase : Tid → WorkerPhase T

/-- `main` or a worker makes its next call, or something happens in a call. -/
inductive RunEvent (Tid T : Type) where
  | main
  | worker (t : Tid)
  | queue (a : BlockingQueue.Event Tid T)
  | latch (e : LatchEvent Tid)

namespace QueueRun

variable {Tid T : Type} [DecidableEq Tid]

/-- All workers are started; those that `main` has yet to start are not
scheduled until then. -/
def new (main : Tid) (threads : List Tid) (P : QueueProgram T) : QueueRun Tid T where
  queue := .new
  latch := .new threads.length
  todo := P.calls threads
  phase t := if t = main then .client else if t ∈ threads then .starting else .stopped

/-- The thread is in no call. -/
def Idle (s : QueueRun Tid T) (t : Tid) : Prop := s.queue.pc t = .idle ∧ s.latch.pc t = .idle

/-- Can `main` make its next call, and return from it if it is `join`? -/
def CanCall (s : QueueRun Tid T) : List (MainCall Tid T) → Prop
  | [] => False
  | .join t :: _ => s.phase t = .stopped
  | .wait :: _ | .put _ :: _ | .size :: _ => True

def Enabled (main : Tid) (s : QueueRun Tid T) : RunEvent Tid T → Prop
  | .main => s.Idle main ∧ s.CanCall s.todo
  | .worker t => s.Idle t ∧ (s.phase t).calls = true
  | .queue a => a.isCall = false ∧ s.queue.Enabled a
  | .latch e => e.isCall = false ∧ s.latch.enabled e = true

/-- `main` makes its next call. -/
def callMain (s : QueueRun Tid T) (main : Tid) :
    List (MainCall Tid T) → Except BlockingQueue.Fault (QueueRun Tid T)
  | [] => .ok s
  | .wait :: rest => .ok { s with latch := s.latch.next (.wait main), todo := rest }
  | .put x :: rest => do return { s with queue := ← s.queue.next (.put main x), todo := rest }
  | .size :: rest => do return { s with queue := ← s.queue.next (.size main), todo := rest }
  | .join _ :: rest => .ok { s with todo := rest }

def setPhase (s : QueueRun Tid T) (t : Tid) (phase : WorkerPhase T) : QueueRun Tid T :=
  { s with phase := Function.update s.phase t phase }

/-- A worker makes its next call. -/
def callWorker (s : QueueRun Tid T) (t : Tid) :
    WorkerPhase T → Except BlockingQueue.Fault (QueueRun Tid T)
  | .starting => .ok ({ s with latch := s.latch.next (.countDown t) }.setPhase t .counting)
  | .ready => do return { s with queue := ← s.queue.next (.take t) }.setPhase t .taking
  | .printing x => do return { s with queue := ← s.queue.next (.size t) }.setPhase t (.sizing x)
  | _ => .ok s

/-- The phases after an event of the queue, or of the latch. -/
def afterQueue (P : QueueProgram T) (s : QueueRun Tid T) :
    BlockingQueue.Event Tid T → Tid → WorkerPhase T
  | .step t => Function.update s.phase t (P.returned (s.phase t) (s.queue.pc t))
  | _ => s.phase

def afterLatch (s : QueueRun Tid T) : LatchEvent Tid → Tid → WorkerPhase T
  | .step t => Function.update s.phase t ((s.phase t).counted (s.latch.pc t))
  | _ => s.phase

def next (main : Tid) (P : QueueProgram T) (s : QueueRun Tid T) :
    RunEvent Tid T → Except BlockingQueue.Fault (QueueRun Tid T)
  | .main => s.callMain main s.todo
  | .worker t => s.callWorker t (s.phase t)
  | .queue a => do return { s with queue := ← s.queue.next a, phase := s.afterQueue P a }
  | .latch e => .ok { s with latch := s.latch.next e, phase := s.afterLatch e }

/-- `main` and the workers, which are not `main` and each another. -/
def system (main : Tid) (threads : List Tid) (P : QueueProgram T) :
    Lts (QueueRun Tid T) (RunEvent Tid T) BlockingQueue.Fault where
  init s := s = new main threads P ∧ threads.Nodup ∧ main ∉ threads
  enabled := Enabled main
  next := next main P

instance [DecidableEq T] (s : QueueRun Tid T) : ∀ l, Decidable (s.CanCall l)
  | [] => inferInstanceAs (Decidable False)
  | .join t :: _ => inferInstanceAs (Decidable (s.phase t = .stopped))
  | .wait :: _ | .put _ :: _ | .size :: _ => inferInstanceAs (Decidable True)

instance [Fintype Tid] [DecidableEq T] (main : Tid) (threads : List Tid) (P : QueueProgram T)
    (s : QueueRun Tid T) : ∀ a, Decidable ((system main threads P).enabled s a)
  | .main => inferInstanceAs (Decidable ((_ = _ ∧ _ = _) ∧ s.CanCall s.todo))
  | .worker t => inferInstanceAs (Decidable ((_ = _ ∧ _ = _) ∧ (s.phase t).calls = true))
  | .queue a => inferInstanceAs (Decidable (_ ∧ BlockingQueue.system.enabled s.queue a))
  | .latch _ => inferInstanceAs (Decidable (_ ∧ _ = true))

variable {main : Tid} {threads : List Tid} {P : QueueProgram T} {s s' : QueueRun Tid T}
  {a : RunEvent Tid T} {t u : Tid}

/-! ## All an event can do -/

inductive Move (main : Tid) (P : QueueProgram T) (s : QueueRun Tid T) :
    RunEvent Tid T → QueueRun Tid T → Prop where
  | wait {rest : List (MainCall Tid T)} : s.Idle main → s.todo = .wait :: rest →
      Move main P s .main { s with latch := s.latch.next (.wait main), todo := rest }
  | put {x : T} {rest : List (MainCall Tid T)} {q : BlockingQueue Tid T} : s.Idle main →
      s.todo = .put x :: rest → s.queue.next (.put main x) = .ok q →
      Move main P s .main { s with queue := q, todo := rest }
  | size {rest : List (MainCall Tid T)} {q : BlockingQueue Tid T} : s.Idle main →
      s.todo = .size :: rest → s.queue.next (.size main) = .ok q →
      Move main P s .main { s with queue := q, todo := rest }
  | join {t : Tid} {rest : List (MainCall Tid T)} : s.todo = .join t :: rest →
      s.phase t = .stopped → Move main P s .main { s with todo := rest }
  | start {t : Tid} : s.Idle t → s.phase t = .starting →
      Move main P s (.worker t)
        ({ s with latch := s.latch.next (.countDown t) }.setPhase t .counting)
  | take {t : Tid} {q : BlockingQueue Tid T} : s.Idle t → s.phase t = .ready →
      s.queue.next (.take t) = .ok q →
      Move main P s (.worker t) ({ s with queue := q }.setPhase t .taking)
  | print {t : Tid} {x : T} {q : BlockingQueue Tid T} : s.Idle t → s.phase t = .printing x →
      s.queue.next (.size t) = .ok q →
      Move main P s (.worker t) ({ s with queue := q }.setPhase t (.sizing x))
  | queue {a : BlockingQueue.Event Tid T} {q : BlockingQueue Tid T} : a.isCall = false →
      s.queue.Enabled a → s.queue.next a = .ok q →
      Move main P s (.queue a) { s with queue := q, phase := s.afterQueue P a }
  | latch {e : LatchEvent Tid} : e.isCall = false → s.latch.enabled e = true →
      Move main P s (.latch e) { s with latch := s.latch.next e, phase := s.afterLatch e }

theorem move_of_next (he : s.Enabled main a) (hn : s.next main P a = .ok s') :
    Move main P s a s' := by
  cases a with
  | main =>
      obtain ⟨hidle, hcan⟩ := he
      rw [next] at hn
      cases htodo : s.todo with
      | nil =>
          rw [htodo] at hcan
          exact hcan.elim
      | cons call rest =>
          rw [htodo] at hcan hn
          cases call with
          | wait =>
              obtain rfl := Except.ok.inj hn
              exact .wait hidle htodo
          | put x =>
              obtain ⟨q, hq, hn⟩ := bind_eq_ok hn
              obtain rfl := Except.ok.inj hn
              exact .put hidle htodo hq
          | size =>
              obtain ⟨q, hq, hn⟩ := bind_eq_ok hn
              obtain rfl := Except.ok.inj hn
              exact .size hidle htodo hq
          | join t =>
              obtain rfl := Except.ok.inj hn
              exact .join htodo hcan
  | worker t =>
      obtain ⟨hidle, hcalls⟩ := he
      rw [next] at hn
      cases hphase : s.phase t with
      | starting =>
          rw [hphase] at hn
          obtain rfl := Except.ok.inj hn
          exact .start hidle hphase
      | ready =>
          rw [hphase] at hn
          obtain ⟨q, hq, hn⟩ := bind_eq_ok hn
          obtain rfl := Except.ok.inj hn
          exact .take hidle hphase hq
      | printing x =>
          rw [hphase] at hn
          obtain ⟨q, hq, hn⟩ := bind_eq_ok hn
          obtain rfl := Except.ok.inj hn
          exact .print hidle hphase hq
      | _ =>
          rw [hphase] at hcalls
          cases hcalls
  | queue a =>
      obtain ⟨hcall, he⟩ := he
      obtain ⟨q, hq, hn⟩ := bind_eq_ok hn
      obtain rfl := Except.ok.inj hn
      exact .queue hcall he hq
  | latch e =>
      obtain ⟨hcall, he⟩ := he
      obtain rfl := Except.ok.inj hn
      exact .latch hcall he

/-! ## The queue and the latch in the program -/

/-- What the queue and the latch do in the program they can do. -/
structure Parts (threads : List Tid) (s : QueueRun Tid T) : Prop where
  queue : BlockingQueue.system.Reachable s.queue
  latch : (CountDownLatch.system threads.length).Reachable s.latch

theorem Parts.step (h : Parts threads s) (m : Move main P s a s') : Parts threads s' := by
  have hwait : ∀ {t : Tid} {e : LatchEvent Tid}, s.Idle t →
      (e = .wait t ∨ e = .countDown t) →
      (CountDownLatch.system threads.length).Reachable (s.latch.next e) := by
    rintro t e hidle (rfl | rfl)
    · exact h.latch.step (a := .wait t) (decide_eq_true hidle.2) rfl
    · exact h.latch.step (a := .countDown t) (decide_eq_true hidle.2) rfl
  cases m with
  | wait hidle _ => exact ⟨h.queue, hwait hidle (Or.inl rfl)⟩
  | put hidle _ hq => exact ⟨h.queue.step (a := .put main _) hidle.1 hq, h.latch⟩
  | size hidle _ hq => exact ⟨h.queue.step (a := .size main) hidle.1 hq, h.latch⟩
  | join _ _ => exact ⟨h.queue, h.latch⟩
  | start hidle _ => exact ⟨h.queue, hwait hidle (Or.inr rfl)⟩
  | @take t _ hidle _ hq => exact ⟨h.queue.step (a := .take t) hidle.1 hq, h.latch⟩
  | @print t _ _ hidle _ hq => exact ⟨h.queue.step (a := .size t) hidle.1 hq, h.latch⟩
  | queue _ he hq => exact ⟨h.queue.step he hq, h.latch⟩
  | latch _ he => exact ⟨h.queue, h.latch.step he rfl⟩

/-! ## Who is where -/

/-- The call a thread is in, by its phase. -/
def Fits : WorkerPhase T → BlockingQueue.Call T → LatchCall → Prop
  | .client, c, l => c ≠ .taking ∧ l ≠ .counting ∧ (c = .none ∨ l = .none)
  | .counting, c, l => c = .none ∧ l = .counting
  | .taking, c, l => c = .taking ∧ l = .none
  | .sizing _, c, l => c = .sizing ∧ l = .none
  | .starting, c, l | .ready, c, l | .printing _, c, l | .stopped, c, l => c = .none ∧ l = .none

/-- `main` is the client, the workers are in `threadFunc`, and those `main` has
joined have left it. -/
structure Roles (main : Tid) (threads : List Tid) (todo : List (MainCall Tid T))
    (phase : Tid → WorkerPhase T) : Prop where
  client : ∀ t, phase t = .client ↔ t = main
  worker : ∀ t, phase t ≠ .client → phase t ≠ .stopped → t ∈ threads
  joined : ∀ t ∈ threads, .join t ∈ todo ∨ phase t = .stopped

theorem Roles.update {todo : List (MainCall Tid T)} {phase : Tid → WorkerPhase T}
    (h : Roles main threads todo phase) {p : WorkerPhase T} (hclient : phase t ≠ .client)
    (hstopped : phase t ≠ .stopped) (hp : p ≠ .client) :
    Roles main threads todo (Function.update phase t p) where
  client := by
    intro u
    by_cases hu : u = t
    · rw [hu, Function.update_self, ← h.client t]
      exact ⟨fun h => absurd h hp, fun h => absurd h hclient⟩
    · rw [Function.update_of_ne hu]
      exact h.client u
  worker := by
    intro u hu hu'
    by_cases hut : u = t
    · exact hut ▸ h.worker t hclient hstopped
    · rw [Function.update_of_ne hut] at hu hu'
      exact h.worker u hu hu'
  joined := by
    intro u hu
    refine (h.joined u hu).imp id fun hphase => ?_
    rwa [Function.update_of_ne]
    rintro rfl
    exact hstopped hphase

omit [DecidableEq Tid] in
/-- `main` makes its next call, a `join` when the thread has left. -/
theorem Roles.tail {call : MainCall Tid T} {rest : List (MainCall Tid T)}
    {phase : Tid → WorkerPhase T} (h : Roles main threads (call :: rest) phase)
    (hcall : ∀ t, call = .join t → phase t = .stopped) : Roles main threads rest phase where
  client := h.client
  worker := h.worker
  joined := by
    intro t ht
    rcases h.joined t ht with hmem | hstopped
    · rcases List.mem_cons.mp hmem with rfl | hmem
      · exact Or.inr (hcall t rfl)
      · exact Or.inl hmem
    · exact Or.inr hstopped

omit [DecidableEq Tid] in
theorem Fits.idle {p : WorkerPhase T} {q : BlockingQueue.Place T} {l : LatchPlace}
    (h : Fits p (BlockingQueue.call q) l.call) (hp : p.calls = true ∨ p = .stopped) :
    q = .idle ∧ l = .idle := by
  have hnone : BlockingQueue.call q = .none ∧ l.call = .none := by
    cases p <;> first | exact h | (rcases hp with hp | hp <;> cases hp)
  exact ⟨BlockingQueue.call_eq_none.mp hnone.1, LatchPlace.call_eq_none.mp hnone.2⟩

section Inversion

variable {p : WorkerPhase T} {c : BlockingQueue.Call T} {l : LatchCall}

omit [DecidableEq Tid]

theorem Fits.of_counting (h : Fits p c .counting) : p = .counting ∧ c = .none := by
  cases p <;> first | exact ⟨rfl, h.1⟩ | exact absurd rfl h.2.1 | cases h.2

theorem Fits.of_waiting (h : Fits p c .waiting) : p = .client ∧ c = .none := by
  cases p <;> first | exact ⟨rfl, h.2.2.resolve_right nofun⟩ | cases h.2

theorem Fits.of_taking (h : Fits p .taking l) : p = .taking ∧ l = .none := by
  cases p <;> first | exact ⟨rfl, h.2⟩ | exact absurd rfl h.1 | cases h.1

theorem Fits.of_pushing {x : T} (h : Fits p (.pushing x) l) : p = .client ∧ l = .none := by
  cases p <;> first | exact ⟨rfl, h.2.2.resolve_left nofun⟩ | cases h.1

theorem Fits.of_pushed (h : Fits p .pushed l) : p = .client ∧ l = .none := by
  cases p <;> first | exact ⟨rfl, h.2.2.resolve_left nofun⟩ | cases h.1

theorem Fits.of_sizing (h : Fits p .sizing l) : (p = .client ∨ ∃ x, p = .sizing x) ∧ l = .none := by
  cases p <;>
    first
    | exact ⟨Or.inl rfl, h.2.2.resolve_left nofun⟩
    | exact ⟨Or.inr ⟨_, rfl⟩, h.2⟩
    | cases h.1

end Inversion

/-! One thread goes on, in its phase and in its calls. -/

section Update

variable {phase : Tid → WorkerPhase T} {c : Tid → BlockingQueue.Call T} {l : Tid → LatchCall}
  {p : WorkerPhase T} {x : BlockingQueue.Call T} {y : LatchCall}

theorem fits_queue (h : ∀ u, Fits (phase u) (c u) (l u)) (hnew : Fits (phase t) x (l t)) (u : Tid) :
    Fits (phase u) (Function.update c t x u) (l u) := by
  by_cases hu : u = t
  · rw [hu, Function.update_self]
    exact hnew
  · rw [Function.update_of_ne hu]
    exact h u

theorem fits_latch (h : ∀ u, Fits (phase u) (c u) (l u)) (hnew : Fits (phase t) (c t) y) (u : Tid) :
    Fits (phase u) (c u) (Function.update l t y u) := by
  by_cases hu : u = t
  · rw [hu, Function.update_self]
    exact hnew
  · rw [Function.update_of_ne hu]
    exact h u

theorem fits_phase_queue (h : ∀ u, Fits (phase u) (c u) (l u)) (hnew : Fits p x (l t)) (u : Tid) :
    Fits (Function.update phase t p u) (Function.update c t x u) (l u) := by
  by_cases hu : u = t
  · rw [hu, Function.update_self, Function.update_self]
    exact hnew
  · rw [Function.update_of_ne hu, Function.update_of_ne hu]
    exact h u

theorem fits_phase_latch (h : ∀ u, Fits (phase u) (c u) (l u)) (hnew : Fits p (c t) y) (u : Tid) :
    Fits (Function.update phase t p u) (c u) (Function.update l t y u) := by
  by_cases hu : u = t
  · rw [hu, Function.update_self, Function.update_self]
    exact hnew
  · rw [Function.update_of_ne hu, Function.update_of_ne hu]
    exact h u

end Update

end QueueRun

end Muduo
