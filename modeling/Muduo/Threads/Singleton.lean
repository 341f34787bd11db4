import Muduo.Base
import Muduo.Lib.Lts

/-!
# `Singleton`

Any number of singletons, `Singleton<T i>` for each `i`, and any number of
threads that call `instance()`, in the constructors and destructors of the
singletons too. `pthread_once` runs `init()` in the first thread to come and
keeps the others until it has returned; `atexit` has `destroy()` called by
`exit()`, the last registered first, also what is registered meanwhile.

A thread calls `exit()` outside of any constructor, and once it is in it only
the destructors run in it; the other threads may go on. `built`, `returned`,
`registered`, `used` and `deleted` are a record for the theorems and not in
the code.
-/

namespace Muduo

open Lib

/-- `pthread_once_t` -/
inductive Once (Tid : Type) where
  | untouched
  | running (t : Tid)
  | done
deriving DecidableEq

/-- Where a thread is in an `init()`: in `new T()`, at `atexit`, or past it. -/
inductive Init (ι : Type) where
  | construct (i : ι)
  | register (i : ι)
  | finish (i : ι)
deriving DecidableEq

def Init.singleton {ι : Type} : Init ι → ι
  | construct i | register i | finish i => i

/-- What the constructor and the destructor of each `T` may call `instance()`
of. -/
structure Users (ι : Type) where
  constructor : ι → ι → Bool
  destructor : ι → ι → Bool

/-- `value_` is null when it is dereferenced. -/
inductive SingletonFault where
  | nullValue
deriving DecidableEq

/-- `stack` are the calls of `init()` a thread is in, the innermost first, and
`want` the `pthread_once` it is in, if it is in the innermost. An object is
named by the number of objects built before it. -/
structure Singletons (Tid ι : Type) where
  ponce : ι → Once Tid
  value : ι → Option Nat
  stack : Tid → List (Init ι)
  want : Tid → Option ι
  /-- What `atexit` has yet to have called, the next first. -/
  handlers : List ι
  exiting : Option Tid
  /-- The `destroy()` that `exit()` is in. -/
  destroying : Option ι
  built : List ι
  /-- What the calls of `instance()` have returned. -/
  returned : List (Tid × ι × Nat)
  /-- Those registered before `exit()`. -/
  registered : List ι
  /-- Which constructor has got which other singleton, before `exit()`. -/
  used : List (ι × ι)
  deleted : List ι

/-- `t` calls `instance()`; goes on in `pthread_once`; returns from `new T()`;
calls `atexit`; returns from `init()`; calls `exit()`, which calls the next
handler; returns from the destructor. -/
inductive SingletonEvent (Tid ι : Type) where
  | call (t : Tid) (i : ι)
  | once (t : Tid)
  | constructed (t : Tid)
  | atexit (t : Tid)
  | finished (t : Tid)
  | exit (t : Tid)
  | destroy (t : Tid)
  | destroyed (t : Tid)

namespace Singletons

variable {Tid ι : Type} [DecidableEq Tid] [DecidableEq ι]

def new : Singletons Tid ι where
  ponce _ := .untouched
  value _ := none
  stack _ := []
  want _ := none
  handlers := []
  exiting := none
  destroying := none
  built := []
  returned := []
  registered := []
  used := []
  deleted := []

/-- The thread is in user code that may call `instance()` of `j`. -/
def mayCall (P : Users ι) (s : Singletons Tid ι) (t : Tid) (j : ι) : Bool :=
  match s.stack t with
  | .construct i :: _ => P.constructor i j
  | .register _ :: _ => false
  | .finish _ :: _ => false
  | [] => if s.exiting = some t then s.destroying.any (P.destructor · j) else true

/-- In `exit()`, and in no call. -/
def inExit (s : Singletons Tid ι) (t : Tid) : Bool :=
  s.exiting = some t && (s.stack t).isEmpty && (s.want t).isNone

def enabled (P : Users ι) (s : Singletons Tid ι) : SingletonEvent Tid ι → Bool
  | .call t j => (s.want t).isNone && s.mayCall P t j
  | .once t => (s.want t).any fun j => match s.ponce j with
      | .running _ => false
      | _ => true
  | .constructed t => (s.want t).isNone && match s.stack t with
      | .construct _ :: _ => true
      | _ => false
  | .atexit t => match s.stack t with
      | .register _ :: _ => true
      | _ => false
  | .finished t => match s.stack t with
      | .finish _ :: _ => true
      | _ => false
  | .exit t => s.exiting.isNone && (s.stack t).isEmpty && (s.want t).isNone
  | .destroy t => s.inExit t && s.destroying.isNone && !s.handlers.isEmpty
  | .destroyed t => s.inExit t && s.destroying.isSome

/-- `pthread_once(&ponce_, init)` for `j`, and `return *value_`. -/
def once (s : Singletons Tid ι) (t : Tid) (j : ι) :
    Except SingletonFault (Singletons Tid ι) :=
  match s.ponce j with
  | .untouched => .ok { s with
      ponce := Function.update s.ponce j (.running t)
      want := Function.update s.want t none
      stack := Function.update s.stack t (.construct j :: s.stack t) }
  | .running _ => .ok s
  | .done =>
      match s.value j with
      | none => .error .nullValue
      | some v => .ok { s with
          want := Function.update s.want t none
          returned := s.returned ++ [(t, j, v)]
          used := match s.exiting, s.stack t with
            | none, .construct i :: _ => s.used ++ [(i, j)]
            | _, _ => s.used }

/-- `value_ = new T()` -/
def constructed (s : Singletons Tid ι) (t : Tid) : Singletons Tid ι :=
  match s.stack t with
  | .construct j :: rest => { s with
      value := Function.update s.value j (some s.built.length)
      built := s.built ++ [j]
      stack := Function.update s.stack t (.register j :: rest) }
  | _ => s

/-- `atexit(destroy)` -/
def atexit (s : Singletons Tid ι) (t : Tid) : Singletons Tid ι :=
  match s.stack t with
  | .register j :: rest => { s with
      handlers := j :: s.handlers
      registered := if s.exiting.isNone then s.registered ++ [j] else s.registered
      stack := Function.update s.stack t (.finish j :: rest) }
  | _ => s

/-- `init()` has returned, and `t` is in `pthread_once` again. -/
def finished (s : Singletons Tid ι) (t : Tid) : Singletons Tid ι :=
  match s.stack t with
  | .finish j :: rest => { s with
      ponce := Function.update s.ponce j .done
      stack := Function.update s.stack t rest
      want := Function.update s.want t (some j) }
  | _ => s

def next (s : Singletons Tid ι) :
    SingletonEvent Tid ι → Except SingletonFault (Singletons Tid ι)
  | .call t j => .ok { s with want := Function.update s.want t (some j) }
  | .once t =>
      match s.want t with
      | none => .ok s
      | some j => s.once t j
  | .constructed t => .ok (s.constructed t)
  | .atexit t => .ok (s.atexit t)
  | .finished t => .ok (s.finished t)
  | .exit t => .ok { s with exiting := some t }
  | .destroy _ =>
      match s.handlers with
      | [] => .ok s
      | j :: rest => .ok { s with handlers := rest, destroying := some j }
  | .destroyed _ => .ok { s with
      destroying := none
      deleted := s.deleted ++ s.destroying.toList }

/-- The singletons of a program, and any threads. -/
def system (P : Users ι) : Lts (Singletons Tid ι) (SingletonEvent Tid ι) SingletonFault where
  init s := s = new
  enabled s a := s.enabled P a = true
  next := next

instance (P : Users ι) (s : Singletons Tid ι) (a : SingletonEvent Tid ι) :
    Decidable ((system P).enabled s a) :=
  inferInstanceAs (Decidable (_ = true))

/-! ## All an event can do -/

variable {P : Users ι} {s s' : Singletons Tid ι} {a : SingletonEvent Tid ι} {t u : Tid} {i j : ι}

/-- The transitions. -/
inductive Move (P : Users ι) (s : Singletons Tid ι) : SingletonEvent Tid ι →
    Singletons Tid ι → Prop where
  | call {t : Tid} {j : ι} : s.want t = none → s.mayCall P t j = true →
      Move P s (.call t j) { s with want := Function.update s.want t (some j) }
  | first {t : Tid} {j : ι} : s.want t = some j → s.ponce j = .untouched →
      Move P s (.once t) { s with
        ponce := Function.update s.ponce j (.running t)
        want := Function.update s.want t none
        stack := Function.update s.stack t (.construct j :: s.stack t) }
  | returned {t : Tid} {j : ι} {v : Nat} {used : List (ι × ι)} : s.want t = some j →
      s.ponce j = .done → s.value j = some v →
      (used = s.used ∨ ∃ i, s.exiting = none ∧ .construct i ∈ s.stack t ∧
        used = s.used ++ [(i, j)]) →
      Move P s (.once t) { s with
        want := Function.update s.want t none
        returned := s.returned ++ [(t, j, v)]
        used := used }
  | constructed {t : Tid} {j : ι} {rest : List (Init ι)} : s.stack t = .construct j :: rest →
      Move P s (.constructed t) { s with
        value := Function.update s.value j (some s.built.length)
        built := s.built ++ [j]
        stack := Function.update s.stack t (.register j :: rest) }
  | atexit {t : Tid} {j : ι} {rest : List (Init ι)} : s.stack t = .register j :: rest →
      Move P s (.atexit t) { s with
        handlers := j :: s.handlers
        registered := if s.exiting.isNone then s.registered ++ [j] else s.registered
        stack := Function.update s.stack t (.finish j :: rest) }
  | finished {t : Tid} {j : ι} {rest : List (Init ι)} : s.stack t = .finish j :: rest →
      Move P s (.finished t) { s with
        ponce := Function.update s.ponce j .done
        stack := Function.update s.stack t rest
        want := Function.update s.want t (some j) }
  | exit {t : Tid} : s.exiting = none → Move P s (.exit t) { s with exiting := some t }
  | destroy {t : Tid} {j : ι} {rest : List ι} : s.exiting = some t → s.destroying = none →
      s.handlers = j :: rest →
      Move P s (.destroy t) { s with handlers := rest, destroying := some j }
  | destroyed {t : Tid} {j : ι} : s.exiting = some t → s.destroying = some j →
      Move P s (.destroyed t) { s with destroying := none, deleted := s.deleted ++ [j] }

theorem move_of_next (he : s.enabled P a = true) (hn : s.next a = .ok s') : Move P s a s' := by
  cases a with
  | call t j =>
      simp only [enabled, Bool.and_eq_true, Option.isNone_iff_eq_none] at he
      cases hn
      exact .call he.1 he.2
  | once t =>
      cases hw : s.want t with
      | none =>
          rw [enabled, hw] at he
          cases he
      | some j =>
          simp only [enabled, hw, Option.any_some] at he
          simp only [next, hw, once] at hn
          cases hp : s.ponce j with
          | untouched =>
              rw [hp] at hn
              cases hn
              exact .first hw hp
          | running u =>
              rw [hp] at he
              cases he
          | done =>
              rw [hp] at hn
              cases hv : s.value j with
              | none =>
                  rw [hv] at hn
                  cases hn
              | some v =>
                  rw [hv] at hn
                  cases hn
                  refine .returned hw hp hv ?_
                  split
                  · rename_i i rest hexiting hstack
                    exact Or.inr ⟨i, hexiting, hstack ▸ List.mem_cons_self, rfl⟩
                  · exact Or.inl rfl
  | constructed t =>
      simp only [enabled, Bool.and_eq_true] at he
      obtain ⟨-, he⟩ := he
      split at he
      · rename_i j rest hstack
        simp only [next, constructed, hstack] at hn
        cases hn
        exact .constructed hstack
      · cases he
  | atexit t =>
      simp only [enabled] at he
      split at he
      · rename_i j rest hstack
        simp only [next, atexit, hstack] at hn
        cases hn
        exact .atexit hstack
      · cases he
  | finished t =>
      simp only [enabled] at he
      split at he
      · rename_i j rest hstack
        simp only [next, finished, hstack] at hn
        cases hn
        exact .finished hstack
      · cases he
  | exit t =>
      simp only [enabled, Bool.and_eq_true, Option.isNone_iff_eq_none] at he
      cases hn
      exact .exit he.1.1
  | destroy t =>
      simp only [enabled, inExit, Bool.and_eq_true, decide_eq_true_eq,
        Option.isNone_iff_eq_none] at he
      obtain ⟨⟨⟨⟨hexiting, -⟩, -⟩, hnone⟩, hany⟩ := he
      cases hh : s.handlers with
      | nil =>
          rw [hh] at hany
          cases hany
      | cons j rest =>
          simp only [next, hh] at hn
          cases hn
          exact .destroy hexiting hnone hh
  | destroyed t =>
      simp only [enabled, inExit, Bool.and_eq_true, decide_eq_true_eq] at he
      obtain ⟨⟨⟨hexiting, -⟩, -⟩, hsome⟩ := he
      obtain ⟨j, hj⟩ := Option.isSome_iff_exists.mp hsome
      cases hn
      rw [hj]
      exact .destroyed hexiting hj

end Singletons

end Muduo
