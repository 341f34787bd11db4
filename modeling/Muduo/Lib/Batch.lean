import Mathlib.Data.List.Count

/-!
# A queue emptied in passes

Callbacks queued for one executor, which takes them out in batches: a pass
begins by swapping the whole queue for an empty one, goes over what it took,
and ends when it has run the last of it. What is pushed during a pass waits
for the next. The batch is given up only at the end of its pass, so a
callback that has run is *held* until then; that matters when callbacks own
what they refer to.
-/

namespace Lib

/-- Where the executor is: between two passes, or in one, with what it has run
and what it has yet to run. -/
inductive Phase (F : Type*) where
  | handling
  | running (ran todo : List F)
deriving DecidableEq

structure Batch (F : Type*) where
  phase : Phase F
  pending : List F
deriving DecidableEq

namespace Batch

variable {F : Type*}

def empty : Batch F := ⟨.handling, []⟩

/-- Run in the current pass. -/
def ran (b : Batch F) : List F :=
  match b.phase with
  | .handling => []
  | .running ran _ => ran

/-- To be run in the current pass. -/
def todo (b : Batch F) : List F :=
  match b.phase with
  | .handling => []
  | .running _ todo => todo

/-- Waiting to run, in the order they will. -/
def queued (b : Batch F) : List F := b.todo ++ b.pending

/-- Everything the queue and the batch refer to. -/
def held (b : Batch F) : List F := b.ran ++ b.queued

def isHandling (b : Batch F) : Bool :=
  match b.phase with
  | .handling => true
  | .running _ _ => false

/-! ## What happens to it -/

def push (b : Batch F) (f : F) : Batch F := { b with pending := b.pending ++ [f] }

/-- A pass begins. -/
def swap (b : Batch F) : Batch F := ⟨.running [] b.pending, []⟩

/-- The next callback of the pass is run; nothing happens at its end. -/
def advance (b : Batch F) : Batch F :=
  match b.phase with
  | .running ran (f :: todo) => { b with phase := .running (ran ++ [f]) todo }
  | _ => b

/-- A pass ends. -/
def finish (b : Batch F) : Batch F := { b with phase := .handling }

/-- What may happen, and when. -/
inductive Step (b : Batch F) : Batch F → Prop
  | push (f : F) : Step b (b.push f)
  | swap (handling : b.isHandling = true) : Step b b.swap
  | advance {f : F} {fs : List F} (todo : b.todo = f :: fs) : Step b b.advance
  | finish (running : b.isHandling = false) (todo : b.todo = []) : Step b b.finish

variable {b : Batch F} {f : F}

@[simp] theorem queued_empty : (empty : Batch F).queued = [] := rfl

@[simp] theorem queued_push : (b.push f).queued = b.queued ++ [f] :=
  (List.append_assoc ..).symm

theorem handling_eq (h : b.isHandling = true) : b = ⟨.handling, b.pending⟩ := by
  obtain ⟨phase, pending⟩ := b
  cases phase with
  | handling => rfl
  | running ran todo => cases h

theorem todo_handling (h : b.isHandling = true) : b.todo = [] := by
  rw [handling_eq h]
  rfl

@[simp] theorem todo_swap : b.swap.todo = b.pending := rfl

@[simp] theorem pending_swap : b.swap.pending = [] := rfl

theorem queued_swap (h : b.isHandling = true) : b.swap.queued = b.queued := by
  rw [queued, queued, todo_handling h, todo_swap, pending_swap, List.append_nil]
  rfl

@[simp] theorem pending_advance : b.advance.pending = b.pending := by
  unfold advance
  split <;> rfl

/-- Running a callback takes it off the front. -/
theorem todo_advance {fs : List F} (h : b.todo = f :: fs) : b.advance.todo = fs := by
  unfold todo at h
  split at h
  · cases h
  · rename_i ran todo hp
    subst h
    simp only [advance, hp]
    rfl

theorem ran_advance {fs : List F} (h : b.todo = f :: fs) : b.advance.ran = b.ran ++ [f] := by
  unfold todo at h
  split at h
  · cases h
  · rename_i rn todo hp
    subst h
    simp only [advance, ran, hp]

theorem queued_advance {fs : List F} (h : b.todo = f :: fs) :
    b.queued = f :: b.advance.queued := by
  rw [queued, queued, todo_advance h, h, pending_advance]
  rfl

theorem held_advance {fs : List F} (h : b.todo = f :: fs) : b.advance.held = b.held := by
  rw [held, held, queued_advance h, ran_advance h, List.append_assoc]
  rfl

/-- A pass ends with nothing left to run. -/
theorem queued_finish (h : b.todo = []) : b.finish.queued = b.queued := by
  rw [queued, queued, h]
  rfl

theorem mem_queued_of_todo {fs : List F} (h : b.todo = f :: fs) : f ∈ b.queued := by
  rw [queued_advance h]
  exact List.mem_cons_self ..

end Batch

end Lib
