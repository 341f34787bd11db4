import Muduo.EventLoop.EventLoop
import Muduo.Lib.Batch

/-!
# The queue of a loop, pass by pass

`doPendingFunctors` as a `Batch`: `pendingFunctors_`, and the local vector
from the swap to its destruction. Every event of the loop or of another
thread leaves the batch alone or is one of its steps (`batch_step`), so what
is proved of functors in batches holds of those in an `EventLoop`.
-/

namespace Muduo

open Lib

namespace EventLoop

variable {Tid F : Type} {s s' : EventLoop Tid F} {t : Tid}

/-- The functors executed in the current pass. -/
def ranInPass (s : EventLoop Tid F) : List (Entry Tid F) :=
  (s.executed.filter (·.pass = s.passes)).map Execution.entry

/-- The local vector, what has run of it and what has not. -/
def phase (s : EventLoop Tid F) : Phase (Entry Tid F) :=
  match s.frame with
  | some (_, .running todo _) => .running s.ranInPass todo
  | some (_, .leaving) => .running s.ranInPass []
  | _ => .handling

def batch (s : EventLoop Tid F) : Batch (Entry Tid F) := ⟨s.phase, s.pendingFunctors⟩

/-- The passes executions are stamped with have begun. -/
def Begun (s : EventLoop Tid F) : Prop := ∀ x ∈ s.executed, x.pass ≤ s.passes

theorem Begun.advance (h : Begun s) (pc : LoopPc Tid F) : Begun (s.advance t pc) := by
  cases pc with
  | test =>
      simp only [EventLoop.advance]
      split <;> exact h
  | dispatch todo b =>
      cases todo with
      | nil => exact h
      | cons c todo => cases c <;> exact h
  | swapping => exact fun x hx => Nat.le_succ_of_le (h x hx)
  | running todo b =>
      cases todo with
      | nil => exact h
      | cons e todo =>
          intro x hx
          rcases List.mem_append.mp hx with hx | hx
          · exact h x hx
          · rw [List.mem_singleton.mp hx]
            exact Nat.le_refl _
  | _ => exact h

/-- Nothing has run yet in a pass that begins. -/
theorem ranInPass_swap (h : Begun s) : (s.swap t).ranInPass = [] := by
  have hnone : s.executed.filter (·.pass = s.passes + 1) = [] := by
    rw [List.filter_eq_nil_iff]
    intro x hx hpass
    have hle := h x hx
    have heq := of_decide_eq_true hpass
    omega
  exact congrArg (List.map Execution.entry) hnone

theorem ranInPass_run (e : Entry Tid F) (todo : List (Entry Tid F)) (b : Bool) :
    (s.advance t (.running (e :: todo) b)).ranInPass = s.ranInPass ++ [e] := by
  change (List.filter (·.pass = s.passes) (s.executed ++ [⟨e, t, s.passes⟩])).map _ = _
  rw [List.filter_append, List.map_append]
  simp [ranInPass]

theorem batch_advance (h : Begun s) {pc : LoopPc Tid F} (hf : s.frame = some (t, pc)) :
    (s.advance t pc).batch = s.batch ∨ Batch.Step s.batch (s.advance t pc).batch := by
  have hbatch : s.batch = ⟨s.phase, s.pendingFunctors⟩ := rfl
  simp only [phase, hf] at hbatch
  cases pc with
  | starting => exact Or.inl hbatch.symm
  | test =>
      refine Or.inl ?_
      simp only [advance]
      split <;> exact hbatch.symm
  | clear => exact Or.inl hbatch.symm
  | polling => exact Or.inl rfl
  | dispatch todo b =>
      cases todo with
      | nil => exact Or.inl hbatch.symm
      | cons c todo => cases c <;> exact Or.inl hbatch.symm
  | swapping =>
      refine Or.inr ?_
      have hswap : (s.swap t).batch = s.batch.swap := by
        rw [hbatch]
        change (⟨.running (s.swap t).ranInPass s.pendingFunctors, []⟩ : Batch _) = _
        rw [ranInPass_swap h]
        rfl
      rw [show s.advance t .swapping = s.swap t from rfl, hswap]
      exact .swap (by rw [hbatch]; rfl)
  | running todo b =>
      cases todo with
      | nil => exact Or.inl hbatch.symm
      | cons e todo =>
          refine Or.inr ?_
          have hrun : (s.advance t (.running (e :: todo) b)).batch = s.batch.advance := by
            rw [hbatch]
            change (⟨.running (s.advance t (.running (e :: todo) b)).ranInPass todo, _⟩ :
              Batch _) = _
            rw [ranInPass_run]
            rfl
          rw [hrun]
          exact .advance (by rw [hbatch]; rfl)
  | leaving =>
      refine Or.inr ?_
      have hfinish : (s.goTo t .test).batch = s.batch.finish := by
        rw [hbatch]
        rfl
      rw [show s.advance t .leaving = s.goTo t .test from rfl, hfinish]
      exact .finish (by rw [hbatch]; rfl) (by rw [hbatch]; rfl)

variable [DecidableEq Tid] {a : LoopEvent Tid F}

theorem Begun.move (h : Begun s) (m : Move s a s') : Begun s' := by
  cases m with
  | advance _ _ _ => exact h.advance _
  | finish _ =>
      obtain ⟨n, hn⟩ := s.finish_eq _
      rw [hn]
      exact h
  | _ => exact h

theorem batch_move (h : Begun s) (hframed : Framed s) (m : Move s a s') :
    s'.batch = s.batch ∨ Batch.Step s.batch s'.batch := by
  cases m with
  | @push _ t f _ _ => exact Or.inr (Batch.Step.push (b := s.batch) (Entry.mk f t s.passes))
  | inline => exact Or.inl rfl
  | quit _ => exact Or.inl rfl
  | finish _ =>
      obtain ⟨n, hn⟩ := s.finish_eq _
      exact Or.inl (hn ▸ rfl)
  | loop _ hlooping =>
      refine Or.inl ?_
      have hframe := hframed.outside hlooping
      simp only [batch, phase, hframe]
      rfl
  | advance hf _ _ => exact batch_advance h hf
  | poll hf _ _ =>
      refine Or.inl ?_
      simp only [batch, phase, hf]
      rfl

/-- **Every event is a step of the batch**, or leaves it alone. -/
theorem batch_step (owner : Tid) (hs : (system owner).Reachable s) (he : s.enabled a = true)
    (hn : s.next a = .ok s') : s'.batch = s.batch ∨ Batch.Step s.batch s'.batch := by
  have hinv : (system owner : Lts (EventLoop Tid F) _ _).Invariant fun s => Framed s ∧ Begun s := {
    init := by
      rintro s rfl
      exact ⟨framed_new owner, fun x hx => by cases hx⟩
    step := fun s a s' h he hn =>
      ⟨h.1.move (move_of_next he hn), h.2.move (move_of_next he hn)⟩ }
  obtain ⟨hframed, hbegun⟩ := hinv.reachable hs
  exact batch_move hbegun hframed (move_of_next he hn)

end EventLoop

end Muduo
