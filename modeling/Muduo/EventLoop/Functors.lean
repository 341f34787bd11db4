import Muduo.EventLoop.EventLoop

/-!
# Queued functors run once, in order, one pass later

The conservation law of `pendingFunctors_`: at every step the functors ever
pushed are those executed, then the tail of the local vector of
`doPendingFunctors`, then those still pending. The stamps say the rest. A
pending functor was pushed in the current pass or since it ended, one in
the local vector in the pass before, so the pass that executes a functor is
always the one after that of its push.
-/

namespace Muduo

open Lib

namespace EventLoop

variable {Tid F : Type} {s s' : EventLoop Tid F} {t : Tid}

/-- The functors of the local vector not executed yet. -/
def localTail (s : EventLoop Tid F) : List (Entry Tid F) :=
  s.frame.elim [] fun x => x.2.tail

theorem localTail_frame {pc : LoopPc Tid F} (h : s.frame = some (t, pc)) :
    s.localTail = pc.tail := by
  rw [localTail, h]
  rfl

structure Conserved (s : EventLoop Tid F) : Prop where
  pushed : s.pushed = s.executed.map Execution.entry ++ s.localTail ++ s.pendingFunctors
  executed : ∀ x ∈ s.executed, x.thread = s.threadId ∧ x.pass = x.entry.pass + 1
  tail : ∀ e ∈ s.localTail, e.pass + 1 = s.passes
  pending : ∀ e ∈ s.pendingFunctors, e.pass = s.passes

theorem conserved_new (t : Tid) : Conserved (new t : EventLoop Tid F) where
  pushed := rfl
  executed := nofun
  tail := nofun
  pending := nofun

/-- Calls, flags and the counter do not matter, nor does where the loop is as
long as the local tail stays. -/
theorem Conserved.congr (h : Conserved s) (hthread : s'.threadId = s.threadId)
    (htail : s'.localTail = s.localTail) (hpending : s'.pendingFunctors = s.pendingFunctors)
    (hpushed : s'.pushed = s.pushed) (hexecuted : s'.executed = s.executed)
    (hpasses : s'.passes = s.passes) : Conserved s' := by
  obtain ⟨h₁, h₂, h₃, h₄⟩ := h
  rw [← hpushed, ← hexecuted, ← htail, ← hpending] at h₁
  rw [← hexecuted, ← hthread] at h₂
  rw [← htail, ← hpasses] at h₃
  rw [← hpending, ← hpasses] at h₄
  exact ⟨h₁, h₂, h₃, h₄⟩

theorem Conserved.pushBack (h : Conserved s) (t : Tid) (f : F) : Conserved (s.pushBack t f) where
  pushed := by
    change s.pushed ++ _ = _ ++ s.localTail ++ (s.pendingFunctors ++ _)
    rw [h.pushed, ← List.append_assoc]
    rfl
  executed := h.executed
  tail := h.tail
  pending e he := by
    rcases List.mem_append.mp he with he | he
    · exact h.pending e he
    · rw [List.mem_singleton.mp he]
      rfl

/-- The swap hands the pending functors over to a new pass. -/
theorem Conserved.swap (h : Conserved s) (hf : s.frame = some (t, .swapping)) :
    Conserved (s.swap t) where
  pushed := by
    have hp := h.pushed
    have htail : s.localTail = [] := localTail_frame hf
    rw [htail, List.append_nil] at hp
    change s.pushed = s.executed.map Execution.entry ++ s.pendingFunctors ++ []
    rw [hp, List.append_nil]
  executed := h.executed
  tail e he := congrArg (· + 1) (h.pending e he)
  pending := nofun

/-- A functor leaves the local vector as it is executed, by the loop's own
thread. -/
theorem Conserved.run (h : Conserved s) (hframed : Framed s) {e : Entry Tid F}
    {todo : List (Entry Tid F)} {b : Bool} (hf : s.frame = some (t, .running (e :: todo) b)) :
    Conserved (s.advance t (.running (e :: todo) b)) where
  pushed := by
    have hp := h.pushed
    have htail : s.localTail = [e] ++ todo := localTail_frame hf
    rw [htail, ← List.append_assoc] at hp
    change s.pushed =
      (s.executed ++ [Execution.mk e t s.passes]).map Execution.entry ++ todo ++ s.pendingFunctors
    rw [hp, List.map_append]
    rfl
  executed x hx := by
    rcases List.mem_append.mp hx with hx | hx
    · exact h.executed x hx
    · rw [List.mem_singleton.mp hx]
      have hpass := h.tail e (by rw [localTail_frame hf]; exact List.mem_cons_self ..)
      exact ⟨hframed.owner _ _ hf, hpass.symm⟩
  tail e' he' := h.tail e' (by rw [localTail_frame hf]; exact List.mem_cons_of_mem _ he')
  pending := h.pending

theorem Conserved.advance (h : Conserved s) (hframed : Framed s) {pc : LoopPc Tid F}
    (hf : s.frame = some (t, pc)) : Conserved (s.advance t pc) := by
  have htail := localTail_frame hf
  cases pc with
  | starting => exact h.congr rfl htail.symm rfl rfl rfl rfl
  | test =>
      simp only [EventLoop.advance]
      split
      · exact h.congr rfl htail.symm rfl rfl rfl rfl
      · exact h.congr rfl htail.symm rfl rfl rfl rfl
  | clear => exact h.congr rfl htail.symm rfl rfl rfl rfl
  | polling => exact h
  | dispatch todo b =>
      cases todo with
      | nil => exact h.congr rfl htail.symm rfl rfl rfl rfl
      | cons c todo => cases c <;> exact h.congr rfl htail.symm rfl rfl rfl rfl
  | swapping => exact h.swap hf
  | running todo b =>
      cases todo with
      | nil => exact h.congr rfl htail.symm rfl rfl rfl rfl
      | cons e todo => exact h.run hframed hf
  | leaving => exact h.congr rfl htail.symm rfl rfl rfl rfl

variable [DecidableEq Tid] {a : LoopEvent Tid F}

theorem Conserved.finish (h : Conserved s) (t : Tid) : Conserved (s.finish t) := by
  obtain ⟨n, hn⟩ := s.finish_eq t
  rw [hn]
  exact h.congr rfl rfl rfl rfl rfl rfl

/-- **One event** keeps the law. -/
theorem Conserved.move (h : Conserved s) (hframed : Framed s) (m : Move s a s') :
    Conserved s' := by
  cases m with
  | push _ _ => exact (h.pushBack _ _).congr rfl rfl rfl rfl rfl rfl
  | inline => exact h
  | quit _ => exact h.congr rfl rfl rfl rfl rfl rfl
  | finish _ => exact h.finish _
  | loop _ hl =>
      have htail : s.localTail = [] := by
        rw [localTail, hframed.outside hl]
        rfl
      exact h.congr rfl htail.symm rfl rfl rfl rfl
  | advance hf _ _ => exact h.advance hframed hf
  | poll hf _ _ => exact h.congr rfl (localTail_frame hf).symm rfl rfl rfl rfl

theorem framed_invariant (owner : Tid) :
    (system owner : Lts (EventLoop Tid F) _ _).Invariant fun s =>
      s.threadId = owner ∧ Framed s where
  init s hs := by
    rw [show s = new owner from hs]
    exact ⟨rfl, framed_new owner⟩
  step _ _ _ h he hn :=
    have m := move_of_next he hn
    ⟨m.threadId_eq.trans h.1, h.2.move m⟩

theorem conserved_invariant (owner : Tid) :
    (system owner : Lts (EventLoop Tid F) _ _).Invariant fun s =>
      (s.threadId = owner ∧ Framed s) ∧ Conserved s :=
  (framed_invariant owner).and
    (fun s hs => by
      rw [show s = new owner from hs]
      exact conserved_new owner)
    (fun _ _ _ hframed h he hn => h.move hframed.2 (move_of_next he hn))

/-- **Queued functors run exactly once, in order, by the loop's thread, and in
the pass after the one they were pushed in.** -/
theorem functors_conserved (owner : Tid) {s : EventLoop Tid F}
    (hs : (system owner).Reachable s) :
    s.pushed = s.executed.map Execution.entry ++ s.localTail ++ s.pendingFunctors ∧
      ∀ x ∈ s.executed, x.thread = owner ∧ x.pass = x.entry.pass + 1 := by
  obtain ⟨⟨rfl, -⟩, h⟩ := (conserved_invariant owner).reachable hs
  exact ⟨h.pushed, h.executed⟩

/-- Another thread queues a functor while the loop waits; the loop wakes up
and executes it. -/
def oneFunctor : List (LoopEvent Nat Nat) :=
  [.loop 0, .step 0, .step 0, .step 0, .queueInLoop 1 7, .finish 1, .poll 0 [.wakeup], .step 0,
    .step 0, .step 0, .step 0]

theorem functors_conserved_one :
    ∃ s : EventLoop Nat Nat, s.executed = [⟨⟨7, 1, 0⟩, 0, 1⟩] ∧
      s.pushed = s.executed.map Execution.entry ++ s.localTail ++ s.pendingFunctors ∧
      ∀ x ∈ s.executed, x.thread = 0 ∧ x.pass = x.entry.pass + 1 := by
  obtain ⟨s, hs, hex⟩ := Lts.exists_reachable_of_exec (L := system 0) oneFunctor
    (fun s => s.executed = [⟨⟨7, 1, 0⟩, 0, 1⟩]) rfl (by decide)
  exact ⟨s, of_decide_eq_true hex, functors_conserved 0 hs⟩

end EventLoop

end Muduo
