import Muduo.EventLoop.Functors

/-!
# Lost wakeups

`queueInLoop` skips the write to the eventfd when it is called in the loop
thread and not from a pending functor. That is right in an event handler,
where the swap is still to come in the same iteration, as the comment there
says; it is wrong wherever else the loop thread may call, before `loop()`
or from a destructor that runs as the local vector goes away: the functor
then sits there while the loop blocks (`wakeup_lost`).

`no_lost_wakeup`: with those calls excluded, unless a wakeup is due anyway,
the loop never blocks on a pending functor without one.
-/

namespace Muduo

open Lib

namespace EventLoop

variable {Tid F : Type} {s s' : EventLoop Tid F} {a : LoopEvent Tid F} {t : Tid}

/-- The eventfd is readable, or another thread is between its `push_back` and
its `wakeup()`. -/
def WakeupDue (s : EventLoop Tid F) : Prop :=
  0 < s.counter ∨ ∃ t, t ≠ s.threadId ∧ s.calls t = .pushed

/-- The loop's thread is about to block in `poll`, or blocked there. -/
def Blocking (s : EventLoop Tid F) : Prop := ∃ t pc, s.frame = some (t, pc) ∧ pc.blocking = true

/-- The loop's thread is in an event handler or in a pending functor. -/
def InCallback (s : EventLoop Tid F) : Prop :=
  ∃ t pc, s.frame = some (t, pc) ∧ pc.inCallback = true

/-- The loop will swap the vectors before it can block again. -/
def SwapAhead (s : EventLoop Tid F) : Prop :=
  ∃ t pc, s.frame = some (t, pc) ∧ pc.swapAhead = true

/-- The side condition on events: the loop's own thread queues a functor from
a handler or a functor only, or when a wakeup is due anyway. -/
def QueuesInCallback (s : EventLoop Tid F) (a : LoopEvent Tid F) : Prop :=
  ∀ f, a = .queueInLoop s.threadId f → s.InCallback ∨ s.WakeupDue

/-- A pending functor has a wakeup due, or the swap ahead, or it was pushed by
a functor of this pass, whose call of `wakeup()` is still to come. -/
def Awaited (s : EventLoop Tid F) : Prop :=
  s.pendingFunctors ≠ [] →
    s.WakeupDue ∨ s.SwapAhead ∨
      (s.calls s.threadId = .pushed ∧ s.callingPendingFunctors = true)

/-! ## What keeps a wakeup due -/

theorem WakeupDue.congr (h : s.WakeupDue) (hthread : s'.threadId = s.threadId)
    (hcounter : s'.counter = s.counter) (hcalls : s'.calls = s.calls) : s'.WakeupDue := by
  rcases h with h | ⟨t, ht, hpushed⟩
  · exact Or.inl (hcounter ▸ h)
  · exact Or.inr ⟨t, hthread ▸ ht, hcalls ▸ hpushed⟩

/-! ## The invariant -/

theorem Awaited.advance (h : Awaited s) (hframed : Framed s) {pc : LoopPc Tid F}
    (hf : s.frame = some (t, pc)) (hidle : s.calls t = .none) : Awaited (s.advance t pc) := by
  have howner := hframed.owner _ _ hf
  have hcases : s.pendingFunctors ≠ [] → s.WakeupDue ∨ pc.swapAhead = true := by
    intro hne
    rcases h hne with hdue | ⟨t', pc', hf', hpc⟩ | ⟨hpushed, -⟩
    · exact Or.inl hdue
    · rw [hf] at hf'
      cases hf'
      exact Or.inr hpc
    · rw [← howner, hidle] at hpushed
      cases hpushed
  -- only a dispatch and the swap change the counter or the pending functors
  have hkeep : ∀ {s'}, pc.swapAhead = false → s'.pendingFunctors = s.pendingFunctors →
      s'.threadId = s.threadId → s'.counter = s.counter → s'.calls = s.calls → Awaited s' := by
    intro s' hpc hp hth hcnt hcl hne
    rw [hp] at hne
    rcases hcases hne with hdue | habs
    · exact Or.inl (hdue.congr hth hcnt hcl)
    · rw [hpc] at habs
      cases habs
  cases pc with
  | starting => exact hkeep rfl rfl rfl rfl rfl
  | test =>
      simp only [EventLoop.advance]
      split
      · exact hkeep rfl rfl rfl rfl rfl
      · exact hkeep rfl rfl rfl rfl rfl
  | clear => exact hkeep rfl rfl rfl rfl rfl
  | polling => exact h
  | dispatch todo b =>
      cases todo with
      | nil => exact fun _ => Or.inr (Or.inl ⟨t, _, rfl, rfl⟩)
      | cons c todo =>
          cases c with
          | wakeup => exact fun _ => Or.inr (Or.inl ⟨t, _, rfl, rfl⟩)
          | other fd => exact fun _ => Or.inr (Or.inl ⟨t, _, rfl, rfl⟩)
  | swapping => exact fun hne => absurd rfl hne
  | running todo b =>
      cases todo with
      | nil => exact hkeep rfl rfl rfl rfl rfl
      | cons e todo => exact hkeep rfl rfl rfl rfl rfl
  | leaving => exact hkeep rfl rfl rfl rfl rfl

variable [DecidableEq Tid]

/-- A change of the call of a thread that is not about to write, or of the
loop's own, leaves the wakeup due. -/
theorem WakeupDue.setCall (h : s.WakeupDue) {c : Call}
    (ht : t = s.threadId ∨ s.calls t ≠ .pushed) : (s.setCall t c).WakeupDue := by
  rcases h with h | ⟨t', ht', hpushed⟩
  · exact Or.inl h
  · have hne : t' ≠ t := by
      rintro rfl
      rcases ht with ht | ht
      · exact ht' ht
      · exact ht hpushed
    exact Or.inr ⟨t', ht', (if_neg hne).trans hpushed⟩

theorem wakeupDue_wakeup (s : EventLoop Tid F) (t : Tid) (c : Call) :
    (s.wakeup.setCall t c).WakeupDue := by
  refine Or.inl ?_
  change 0 < min (s.counter + 1) counterMax
  exact Nat.lt_min.mpr ⟨Nat.succ_pos _, by decide⟩

theorem awaited_push (hframed : Framed s) {f : F} (hfree : s.free t = true)
    (hevent : a = .queueInLoop t f ∨ (a = .runInLoop t f ∧ t ≠ s.threadId))
    (hC : s.QueuesInCallback a) : Awaited ((s.pushBack t f).setCall t .pushed) := by
  intro _
  by_cases ht : t = s.threadId
  · subst ht
    rcases hevent with rfl | ⟨-, hne⟩
    · rcases hC f rfl with ⟨t, pc, hf, hpc⟩ | hdue
      · cases pc with
        | dispatch todo b => exact Or.inr (Or.inl ⟨t, _, hf, rfl⟩)
        | running todo b =>
            have hc : s.callingPendingFunctors = true := hframed.calling_frame hf
            exact Or.inr (Or.inr ⟨if_pos rfl, hc⟩)
        | _ => cases hpc
      · exact Or.inl (WakeupDue.setCall (s := s.pushBack s.threadId f)
          (hdue.congr rfl rfl rfl) (Or.inl rfl))
    · exact absurd rfl hne
  · exact Or.inl (Or.inr ⟨t, ht, if_pos rfl⟩)

theorem Awaited.quit (h : Awaited s) (hfree : s.free t = true) :
    Awaited ({ s with quit := true }.setCall t .quitting) := by
  intro hne
  have hidle := free_idle hfree
  rcases h hne with hdue | hswap | ⟨hpushed, hc⟩
  · have hnot : s.calls t ≠ .pushed := by simp [hidle]
    exact Or.inl (WakeupDue.setCall (s := { s with quit := true })
      (hdue.congr rfl rfl rfl) (Or.inr hnot))
  · exact Or.inr (Or.inl hswap)
  · have ht : s.threadId ≠ t := by
      rintro rfl
      rw [hidle] at hpushed
      cases hpushed
    exact Or.inr (Or.inr ⟨(if_neg ht).trans hpushed, hc⟩)

theorem Awaited.finish (h : Awaited s) (t : Tid) : Awaited (s.finish t) := by
  unfold EventLoop.finish
  cases hcall : s.calls t with
  | none => exact h
  | pushed =>
      dsimp only
      split
      · exact fun _ => Or.inl (wakeupDue_wakeup s t .none)
      · rename_i hno
        simp only [isInLoopThread, Bool.or_eq_true, not_or, Bool.not_eq_true, Bool.not_eq_false',
          decide_eq_true_eq] at hno
        obtain ⟨rfl, hcalling⟩ := hno
        intro hne
        rcases h hne with hdue | hswap | ⟨-, hc⟩
        · exact Or.inl (hdue.setCall (Or.inl rfl))
        · exact Or.inr (Or.inl hswap)
        · rw [hcalling] at hc
          cases hc
  | quitting =>
      dsimp only
      split
      · exact fun _ => Or.inl (wakeupDue_wakeup s t .none)
      · intro hne
        have hnot : s.calls t ≠ .pushed := by simp [hcall]
        rcases h hne with hdue | hswap | ⟨hpushed, hc⟩
        · exact Or.inl (hdue.setCall (Or.inr hnot))
        · exact Or.inr (Or.inl hswap)
        · have ht : s.threadId ≠ t := fun ht => hnot (ht ▸ hpushed)
          exact Or.inr (Or.inr ⟨(if_neg ht).trans hpushed, hc⟩)

/-- **One event** under the side condition. -/
theorem Awaited.move (h : Awaited s) (hframed : Framed s) (m : Move s a s')
    (hC : s.QueuesInCallback a) : Awaited s' := by
  cases m with
  | push hfree hevent => exact awaited_push hframed hfree hevent hC
  | inline => exact h
  | quit hfree => exact h.quit hfree
  | finish _ => exact h.finish _
  | loop hfree hl =>
      intro hne
      rcases h hne with hdue | ⟨t', pc', hf', -⟩ | ⟨hpushed, -⟩
      · exact Or.inl (hdue.congr rfl rfl rfl)
      · rw [hframed.outside hl] at hf'
        cases hf'
      · rw [free_idle hfree] at hpushed
        cases hpushed
  | advance hf hidle _ => exact h.advance hframed hf hidle
  | poll _ _ _ => exact fun _ => Or.inr (Or.inl ⟨_, _, rfl, rfl⟩)

/-- **No lost wakeup.** In every run in which the loop's thread queues functors
only from handlers and functors, or while a wakeup is due anyway, whenever
it is about to block or blocked in `poll` with a functor pending, the
eventfd is readable or another thread is about to write to it. -/
theorem no_lost_wakeup (owner : Tid) {s : EventLoop Tid F}
    (hs : ((system owner).guarded QueuesInCallback).Reachable s) (hblock : s.Blocking)
    (hne : s.pendingFunctors ≠ []) : s.WakeupDue := by
  have hinv := (framed_invariant (F := F) owner).of_guarded (C := QueuesInCallback) |>.and
    (J := Awaited)
    (fun s hs => by
      rw [show s = new owner from hs]
      exact fun h => absurd rfl h)
    (fun _ _ _ hframed h he hn => h.move hframed.2 (move_of_next he.1 hn) he.2)
  obtain ⟨⟨-, hframed⟩, h⟩ := hinv.reachable hs
  obtain ⟨t, pc, hf, hpc⟩ := hblock
  rcases h hne with hdue | ⟨t', pc', hf', hswap⟩ | ⟨-, hc⟩
  · exact hdue
  · rw [hf] at hf'
    cases hf'
    rw [(LoopPc.blocking_spec hpc).1] at hswap
    cases hswap
  · rw [hframed.calling_frame hf, (LoopPc.blocking_spec hpc).2] at hc
    cases hc

/-! ## The condition is needed -/

/-- What does not change while the loop's thread, making no calls, goes on to
the next `poll`. -/
structure SameQueue (s s' : EventLoop Tid F) : Prop where
  threadId : s'.threadId = s.threadId
  counter : s'.counter = s.counter
  calls : s'.calls = s.calls
  pending : s'.pendingFunctors = s.pendingFunctors

/-- From outside, into `loop()` and up to `poll`. -/
theorem run_enter (hidle : s.calls s.threadId = .none) (hf : s.frame = none)
    (hl : s.looping = false) :
    ∃ as s', (system s.threadId).Run s as s' ∧ SameQueue s s' ∧ s'.Blocking := by
  have hfree : s.free s.threadId = true := by simp [free, pcOf, hidle, hf]
  have hn : s.next (.loop s.threadId) =
      .ok ({ s with looping := true }.goTo s.threadId .starting) := by
    simp only [next, check_of hl, check_of, ok_bind]
    rfl
  have h₁ := run_step s.threadId
    (s := { s with looping := true }.goTo s.threadId .starting) rfl hidle rfl
  have h₂ := run_step s.threadId
    (s := { s with looping := true, quit := false }.goTo s.threadId .test) rfl hidle rfl
  exact ⟨_, _, (h₁.append h₂).cons (a := LoopEvent.loop s.threadId) hfree hn,
    ⟨rfl, rfl, rfl, rfl⟩, s.threadId, _, rfl, rfl⟩

/-- From the destructor of the local vector, the same. -/
theorem run_leaving (hidle : s.calls s.threadId = .none)
    (hf : s.frame = some (s.threadId, .leaving)) :
    ∃ as s', (system s.threadId).Run s as s' ∧ SameQueue s s' ∧ s'.Blocking := by
  have h₁ := run_step s.threadId hf hidle rfl
  have h₂ := run_step s.threadId (s := s.goTo s.threadId .test) rfl hidle rfl
  cases hq : s.quit with
  | false =>
      refine ⟨_, _, h₁.append h₂, ?_, ?_⟩
      all_goals simp only [EventLoop.advance, goTo, hq, Bool.false_eq_true, if_false]
      · exact ⟨rfl, rfl, rfl, rfl⟩
      · exact ⟨s.threadId, _, rfl, rfl⟩
  | true =>
      -- `loop()` returns, and is called again
      have hout : (s.goTo s.threadId .test).advance s.threadId .test =
          { s with looping := false, frame := none } := by
        simp only [EventLoop.advance, goTo, hq, if_true]
      rw [hout] at h₂
      obtain ⟨as, s', hrun, hsame, hblock⟩ :=
        run_enter (s := { s with looping := false, frame := none }) hidle rfl rfl
      obtain ⟨hthread, hcounter, hcalls, hpending⟩ := hsame
      exact ⟨_, s', (h₁.append h₂).append hrun, ⟨hthread, hcounter, hcalls, hpending⟩, hblock⟩

/-- **The condition leaves out nothing but lost wakeups**: where the loop's
thread queues a functor against it, that thread alone goes on to block on
the functor with no wakeup due. -/
theorem lost_of_queueInLoop (owner : Tid) (f : F) (hs : (system owner).Reachable s)
    (hfree : s.free owner = true) (hC : ¬(s.InCallback ∨ s.WakeupDue)) :
    ∃ as s', (system owner).Run s (.queueInLoop owner f :: as) s' ∧ s'.Blocking ∧
      s'.pendingFunctors ≠ [] ∧ ¬s'.WakeupDue := by
  obtain ⟨rfl, hframed⟩ := (framed_invariant owner).reachable hs
  rw [not_or] at hC
  obtain ⟨hout, hdue⟩ := hC
  have hidle := free_idle hfree
  -- outside handlers and functors the flag is unset, and the call ends without a wakeup
  have hwhere : s.callingPendingFunctors = false ∧
      (s.frame = none ∨ s.frame = some (s.threadId, .leaving)) := by
    cases hf : s.frame with
    | none =>
        have hc := hframed.calling
        rw [hf] at hc
        exact ⟨hc, Or.inl rfl⟩
    | some x =>
        obtain ⟨t, pc⟩ := x
        obtain rfl := hframed.owner _ _ hf
        have hc := hframed.calling_frame hf
        have hin := free_inUser hfree hf
        cases pc with
        | dispatch todo b => exact absurd ⟨_, _, hf, rfl⟩ hout
        | running todo b => exact absurd ⟨_, _, hf, rfl⟩ hout
        | leaving => exact ⟨hc, Or.inr rfl⟩
        | _ => cases hin
  obtain ⟨hcalling, hframe⟩ := hwhere
  let s₁ := (s.pushBack s.threadId f).setCall s.threadId .pushed
  let s₂ := s₁.setCall s.threadId .none
  have hfin : s₁.finish s.threadId = s₂ := by
    have hcall : s₁.calls s.threadId = .pushed := if_pos rfl
    have hthread : s₁.isInLoopThread s.threadId = true := decide_eq_true rfl
    have hflag : s₁.callingPendingFunctors = false := hcalling
    simp only [EventLoop.finish, hcall, hthread, hflag]
    rfl
  have hcalls : s₂.calls = s.calls := by
    funext t
    by_cases ht : t = s.threadId
    · subst ht
      exact (if_pos rfl).trans hidle.symm
    · exact (if_neg ht).trans (if_neg ht)
  have hidle₂ : s₂.calls s₂.threadId = .none := by
    rw [hcalls]
    exact hidle
  have hframed₂ : Framed s₂ := hframed.congr rfl rfl rfl rfl
  obtain ⟨as, s', hrun, hsame, hblock⟩ : ∃ as s', (system s.threadId).Run s₂ as s' ∧
      SameQueue s₂ s' ∧ s'.Blocking := by
    rcases hframe with hf | hf
    · have hl : s₂.looping = false := by
        rw [hframed₂.looping]
        change s.frame.isSome = false
        rw [hf]
        rfl
      exact run_enter hidle₂ hf hl
    · exact run_leaving hidle₂ hf
  refine ⟨_, s', (hrun.cons (a := LoopEvent.finish s.threadId) (s := s₁) ?_ ?_).cons
    (a := LoopEvent.queueInLoop s.threadId f) hfree rfl,
    hblock, ?_, ?_⟩
  · have hcall : s₁.calls s.threadId = .pushed := if_pos rfl
    exact decide_eq_true (by simp [hcall])
  · exact congrArg Except.ok hfin
  · rw [hsame.pending]
    exact List.append_ne_nil_of_right_ne_nil _ (List.cons_ne_nil _ _)
  · intro hd
    exact hdue (hd.congr (hsame.threadId.symm) hsame.counter.symm
      (hcalls.symm.trans hsame.calls.symm))

theorem no_lost_wakeup_pushed : ∃ s : EventLoop Nat Nat, s.Blocking ∧ s.WakeupDue := by
  let L : Lts (EventLoop Nat Nat) (LoopEvent Nat Nat) LoopFault :=
    (system 0).guarded QueuesInCallback
  have h₀ : L.Reachable (new 0) := .of_init rfl
  have h₁ := h₀.step (a := LoopEvent.loop 0) ⟨rfl, nofun⟩ rfl
  have h₂ := h₁.step (a := LoopEvent.step 0) ⟨rfl, nofun⟩ rfl
  have h₃ := h₂.step (a := LoopEvent.step 0) ⟨rfl, nofun⟩ rfl
  have h₄ := h₃.step (a := LoopEvent.queueInLoop 1 7) ⟨rfl, nofun⟩ rfl
  exact ⟨_, ⟨0, .clear, rfl, rfl⟩, no_lost_wakeup 0 h₄ ⟨0, .clear, rfl, rfl⟩ nofun⟩

/-- The loop's thread queues a functor, then enters `loop()`. -/
theorem wakeup_lost :
    ¬∀ s : EventLoop Unit Nat, (system ()).Reachable s → s.Blocking → s.pendingFunctors ≠ [] →
      s.WakeupDue := by
  intro h
  obtain ⟨s, hs, hp⟩ := Lts.exists_reachable_of_exec (L := system ())
    [.queueInLoop () 7, .finish (), .loop (), .step (), .step ()]
    (fun s => s.counter = 0 ∧ s.pendingFunctors ≠ [] ∧ s.frame = some ((), .clear))
    rfl (by decide)
  obtain ⟨hcounter, hpending, hf⟩ := of_decide_eq_true hp
  rcases h s hs ⟨(), .clear, hf, rfl⟩ hpending with hdue | ⟨t, hne, -⟩
  · rw [hcounter] at hdue
    cases hdue
  · exact hne rfl

end EventLoop

end Muduo
