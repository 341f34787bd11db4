import Muduo.Threads.ThreadPool

/-!
# The calls of `run` and `stop`, and the joins

What a thread that calls `run` or `stop` has come to (`PoolCall`), and what a move
of the pool does to the calls of all threads (`Deed`): nothing, mostly. A
thread that has left `runInThread` never comes back, so who has been joined
remains so, and when a `stop` is through with its joins all workers are gone,
the caller apart if it is one (`Joined`).
-/

namespace Muduo

open Lib Lib.Threads

/-- What a thread is about in the pool: nothing; a `run` that has yet to push
its task; one that has pushed it; a `stop`. -/
inductive PoolCall (F : Type) where
  | none
  | pushing (task : Option F)
  | pushed
  | stopping

/-- The task of a `run` that is not in the queue yet. -/
def PoolCall.pending {F : Type} : PoolCall F → List (Option F)
  | .pushing task => [task]
  | _ => []

namespace ThreadPool

variable {Tid F : Type}

def call : PoolPlace Tid F → PoolCall F
  | .runLock task _ | .runPush task _ => .pushing task
  | .runNotify _ | .runUnlock _ => .pushed
  | .stopLock _ | .stopSet _ | .stopNotify _ | .stopUnlock _ | .joining _ _ => .stopping
  | _ => .none

def calls (s : ThreadPool Tid F) : Tid → PoolCall F := fun t => call (s.pc t)

variable [DecidableEq Tid] {s s' : ThreadPool Tid F} {a : PoolEvent Tid F} {t u : Tid}
  {p : PoolPlace Tid F}

def isRun : PoolEvent Tid F → Bool
  | .run _ _ => true
  | _ => false

/-- **What a move does to the calls.** -/
inductive Deed (s s' : ThreadPool Tid F) : PoolEvent Tid F → Prop where
  | quiet {a : PoolEvent Tid F} : (isRun a = true → s.threads = []) → s'.calls = s.calls →
      s'.submitted = s.submitted → s'.stops = s.stops → Deed s s' a
  | run {t : Tid} {task : Option F} : s.calls t = .none →
      s'.calls = Function.update s.calls t (.pushing task) → s'.submitted = s.submitted →
      s'.stops = s.stops → Deed s s' (.run t task)
  | push {t : Tid} {task : Option F} : s.calls t = .pushing task →
      s'.calls = Function.update s.calls t .pushed → s'.submitted = s.submitted ++ [task] →
      s'.stops = s.stops → Deed s s' (.step t)
  | returned {t : Tid} : s.calls t = .pushed → s'.calls = Function.update s.calls t .none →
      s'.submitted = s.submitted → s'.stops = s.stops → Deed s s' (.step t)
  | stop {t : Tid} : s.calls t = .none → s'.calls = Function.update s.calls t .stopping →
      s'.submitted = s.submitted → s'.stops = s.stops → Deed s s' (.stop t)
  | stopped {t : Tid} : s.calls t = .stopping → s'.calls = Function.update s.calls t .none →
      s'.submitted = s.submitted → s'.stops = s.stops + 1 → Deed s s' (.step t)

theorem deed_of_move (m : Move s a s') : Deed s s' a := by
  have hother : ∀ {a : PoolEvent Tid F}, isRun a = false → isRun a = true → s.threads = [] :=
    fun ha hrun => absurd (ha.symm.trans hrun) Bool.false_ne_true
  have hwoken : ∀ q : PoolPlace Tid F, call (cond.woken q) = call q := fun q => by cases q <;> rfl
  cases m with
  | @call t c a p hpc hc =>
      have hnone : s.calls t = .none := by rw [calls, hpc]; rfl
      cases hc with
      | run task _ => exact .run hnone (calls_update ..) rfl rfl
      | stop => exact .stop hnone (calls_update ..) rfl rfl
      | inCaller f hthreads =>
          exact .quiet (fun _ => hthreads) (calls_same (by rw [hpc]; rfl)) rfl rfl
      | returned f inline h =>
          exact .quiet (hother rfl) (calls_same (by rw [hpc]; rfl)) rfl rfl
  | @hop t p hop =>
      generalize hpc : s.pc t = q at hop
      cases hop <;> exact .quiet (hother rfl) (calls_same (by rw [hpc]; rfl)) rfl rfl
  | @locked t p _ hl =>
      generalize hpc : s.pc t = q at hl
      cases hl <;> exact .quiet (hother rfl) (calls_same (by rw [hpc]; rfl)) rfl rfl
  | @unlocked t p hu =>
      generalize hpc : s.pc t = q at hu
      cases hu with
      | run c => exact .returned (by rw [calls, hpc]; rfl) (calls_update ..) rfl rfl
      | _ => exact .quiet (hother rfl) (calls_same (by rw [hpc]; rfl)) rfl rfl
  | pop hpc _ => exact .quiet (hother rfl) (calls_same (by rw [hpc]; rfl)) rfl rfl
  | finished hpc => exact .quiet (hother rfl) (calls_same (by rw [hpc]; rfl)) rfl rfl
  | push hpc => exact .push (by rw [calls, hpc]; rfl) (calls_update ..) rfl rfl
  | @notified t c w hpc _ =>
      have hpc' : cond.notify s.pc w t = .runNotify c := Condition.notify_eq hpc rfl
      refine .quiet (hother rfl) (Eq.trans ?_ (Condition.calls_notify call hwoken w)) rfl rfl
      exact calls_same (by simp only [hpc']; rfl)
  | shut hpc => exact .quiet (hother rfl) (calls_same (by rw [hpc]; rfl)) rfl rfl
  | @notifiedAll t c hpc =>
      have hpc' : cond.notifyAll s.pc t = .stopNotify c := Condition.notifyAll_eq hpc rfl
      refine .quiet (hother rfl) (Eq.trans ?_ (Condition.calls_notifyAll call hwoken)) rfl rfl
      exact calls_same (by simp only [hpc']; rfl)
  | stopped hpc => exact .stopped (by rw [calls, hpc]; rfl) (calls_update ..) rfl rfl
  | @spurious t _ =>
      exact .quiet (hother rfl) (Condition.calls_notify call hwoken (some t)) rfl rfl

/-! ## The joins -/

/-- A thread awake that does not move stays where it is. -/
theorem stays (m : Move s a s') (hu : u ≠ a.actor) (hawake : cond.asleep (s.pc u) = false) :
    s'.pc u = s.pc u :=
  (bystander m hu).elim id fun h => h.trans (cond.woken_of_awake _ hawake)

/-- Only a thread in user code calls or returns, and one that has exited does
nothing. -/
theorem actor_place (m : Move s a s') : s.pc a.actor ≠ .exited ∧
    ((s.pc a.actor).isUser = true →
      a = .finish a.actor ∨ a = .stop a.actor ∨ ∃ task, a = .run a.actor task) := by
  cases m with
  | @call t c a p hpc hc =>
      cases hc <;> refine ⟨by rw [PoolEvent.actor, hpc]; nofun, fun _ => ?_⟩
      · exact Or.inr (Or.inr ⟨_, rfl⟩)
      · exact Or.inr (Or.inr ⟨_, rfl⟩)
      · exact Or.inr (Or.inl rfl)
      · exact Or.inl rfl
  | finished hpc => exact ⟨by rw [PoolEvent.actor, hpc]; nofun, fun _ => Or.inl rfl⟩
  | @hop t p hop =>
      rw [PoolEvent.actor]
      generalize s.pc t = q at hop
      cases hop <;> exact ⟨nofun, nofun⟩
  | @locked t p _ hl =>
      rw [PoolEvent.actor]
      generalize s.pc t = q at hl
      cases hl <;> exact ⟨nofun, nofun⟩
  | @unlocked t p hun =>
      rw [PoolEvent.actor]
      generalize s.pc t = q at hun
      cases hun <;> exact ⟨nofun, nofun⟩
  | @spurious t hasleep =>
      rw [PoolEvent.actor]
      generalize s.pc t = q at hasleep
      cases q <;> cases hasleep
      exact ⟨nofun, nofun⟩
  | pop hpc _ | push hpc | notified hpc _ | shut hpc | notifiedAll hpc | stopped hpc =>
      rw [PoolEvent.actor, hpc]
      exact ⟨nofun, nofun⟩

/-- User code goes on where it is until it ends or calls into the pool. -/
theorem user_step (m : Move s a s') {c : UserCode F} (hpc : s.pc u = .user c) :
    s'.pc u = .user c ∨ a = .finish u ∨ a = .stop u ∨ ∃ task, a = .run u task := by
  by_cases hu : u = a.actor
  · subst hu
    exact Or.inr ((actor_place m).2 (by rw [hpc]; rfl))
  · exact Or.inl ((stays m hu (by rw [hpc]; rfl)).trans hpc)

theorem exited_step (m : Move s a s') (hpc : s.pc u = .exited) : s'.pc u = .exited := by
  have hu : u ≠ a.actor := by
    rintro rfl
    exact (actor_place m).1 hpc
  exact (stays m hu (by rw [hpc]; rfl)).trans hpc

omit [DecidableEq Tid] in
theorem joining_of_woken {q : PoolPlace Tid F} {rest : List Tid} {c : UserCode F}
    (h : cond.woken q = .joining rest c) : q = .joining rest c := by
  cases q with
  | takeWait => cases h
  | _ => exact h

/-- The joins begin with all workers, and go on when one has exited or is the
caller. -/
theorem joining_step (m : Move s a s') {rest : List Tid} {c : UserCode F}
    (hpc : s'.pc u = .joining rest c) :
    s.pc u = .joining rest c ∨ rest = s.threads ∨
      ∃ w, s.pc u = .joining (w :: rest) c ∧ (w = u ∨ s.pc w = .exited) := by
  by_cases hu : u = a.actor
  · subst hu
    have hself : ∀ {pc : Tid → PoolPlace Tid F} {t : Tid} {p : PoolPlace Tid F},
        Function.update pc t p t = .joining rest c → p = .joining rest c :=
      fun {pc t p} h => (Function.update_self t p pc).symm.trans h
    cases m with
    | call _ hc => cases hc <;> exact absurd (hself hpc) nofun
    | @hop t p hop =>
        obtain rfl := hself hpc
        rw [PoolEvent.actor]
        generalize s.pc t = q at hop
        cases hop with
        | joined hw => exact Or.inr (Or.inr ⟨_, rfl, hw⟩)
    | @unlocked t p hun =>
        obtain rfl := hself hpc
        rw [PoolEvent.actor]
        generalize s.pc t = q at hun
        cases hun
        exact Or.inr (Or.inl rfl)
    | @locked t p _ hl =>
        obtain rfl := hself hpc
        generalize s.pc t = q at hl
        cases hl
    | @spurious t _ =>
        have hwoken : cond.woken (s.pc t) = .joining rest c := hself hpc
        rw [PoolEvent.actor]
        generalize s.pc t = q at hwoken
        exact Or.inl (joining_of_woken hwoken)
    | _ => exact absurd (hself hpc) nofun
  · rcases bystander m hu with h | h
    · exact Or.inl (h.symm.trans hpc)
    · exact Or.inl (joining_of_woken (h.symm.trans hpc))

/-- Who has been joined has exited, unless a worker joins itself. -/
def Joined (s : ThreadPool Tid F) : Prop :=
  ∀ t rest c, s.pc t = .joining rest c → ∀ w ∈ s.threads, w ∉ rest → w = t ∨ s.pc w = .exited

theorem Joined.step (h : Joined s) (m : Move s a s') : Joined s' := by
  intro t rest c hpc w hw hrest
  rw [threads_step m] at hw
  rcases joining_step m hpc with hpc | hall | ⟨v, hpc, hv⟩
  · exact (h t rest c hpc w hw hrest).imp_right (exited_step m)
  · exact absurd (hall ▸ hw) hrest
  · by_cases hwv : w = v
    · rw [hwv]
      exact hv.imp_right (exited_step m)
    · exact (h t _ c hpc w hw (List.not_mem_cons_of_ne_of_not_mem hwv hrest)).imp_right
        (exited_step m)

theorem stops_step (m : Move s a s') :
    s'.stops = s.stops ∨ ∃ t c, s.pc t = .joining [] c := by
  cases m with
  | stopped hpc => exact Or.inr ⟨_, _, hpc⟩
  | _ => exact Or.inl rfl

omit [DecidableEq Tid] in
/-- A `stop` from outside the pool that is through with its joins. -/
theorem Joined.exited (h : Joined s) {c : UserCode F} (hpc : s.pc t = .joining [] c)
    (ht : t ∉ s.threads) : ∀ w ∈ s.threads, s.pc w = .exited := fun w hw =>
  (h t [] c hpc w hw List.not_mem_nil).resolve_left fun hwt => ht (hwt ▸ hw)

theorem joined_invariant : system.Invariant (Joined : ThreadPool Tid F → Prop) where
  init := by
    rintro s ⟨ws, -, h⟩
    have hplace := start_place h
    rw [start_eq h] at hplace ⊢
    intro t rest c hpc
    rcases hplace t with ⟨-, h⟩ | ⟨-, h⟩ <;> exact absurd (h.symm.trans hpc) nofun
  step _ _ _ h he hn := h.step (move_of_next he hn)

end ThreadPool

end Muduo
