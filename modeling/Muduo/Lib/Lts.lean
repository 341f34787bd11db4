import Mathlib.Data.List.Basic

/-!
# Labelled transition systems with faults

A program that runs one event at a time: a state, the events the
environment may offer there (`enabled`), and what the program does with
one (`next`), which either gives the next state or a *fault* (a failed
assertion, an uncaught exception). `next` is a function: whatever is not
determined by the program is data carried by the event.

The rules are the usual ones, stated once:

- `Invariant.reachable`: an invariant of the steps holds in every
  reachable state;
- `CanReach`: what some run from here leads to, step by step;
- `Run.length_le`: a bound on the length of a run by a weight of the states;
- `Run.fold_rel`: two systems that stay related under the same events
  stay related along a whole run;
- `guarded`: the runs whose every step meets a side condition, and
  `run_of_exec` to replay a concrete list of events.
-/

namespace Lib

/-- States `σ`, events `α`, faults `ε`. -/
structure Lts (σ α ε : Type*) where
  init : σ → Prop
  enabled : σ → α → Prop
  next : σ → α → Except ε σ

namespace Lts

variable {σ α ε τ : Type*} {L : Lts σ α ε}

/-! ## Runs -/

/-- `Run L s as s'`: offering the events `as` in order leads from `s` to
`s'`, every event being enabled where it is offered and none faulting. -/
inductive Run (L : Lts σ α ε) : σ → List α → σ → Prop
  | nil (s : σ) : Run L s [] s
  | snoc {s s' s'' : σ} {as : List α} {a : α} : Run L s as s' →
      L.enabled s' a → L.next s' a = .ok s'' → Run L s (as ++ [a]) s''

theorem Run.cons {s s' s'' : σ} {a : α} {as : List α} (he : L.enabled s a)
    (hn : L.next s a = .ok s') (hrun : L.Run s' as s'') :
    L.Run s (a :: as) s'' := by
  induction hrun with
  | nil => exact (Run.nil s).snoc he hn
  | snoc _ he' hn' ih => exact ih.snoc he' hn'

theorem Run.append {s s' s'' : σ} {as bs : List α} (h : L.Run s as s') (h' : L.Run s' bs s'') :
    L.Run s (as ++ bs) s'' := by
  induction h' with
  | nil => rwa [List.append_nil]
  | snoc _ he hn ih =>
      rw [← List.append_assoc]
      exact ih.snoc he hn

/-- The states some run from an initial state leads to. -/
def Reachable (L : Lts σ α ε) (s : σ) : Prop :=
  ∃ s₀ as, L.init s₀ ∧ L.Run s₀ as s

theorem Reachable.of_init {s : σ} (h : L.init s) : L.Reachable s :=
  ⟨s, [], h, .nil s⟩

theorem Reachable.step {s s' : σ} {a : α} (h : L.Reachable s)
    (he : L.enabled s a) (hn : L.next s a = .ok s') : L.Reachable s' := by
  obtain ⟨s₀, as, h₀, hrun⟩ := h
  exact ⟨s₀, as ++ [a], h₀, hrun.snoc he hn⟩

/-! ## Invariants -/

/-- `I` holds initially and no step leaves it. -/
structure Invariant (L : Lts σ α ε) (I : σ → Prop) : Prop where
  init : ∀ s, L.init s → I s
  step : ∀ s a s', I s → L.enabled s a → L.next s a = .ok s' → I s'

theorem Run.invariant {I : σ → Prop} {s s' : σ} {as : List α}
    (hstep : ∀ s a s', I s → L.enabled s a → L.next s a = .ok s' → I s')
    (hrun : L.Run s as s') (h : I s) : I s' := by
  induction hrun with
  | nil => exact h
  | snoc _ he hn ih => exact hstep _ _ _ ih he hn

/-- The induction rule: what every step keeps holds in every reachable
state. -/
theorem Invariant.reachable {I : σ → Prop} (h : L.Invariant I) {s : σ}
    (hs : L.Reachable s) : I s := by
  obtain ⟨s₀, as, h₀, hrun⟩ := hs
  exact hrun.invariant h.step (h.init s₀ h₀)

/-- What is known of all reachable states may be used at each step. -/
theorem Reachable.invariant {I : σ → Prop} {s : σ} (hs : L.Reachable s)
    (hinit : ∀ s, L.init s → I s)
    (hstep : ∀ s a s', L.Reachable s → I s → L.enabled s a → L.next s a = .ok s' → I s') :
    I s := by
  obtain ⟨s₀, as, h₀, hrun⟩ := hs
  induction hrun with
  | nil => exact hinit _ h₀
  | snoc hrun he hn ih => exact hstep _ _ _ ⟨s₀, _, h₀, hrun⟩ ih he hn

/-- Strengthening: an invariant may be proved from one already known. -/
theorem Invariant.and {I J : σ → Prop} (hI : L.Invariant I)
    (hinit : ∀ s, L.init s → J s)
    (hstep : ∀ s a s', I s → J s → L.enabled s a → L.next s a = .ok s' → J s') :
    L.Invariant fun s => I s ∧ J s where
  init s h := ⟨hI.init s h, hinit s h⟩
  step s a s' h he hn := ⟨hI.step s a s' h.1 he hn, hstep s a s' h.1 h.2 he hn⟩

/-! ## What may come -/

/-- Some run goes on to a state with `P`. -/
def CanReach (L : Lts σ α ε) (P : σ → Prop) (s : σ) : Prop :=
  ∃ as s', L.Run s as s' ∧ P s'

section CanReach

variable {P : σ → Prop} {s s' : σ}

theorem CanReach.now (h : P s) : L.CanReach P s := ⟨[], s, .nil s, h⟩

theorem CanReach.of_run {as : List α} (hrun : L.Run s as s') (h : L.CanReach P s') :
    L.CanReach P s := by
  obtain ⟨bs, s'', hrun', hs''⟩ := h
  exact ⟨as ++ bs, s'', hrun.append hrun', hs''⟩

theorem CanReach.after {a : α} (he : L.enabled s a) (hn : L.next s a = .ok s')
    (h : L.CanReach P s') : L.CanReach P s :=
  .of_run (.cons he hn (.nil s')) h

end CanReach

/-! ## How long a run can be -/

/-- What some events bring in together. -/
def total (gain : α → Nat) : List α → Nat
  | [] => 0
  | a :: as => gain a + total gain as

theorem total_snoc (gain : α → Nat) (as : List α) (a : α) :
    total gain (as ++ [a]) = total gain as + gain a := by
  induction as with
  | nil => exact Nat.add_comm _ 0
  | cons b as ih => rw [List.cons_append, total, total, ih, Nat.add_assoc]

theorem total_eq_zero {gain : α → Nat} {as : List α} (h : ∀ a ∈ as, gain a = 0) :
    total gain as = 0 := by
  induction as with
  | nil => rfl
  | cons b as ih =>
      rw [total, h b List.mem_cons_self, ih fun a ha => h a (List.mem_cons_of_mem b ha)]

/-- A weight that each event lowers, but for what the event brings in. -/
theorem Run.length_le {I : σ → Prop} (weight : σ → Nat) (gain : α → Nat)
    (hkeep : ∀ s a s', I s → L.enabled s a → L.next s a = .ok s' → I s')
    (hstep : ∀ s a s', I s → L.enabled s a → L.next s a = .ok s' →
      weight s' + 1 ≤ weight s + gain a)
    {s s' : σ} {as : List α} (hrun : L.Run s as s') (h : I s) :
    as.length + weight s' ≤ weight s + total gain as := by
  induction hrun with
  | nil => exact Nat.le_of_eq (Nat.zero_add _)
  | snoc hrun he hn ih =>
      have hlast := hstep _ _ _ (hrun.invariant hkeep h) he hn
      rw [List.length_append, List.length_singleton, total_snoc]
      omega

/-! ## Simulation -/

/-- Forward simulation along a run: `g` is the other system's step, and `R`
relates the two states. -/
theorem Run.fold_rel {R : σ → τ → Prop} {g : τ → α → τ}
    (hstep : ∀ s t a s', R s t → L.enabled s a → L.next s a = .ok s' → R s' (g t a))
    {s s' : σ} {as : List α} (hrun : L.Run s as s') {t : τ} (h : R s t) :
    R s' (as.foldl g t) := by
  induction hrun with
  | nil => exact h
  | snoc _ he hn ih =>
      rw [List.foldl_append]
      exact hstep _ _ _ _ ih he hn

/-! ## Conditioned runs -/

/-- `L` with every step that does not meet `C` taken away. -/
def guarded (L : Lts σ α ε) (C : σ → α → Prop) : Lts σ α ε :=
  { L with enabled := fun s a => L.enabled s a ∧ C s a }

theorem Run.of_guarded {C : σ → α → Prop} {s s' : σ} {as : List α}
    (h : (L.guarded C).Run s as s') : L.Run s as s' := by
  induction h with
  | nil => exact .nil _
  | snoc _ he hn ih => exact ih.snoc he.1 hn

theorem Reachable.of_guarded {C : σ → α → Prop} {s : σ}
    (h : (L.guarded C).Reachable s) : L.Reachable s := by
  obtain ⟨s₀, as, h₀, hrun⟩ := h
  exact ⟨s₀, as, h₀, hrun.of_guarded⟩

/-- Runs under a stronger condition are among those under a weaker one. -/
theorem Reachable.guarded_mono {C D : σ → α → Prop} (hCD : ∀ s a, C s a → D s a) {s : σ}
    (h : (L.guarded C).Reachable s) : (L.guarded D).Reachable s := by
  obtain ⟨s₀, as, h₀, hrun⟩ := h
  refine ⟨s₀, as, h₀, ?_⟩
  induction hrun with
  | nil => exact .nil _
  | snoc _ he hn ih => exact ih.snoc ⟨he.1, hCD _ _ he.2⟩ hn

theorem Invariant.of_guarded {I : σ → Prop} {C : σ → α → Prop}
    (h : L.Invariant I) : (L.guarded C).Invariant I where
  init := h.init
  step s a s' hi he hn := h.step s a s' hi he.1 hn

/-- A run all of whose events satisfy `P` is a run of the system that offers
no others. -/
theorem Run.guarded_of_all {P : α → Prop} {s s' : σ} {as : List α}
    (h : L.Run s as s') (hP : ∀ a ∈ as, P a) : (L.guarded fun _ a => P a).Run s as s' := by
  induction h with
  | nil => exact .nil _
  | @snoc _ _ as a _ he hn ih =>
      have hmem : ∀ x ∈ as, P x := fun x hx => hP x (List.mem_append_left _ hx)
      exact (ih hmem).snoc ⟨he, hP a (by simp)⟩ hn

/-! ## Replaying a list of events -/

section Exec

variable [∀ s a, Decidable (L.enabled s a)]

/-- Replay `as` from `s`; `none` where an event is not enabled or faults. -/
def exec (L : Lts σ α ε) [∀ s a, Decidable (L.enabled s a)] : σ → List α → Option σ
  | s, [] => some s
  | s, a :: as =>
      if L.enabled s a then
        match L.next s a with
        | .ok s' => exec L s' as
        | .error _ => none
      else none

theorem run_of_exec : ∀ {s s' : σ} {as : List α}, L.exec s as = some s' → L.Run s as s'
  | s, s', [], h => by
      obtain rfl := Option.some.inj h
      exact .nil s
  | s, s', a :: as, h => by
      rw [exec] at h
      split at h
      · rename_i he
        split at h
        · rename_i s₁ hn
          exact Run.cons he hn (run_of_exec h)
        · cases h
      · cases h

/-- A replay from an initial state whose last state satisfies `p`. -/
theorem exists_reachable_of_exec {s₀ : σ} (as : List α) (p : σ → Bool)
    (h₀ : L.init s₀) (h : (L.exec s₀ as).map p = some true) :
    ∃ s, L.Reachable s ∧ p s = true := by
  obtain ⟨s, hs, hp⟩ := Option.map_eq_some_iff.mp h
  exact ⟨s, ⟨s₀, as, h₀, run_of_exec hs⟩, hp⟩

/-- Does `a`, offered in `s`, fault with `e`? -/
def faults [DecidableEq ε] (L : Lts σ α ε) [∀ s a, Decidable (L.enabled s a)] (a : α) (e : ε)
    (s : σ) : Bool :=
  decide (L.enabled s a) && match L.next s a with
    | .ok _ => false
    | .error e' => e' = e

theorem of_faults [DecidableEq ε] {s : σ} {a : α} {e : ε} (h : L.faults a e s = true) :
    L.enabled s a ∧ L.next s a = .error e := by
  simp only [faults, Bool.and_eq_true, decide_eq_true_eq] at h
  refine ⟨h.1, ?_⟩
  cases hn : L.next s a with
  | ok s' =>
      rw [hn] at h
      cases h.2
  | error e' =>
      rw [hn] at h
      exact congrArg Except.error (of_decide_eq_true h.2)

/-- A replay that ends where `a` faults. -/
theorem exists_fault_of_exec [DecidableEq ε] (s₀ : σ) (as : List α) (a : α) (e : ε)
    (h : (L.exec s₀ as).map (L.faults a e) = some true) :
    ∃ s, L.Run s₀ as s ∧ L.enabled s a ∧ L.next s a = .error e := by
  obtain ⟨s, hs, hf⟩ := Option.map_eq_some_iff.mp h
  exact ⟨s, run_of_exec hs, of_faults hf⟩

end Exec

end Lts

end Lib
