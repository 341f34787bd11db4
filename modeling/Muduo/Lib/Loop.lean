import Mathlib.Data.Nat.Init

/-!
# `while` loops with fuel

`whileFuel cond body n s` runs at most `n` tests of the condition; `none`
is "not finished yet". A loop caught in a set of states it never leaves
finishes with no fuel at all (`whileFuel_diverges`); one whose iterations
each end it or come closer to the bottom of a measure finishes with as much
fuel as the measure says (`whileFuel_terminates`). What an iteration keeps, the
loop keeps (`whileFuel_invariant`).
-/

namespace Lib

variable {σ ε : Type}

def whileFuel (cond : σ → Bool) (body : σ → Except ε σ) : Nat → σ → Option (Except ε σ)
  | 0, _ => none
  | n + 1, s =>
      if cond s then
        match body s with
        | .ok s' => whileFuel cond body n s'
        | .error e => some (.error e)
      else some (.ok s)

variable {cond : σ → Bool} {body : σ → Except ε σ}

theorem whileFuel_exit {s : σ} (h : cond s = false) (n : Nat) :
    whileFuel cond body (n + 1) s = some (.ok s) := by
  simp [whileFuel, h]

theorem whileFuel_step {s s' : σ} (h : cond s = true) (hb : body s = .ok s') (n : Nat) :
    whileFuel cond body (n + 1) s = whileFuel cond body n s' := by
  simp [whileFuel, h, hb]

theorem whileFuel_error {s : σ} {e : ε} (h : cond s = true) (hb : body s = .error e)
    (n : Nat) : whileFuel cond body (n + 1) s = some (.error e) := by
  simp [whileFuel, h, hb]

/-- A loop that has finished finishes the same with more fuel. -/
theorem whileFuel_mono {r : Except ε σ} : ∀ {n m : Nat} {s : σ},
    whileFuel cond body n s = some r → n ≤ m → whileFuel cond body m s = some r
  | 0, _, _, h, _ => by cases h
  | n + 1, 0, _, _, hle => absurd hle (Nat.not_succ_le_zero n)
  | n + 1, m + 1, s, h, hle => by
      cases hc : cond s with
      | false =>
          rw [whileFuel_exit hc] at h ⊢
          exact h
      | true =>
          cases hb : body s with
          | error e =>
              rw [whileFuel_error hc hb] at h ⊢
              exact h
          | ok s' =>
              rw [whileFuel_step hc hb] at h ⊢
              exact whileFuel_mono h (Nat.le_of_succ_le_succ hle)

theorem whileFuel_diverges {D : σ → Prop}
    (hstep : ∀ s, D s → cond s = true ∧ ∃ s', body s = .ok s' ∧ D s') :
    ∀ (n : Nat) (s : σ), D s → whileFuel cond body n s = none
  | 0, _, _ => rfl
  | n + 1, s, hD => by
      obtain ⟨hc, s', hb, hD'⟩ := hstep s hD
      rw [whileFuel_step hc hb]
      exact whileFuel_diverges hstep n s' hD'

/-- What every iteration keeps holds where the loop ends. -/
theorem whileFuel_invariant {I : σ → Prop} (hstep : ∀ s s', I s → body s = .ok s' → I s') :
    ∀ {n : Nat} {s s' : σ}, I s → whileFuel cond body n s = some (.ok s') → I s'
  | 0, _, _, _, h => by cases h
  | n + 1, s, s', hs, h => by
      cases hc : cond s with
      | false =>
          rw [whileFuel_exit hc] at h
          cases h
          exact hs
      | true =>
          cases hb : body s with
          | error e =>
              rw [whileFuel_error hc hb] at h
              cases h
          | ok s₁ =>
              rw [whileFuel_step hc hb] at h
              exact whileFuel_invariant hstep (hstep s s₁ hs hb) h

/-- A loop terminates when every iteration from `I` that does not end it
stays in `I` and decreases `μ`. -/
theorem whileFuel_terminates {I : σ → Prop} {μ : σ → Nat}
    (hstep : ∀ s s', I s → cond s = true → body s = .ok s' →
      cond s' = false ∨ I s' ∧ μ s' < μ s) {s : σ} (hs : I s) :
    ∃ r, whileFuel cond body (μ s + 2) s = some r := by
  induction hn : μ s using Nat.strongRecOn generalizing s with
  | _ n ih =>
      cases hc : cond s with
      | false => exact ⟨_, whileFuel_exit hc _⟩
      | true =>
          cases hb : body s with
          | error e => exact ⟨_, whileFuel_error hc hb _⟩
          | ok s' =>
              rw [whileFuel_step hc hb]
              rcases hstep s s' hs hc hb with hend | ⟨hs', hlt⟩
              · exact ⟨_, whileFuel_exit hend _⟩
              · rw [hn] at hlt
                obtain ⟨r, hr⟩ := ih (μ s') hlt hs' rfl
                -- more fuel than the measure asks for does no harm
                exact ⟨r, whileFuel_mono hr (by omega)⟩

end Lib
