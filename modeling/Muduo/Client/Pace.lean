import Muduo.Client.Backoff

/-!
# A bound on the attempts

However `start()`, `stop()` and `restart()` are called, and by whom, no more
sockets are opened than one for each call and for each half second since that
call (`attempts_bounded`). What is under way is paid for by the calls and by
the time that has passed since them, a retry timer by the time since it was
set (`Funded`).
-/

namespace Muduo

open Lib

namespace Connector

namespace Timed

variable {Tid G : Type} {s s' : Timed Tid G}

/-! ## A bound for all runs -/

/-- The shortest delay, in microseconds. -/
def leastWait : Nat := 1000 * kInitRetryDelayMs

theorem leastWait_eq : leastWait = 500000 := rfl

theorem expiry_backoff (now n : Nat) : now + leastWait ≤ expiry now (backoff n) :=
  Nat.add_le_add_left (Nat.mul_le_mul_left 1000 (kInitRetryDelayMs_le_backoff n)) now

/-- What a timer that expires at `u` has earned: all of `leastWait` when it
fires, nothing when it is set. -/
def credit (now u : Nat) : Nat := leastWait - (u - now)

def credits (now : Nat) : List Nat → Nat
  | [] => 0
  | u :: us => credit now u + credits now us

theorem credits_append (now : Nat) (us vs : List Nat) :
    credits now (us ++ vs) = credits now us + credits now vs := by
  induction us with
  | nil => exact (Nat.zero_add _).symm
  | cons u us ih => rw [List.cons_append, credits, credits, ih, Nat.add_assoc]

theorem credits_eraseIdx {now u i : Nat} {us : List Nat} (h : us[i]? = some u) :
    credits now (us.eraseIdx i) + credit now u = credits now us := by
  induction us generalizing i with
  | nil => cases h
  | cons v us ih =>
      cases i with
      | zero =>
          obtain rfl := Option.some.inj h
          exact Nat.add_comm _ _
      | succ i =>
          have hrest := ih h
          rw [List.eraseIdx_cons_succ, credits, credits]
          omega

theorem credits_pass (now d : Nat) (us : List Nat) :
    credits (now + d) us ≤ credits now us + d * us.length := by
  induction us with
  | nil => exact Nat.zero_le _
  | cons u us ih =>
      have hone : credit (now + d) u ≤ credit now u + d := by
        unfold credit
        omega
      rw [credits, credits, List.length_cons, Nat.mul_succ]
      omega

/-- What the calls at these times have earned: `leastWait` each, and the time
since. -/
def allowance (now : Nat) : List Nat → Nat
  | [] => 0
  | t :: ts => (now - t + leastWait) + allowance now ts

theorem allowance_pass {now : Nat} (d : Nat) {ts : List Nat} (h : ∀ t ∈ ts, t ≤ now) :
    allowance (now + d) ts = allowance now ts + d * ts.length := by
  induction ts with
  | nil => rfl
  | cons t ts ih =>
      obtain ⟨ht, hts⟩ := List.forall_mem_cons.mp h
      rw [allowance, allowance, ih hts, List.length_cons, Nat.mul_succ]
      omega

/-- Each call and each half second since it pays for one socket: for those
opened, for what is about to open one, and for the timers as far as they
have got. -/
structure Funded (s : Timed Tid G) : Prop where
  due : s.due.length = s.conn.timers.length
  past : ∀ t ∈ s.calls, t ≤ s.now
  few : s.conn.ready + s.conn.timers.length + s.conn.pending ≤ s.calls.length
  paid : leastWait * s.conn.opened + leastWait * s.conn.ready + credits s.now s.due ≤
    allowance s.now s.calls
  delay : s.conn.retryDelayMs = backoff (s.base + s.retries)

theorem funded_new : Funded (new : Timed Tid G) :=
  ⟨rfl, fun _ ht => absurd ht List.not_mem_nil, Nat.le_refl _, Nat.zero_le _, rfl⟩

theorem Funded.pass (h : Funded s) (d : Nat) : Funded { s with now := s.now + d } := by
  refine ⟨h.due, fun t ht => Nat.le_add_right_of_le (h.past t ht), h.few, ?_, h.delay⟩
  have hpaid := h.paid
  have hpass := credits_pass s.now d s.due
  have htimers : d * s.due.length ≤ d * s.calls.length := by
    refine Nat.mul_le_mul_left d ?_
    have hfew := h.few
    rw [h.due]
    omega
  calc leastWait * s.conn.opened + leastWait * s.conn.ready + credits (s.now + d) s.due
      ≤ allowance s.now s.calls + d * s.calls.length := by omega
    _ = allowance (s.now + d) s.calls := (allowance_pass d h.past).symm

theorem Funded.event (h : Funded s) {a : Connector.Event Tid G} {conn : Connector Tid G}
    (hexpired : s.expired a = true) (hbeat : Beat s.conn a conn) : Funded (s.after a conn) := by
  have hfew := h.few
  have hpaid := h.paid
  have hwait := leastWait_eq
  cases hbeat with
  | @call restart hkind ho ht hd hr hp =>
      rw [after_call hkind]
      refine ⟨by rw [ht]; exact h.due, List.forall_mem_cons.mpr ⟨Nat.le_refl _, h.past⟩,
        ?_, ?_, ?_⟩
      · dsimp only
        rw [ht, List.length_cons]
        omega
      · dsimp only
        rw [ho, allowance, Nat.sub_self]
        simp only [leastWait_eq] at hpaid ⊢
        omega
      · dsimp only
        rw [hd]
        cases restart with
        | false => exact h.delay
        | true => rfl
  | fires hkind hlt ho ht hd hr hp =>
      obtain ⟨u, hu, hle⟩ := expired_timer hkind hexpired
      have hcredit : credit s.now u = leastWait := by
        unfold credit
        omega
      have herase := @credits_eraseIdx s.now _ _ _ hu
      rw [after_fires hkind]
      have hlen := List.length_eraseIdx_of_lt hlt
      refine ⟨?_, h.past, ?_, ?_, hd.trans h.delay⟩
      · dsimp only
        rw [ht, hlen, List.length_eraseIdx_of_lt (h.due ▸ hlt), h.due]
      · dsimp only
        rw [ht, hlen]
        omega
      · dsimp only
        rw [ho]
        simp only [leastWait_eq] at hpaid ⊢
        omega
  | opens hkind ho ht hd hr hp =>
      rw [after_opens hkind ho ht]
      refine ⟨by rw [ht]; exact h.due, h.past, ?_, ?_, hd.trans h.delay⟩
      · dsimp only
        rw [ht]
        omega
      · dsimp only
        rw [ho]
        simp only [leastWait_eq] at hpaid ⊢
        omega
  | arms hkind ho ht hd hr hp =>
      -- A timer just set has earned nothing yet.
      have hnone : credit s.now (expiry s.now s.conn.retryDelayMs) = 0 := by
        have hexpiry := expiry_backoff s.now (s.base + s.retries)
        rw [h.delay, credit]
        omega
      rw [after_arms hkind ho ht]
      refine ⟨?_, h.past, ?_, ?_, ?_⟩
      · dsimp only
        rw [ht, List.length_append, List.length_append, h.due]
        rfl
      · dsimp only
        rw [ht, List.length_append, List.length_singleton]
        omega
      · dsimp only
        rw [ho, credits_append, credits, credits, hnone]
        simp only [leastWait_eq] at hpaid ⊢
        omega
      · dsimp only
        rw [hd, h.delay]
        rfl
  | quiet hkind ho ht hd hr hp =>
      rw [after_quiet hkind ho ht]
      refine ⟨by rw [ht]; exact h.due, h.past, ?_, ?_, hd.trans h.delay⟩
      · dsimp only
        rw [ht]
        omega
      · dsimp only
        rw [ho]
        simp only [leastWait_eq] at hpaid ⊢
        omega

section Bounded

variable [DecidableEq Tid]

theorem Funded.next (h : Funded s) {a : Event Tid G} (he : s.enabled a = true)
    (hn : s.next a = .ok s') : Funded s' := by
  cases a with
  | pass d =>
      cases hn
      exact h.pass d
  | event a =>
      obtain ⟨conn, hconn, rfl⟩ := next_ok hn
      obtain ⟨he, hexpired⟩ := Bool.and_eq_true .. |>.mp he
      exact h.event hexpired (beat_of_next he hconn)

theorem funded_reachable (hs : system.Reachable s) : Funded s := by
  have hinv : (system : Lts (Timed Tid G) _ _).Invariant Funded := {
    init := by
      rintro s hs
      rw [show s = new from hs]
      exact funded_new
    step := fun s a s' h he hn => h.next he hn }
  exact hinv.reachable hs

/-- At most one socket for each call and each half second since that call, and
as many timers as calls; and the delay of the next retry is half a second
doubled for each retry since it was reset, up to half a minute. -/
structure RateBounded (s : Timed Tid G) : Prop where
  opened : leastWait * s.conn.opened ≤ allowance s.now s.calls
  timers : s.conn.timers.length ≤ s.calls.length
  delay : s.conn.retryDelayMs =
    min (kInitRetryDelayMs * 2 ^ (s.base + s.retries)) kMaxRetryDelayMs

/-- **The rate is bounded** in every run, whoever calls what and when. -/
theorem attempts_bounded (hs : system.Reachable s) : s.RateBounded := by
  have h := funded_reachable hs
  have hpaid := h.paid
  have hfew := h.few
  exact ⟨by omega, by omega, h.delay.trans (backoff_eq _)⟩

/-- `stop()` and `start()` again a while later, with a retry still set: two
attempts. -/
theorem attempts_bounded_twice : ∃ s : Timed Nat Unit,
    s.conn.opened = 2 ∧ s.calls = [100000, 0] ∧ s.now = 100000 ∧ s.RateBounded := by
  let L : Lts (Timed Nat Unit) (Event Nat Unit) Fault := system
  have h₀ : L.Reachable new := .of_init rfl
  have h₁ := h₀.step (a := Event.event (.start .loop)) rfl rfl
  have h₂ := h₁.step (a := Event.event .step) rfl rfl
  have h₃ := h₂.step (a := Event.event (.connect .ECONNREFUSED)) rfl rfl
  have h₄ := h₃.step (a := Event.event .step) rfl rfl
  have h₅ := h₄.step (a := Event.pass 100000) rfl rfl
  have h₆ := h₅.step (a := Event.event (.stop .loop)) rfl rfl
  have h₇ := h₆.step (a := Event.event .step) rfl rfl
  have h₈ := h₇.step (a := Event.event (.start .loop)) rfl rfl
  have h₉ := h₈.step (a := Event.event .step) rfl rfl
  have h₁₀ := h₉.step (a := Event.event (.connect .EINPROGRESS)) rfl rfl
  exact ⟨_, rfl, rfl, rfl, attempts_bounded h₁₀⟩

end Bounded

end Timed

end Connector

end Muduo
