import Muduo.Threads.CountDownLatch

/-!
# When a latch lets go

`CountDownLatch` with a record of the threads that have decremented the count
(`decremented`), which is not in the code: a `wait()` that returns does so
after `count` of them, and from the `count`th on nobody goes to sleep, and
whoever sleeps is about to be woken (`released_at_zero`). Only the decrement
that brings the count to zero broadcasts; later ones find no sleepers.
-/

namespace Muduo

open Lib Lib.Threads

/-- A latch, and who has decremented its count. -/
structure Tallied (Tid : Type) where
  latch : CountDownLatch Tid
  decremented : List Tid

namespace CountDownLatch

variable {Tid : Type} [DecidableEq Tid]

variable {s : CountDownLatch Tid} {e : LatchEvent Tid} {t u : Tid}

theorem open_reachable {count : Int} (hs : (system count).Reachable s) : Open s := by
  have hinv : (system count : Lts (CountDownLatch Tid) _ _).Invariant Open := {
    init := by
      rintro s rfl
      exact open_new count
    step := by
      intro s e s' h _ hn
      obtain rfl := Except.ok.inj hn
      exact h.next }
  exact hinv.reachable hs

/-! ## Falling asleep -/

theorem asleep_next (h : latchCondition.asleep ((s.next e).pc u) = true) :
    latchCondition.asleep (s.pc u) = true ∨ s.pc u = .waitSleep := by
  have hstay : ∀ {t p}, latchCondition.asleep p = false →
      latchCondition.asleep (Function.update s.pc t p u) = true →
      latchCondition.asleep (s.pc u) = true := fun hp hu => Condition.asleep_of_update hp hu
  cases e with
  | wait t => exact Or.inl (hstay rfl h)
  | countDown t => exact Or.inl (hstay rfl h)
  | spurious t => exact Or.inl (Condition.asleep_of_notify (w := some t) h)
  | step t =>
      generalize hpc : s.pc t = p
      rw [next, hpc] at h
      cases p with
      | idle | waitWait => exact Or.inl h
      | waitTest | downTest =>
          rw [advance] at h
          split at h <;> exact Or.inl (hstay rfl h)
      | waitSleep =>
          by_cases hut : u = t
          · rw [hut]
            exact Or.inr hpc
          · change latchCondition.asleep (Function.update s.pc t _ u) = true at h
            rw [Function.update_of_ne hut] at h
            exact Or.inl h
      | downNotify =>
          have hwoken := Condition.asleep_of_update rfl h
          rw [Condition.asleep_notifyAll] at hwoken
          cases hwoken
      | _ => exact Or.inl (hstay rfl h)

/-- Nobody falls asleep with the count at zero or below. -/
theorem Attended.asleep_next (h : Attended s) (hcount : s.count ≤ 0)
    (hu : latchCondition.asleep ((s.next e).pc u) = true) :
    latchCondition.asleep (s.pc u) = true := by
  rcases CountDownLatch.asleep_next hu with hu | hu
  · exact hu
  · have hsure := h.sure u
    rw [hu] at hsure
    exact absurd hcount (not_le.mpr hsure)

omit [DecidableEq Tid] in
/-- A thread that holds the mutex can go on. -/
theorem Attended.holder_steps (h : Attended s) (ht : s.holder = some t) :
    s.canStep (s.pc t) = true := by
  have hinside := (h.mutex t).mpr ht
  cases hpc : s.pc t <;> rw [hpc] at hinside <;> first | rfl | cases hinside

omit [DecidableEq Tid] in
/-- Whoever can neither go on nor is asleep or idle waits for the mutex. -/
theorem canStep_or_held (hidle : s.pc u ≠ .idle) (hawake : latchCondition.asleep (s.pc u) = false) :
    s.canStep (s.pc u) = true ∨ ∃ t, s.holder = some t := by
  cases hholder : s.holder with
  | some t => exact Or.inr ⟨t, rfl⟩
  | none =>
      left
      cases hpc : s.pc u with
      | idle => exact absurd hpc hidle
      | waitWait =>
          rw [hpc] at hawake
          cases hawake
      | _ => simp [canStep, hholder]

end CountDownLatch

namespace Tallied

open CountDownLatch (Attended Waking)

variable {Tid : Type} [DecidableEq Tid]

def new (count : Int) : Tallied Tid := ⟨.new count, []⟩

def recorded (s : Tallied Tid) : LatchEvent Tid → List Tid
  | .step t => if s.latch.pc t = .downDec then s.decremented ++ [t] else s.decremented
  | .wait _ | .countDown _ | .spurious _ => s.decremented

/-- The latch under any interleaving, its decrements recorded. -/
def system (count : Int) : Lts (Tallied Tid) (LatchEvent Tid) Empty where
  init s := s = new count
  enabled s e := s.latch.enabled e = true
  next s e := .ok ⟨s.latch.next e, s.recorded e⟩

instance (count : Int) (s : Tallied Tid) (e : LatchEvent Tid) :
    Decidable ((system count).enabled s e) :=
  inferInstanceAs (Decidable (_ = true))

variable {count : Int} {s s' : Tallied Tid} {t u : Tid}

theorem latch_reachable (hs : (system count).Reachable s) :
    (CountDownLatch.system count).Reachable s.latch := by
  refine hs.invariant (I := fun s => (CountDownLatch.system count).Reachable s.latch) ?_ ?_
  · rintro s rfl
    exact .of_init rfl
  · intro s e s' _ ih he hn
    obtain rfl := Except.ok.inj hn
    exact ih.step he rfl

/-- The count is what the decrements have left of it. -/
theorem count_eq (hs : (system count).Reachable s) :
    s.latch.count = count - s.decremented.length := by
  have hinv : (system count : Lts (Tallied Tid) _ _).Invariant
      fun s => s.latch.count = count - s.decremented.length := {
    init := by
      rintro s rfl
      exact (sub_zero count).symm
    step := by
      intro s e s' h _ hn
      obtain rfl := Except.ok.inj hn
      show (s.latch.next e).count = count - (s.recorded e).length
      cases e with
      | step t =>
          generalize hpc : s.latch.pc t = p
          simp only [CountDownLatch.next, recorded, hpc]
          cases p with
          | downDec =>
              rw [if_pos rfl, List.length_append, List.length_singleton]
              show s.latch.count - 1 = _
              omega
          | _ =>
              rw [if_neg (by decide)]
              exact h
      | _ => exact h }
  exact hinv.reachable hs

/-- With the count at zero or below nobody falls asleep any more. -/
theorem asleep_of_run (h : Attended s.latch) (hcount : s.latch.count ≤ 0)
    {es : List (LatchEvent Tid)} (hrun : (system count).Run s es s')
    (hu : latchCondition.asleep (s'.latch.pc u) = true) :
    latchCondition.asleep (s.latch.pc u) = true := by
  have hkeep : Attended s'.latch ∧ s'.latch.count ≤ 0 ∧
      (latchCondition.asleep (s'.latch.pc u) = true →
        latchCondition.asleep (s.latch.pc u) = true) := by
    refine hrun.invariant (I := fun s' => Attended s'.latch ∧ s'.latch.count ≤ 0 ∧
      (latchCondition.asleep (s'.latch.pc u) = true →
        latchCondition.asleep (s.latch.pc u) = true)) ?_ ⟨h, hcount, id⟩
    rintro s₁ e s₂ ⟨h₁, hcount₁, hasleep⟩ he hn
    obtain rfl := Except.ok.inj hn
    refine ⟨(CountDownLatch.attended_invariant count).step _ _ _ h₁ he rfl, ?_, fun hu => ?_⟩
    · exact le_trans CountDownLatch.count_next_le hcount₁
    · exact hasleep (h₁.asleep_next hcount₁ hu)
  exact hkeep.2.2 hu

/-- A thread that is about to wake the sleepers does so in two steps of its
own at most, and nothing can keep it from them. -/
theorem wakes (ht : Waking s.latch.count (s.latch.pc t)) :
    ∃ es s', (system count).Run s es s' ∧ (∀ e ∈ es, e = .step t) ∧
      ∀ u, latchCondition.asleep (s'.latch.pc u) = false := by
  have hnotify (s : Tallied Tid) (hpc : s.latch.pc t = .downNotify) :
      ∃ s', (system count).enabled s (.step t) ∧ (system count).next s (.step t) = .ok s' ∧
        ∀ u, latchCondition.asleep (s'.latch.pc u) = false := by
    refine ⟨_, ?_, rfl, fun u => ?_⟩
    · show s.latch.canStep (s.latch.pc t) = true
      rw [hpc]
      rfl
    · refine Bool.eq_false_iff.mpr fun hu => ?_
      simp only [CountDownLatch.next, hpc] at hu
      have hwoken := Condition.asleep_of_update rfl hu
      rw [Condition.asleep_notifyAll] at hwoken
      cases hwoken
  rcases ht with hpc | ⟨hpc, hzero⟩
  · obtain ⟨s', he, hn, hawake⟩ := hnotify s hpc
    exact ⟨[.step t], s', .cons he hn (.nil s'), by simp, hawake⟩
  · have he : (system count).enabled s (.step t) := by
      show s.latch.canStep (s.latch.pc t) = true
      rw [hpc]
      rfl
    have hpc' : (s.latch.next (.step t)).pc t = .downNotify := by
      simp only [CountDownLatch.next, hpc, CountDownLatch.advance, if_pos hzero]
      exact Function.update_self ..
    obtain ⟨s', he', hn', hawake⟩ := hnotify ⟨s.latch.next (.step t), s.recorded (.step t)⟩ hpc'
    exact ⟨[.step t, .step t], s', .cons he rfl (.cons he' hn' (.nil s')), by simp, hawake⟩

/-- What holds once `count` decrements were made: who sleeps is about to be
woken by the thread that holds the mutex; nobody falls asleep again; and who
is awake can go on, or waits for a thread that can. -/
structure Released (count : Int) (s : Tallied Tid) : Prop where
  pending : ∀ u, latchCondition.asleep (s.latch.pc u) = true →
    ∃ t es s', s.latch.holder = some t ∧ (system count).Run s es s' ∧
      (∀ e ∈ es, e = .step t) ∧ ∀ u, latchCondition.asleep (s'.latch.pc u) = false
  stays : ∀ es s', (system count).Run s es s' → ∀ u,
    latchCondition.asleep (s'.latch.pc u) = true → latchCondition.asleep (s.latch.pc u) = true
  goesOn : ∀ u, s.latch.pc u ≠ .idle → latchCondition.asleep (s.latch.pc u) = false →
    s.latch.canStep (s.latch.pc u) = true ∨
      ∃ t, s.latch.holder = some t ∧ s.latch.canStep (s.latch.pc t) = true

/-- A `wait()` has returned, or is about to, only after `count` decrements;
once that many were made, it is released. The `int` is in range as long as the
decrements are no more than `count + 2 ^ 31`. -/
theorem released_at_zero (hs : (system count).Reachable s) :
    (-2 ^ 31 ≤ s.latch.count ↔ s.decremented.length ≤ count + 2 ^ 31) ∧
      (∀ t, t ∈ s.latch.waited ∨ s.latch.pc t = .waitUnlock → count ≤ s.decremented.length) ∧
      (count ≤ s.decremented.length → Released count s) := by
  have hcount := count_eq hs
  have hattended := (CountDownLatch.attended_invariant count).reachable (latch_reachable hs)
  refine ⟨by omega, fun t ht => ?_, fun hmade => ?_⟩
  · have hopen := CountDownLatch.open_reachable (latch_reachable hs)
    have hzero : s.latch.count ≤ 0 := by
      rcases ht with ht | ht
      · exact hopen.waited t ht
      · exact hopen.leaving t (by rw [ht]; rfl)
    omega
  · have hzero : s.latch.count ≤ 0 := by omega
    refine ⟨fun u hu => ?_, fun es s' hrun u => asleep_of_run hattended hzero hrun, ?_⟩
    · obtain ⟨t, hholder, ht⟩ := CountDownLatch.latch_opens (latch_reachable hs) hzero hu
      obtain ⟨es, s', hrun, hes, hawake⟩ := wakes ht
      exact ⟨t, es, s', hholder, hrun, hes, hawake⟩
    · intro u hidle hawake
      rcases CountDownLatch.canStep_or_held hidle hawake with hstep | ⟨t, ht⟩
      · exact Or.inl hstep
      · exact Or.inr ⟨t, ht, hattended.holder_steps ht⟩

/-- Thread 0 sleeps on a count of one, and thread 1 has just decremented it. -/
theorem released_at_zero_one : ∃ s : Tallied (Fin 2), (system 1).Reachable s ∧
    latchCondition.asleep (s.latch.pc 0) = true ∧ Released 1 s := by
  obtain ⟨s, hs, hcheck⟩ := Lts.exists_reachable_of_exec (L := system 1)
    [.wait 0, .step 0, .step 0, .step 0, .countDown 1, .step 1, .step 1]
    (fun s : Tallied (Fin 2) => decide (latchCondition.asleep (s.latch.pc 0) = true ∧
      s.decremented.length = 1)) rfl (by decide +kernel)
  simp only [decide_eq_true_eq] at hcheck
  have hmade : (1 : Int) ≤ s.decremented.length := by rw [hcheck.2]; decide
  exact ⟨s, hs, hcheck.1, (released_at_zero hs).2.2 hmade⟩

end Tallied

end Muduo
