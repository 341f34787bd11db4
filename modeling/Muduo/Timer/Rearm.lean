import Muduo.Timer.Placed

/-!
# No timer is forgotten, short of overflow

The timerfd is one-shot and set on two paths: by `addTimerInLoop` when the
new timer is the earliest, and by `reset` when the earliest timer has a
valid expiration. Between handlers a timer in the queue is always covered
by one of the two. The invariant (`Awake`) holds while callbacks run for
those timers `reset` will skip: a callback that adds a timer expiring at or
before the epoch has set the timerfd for it.

What defeats it is the arithmetic. `howMuchTimeFromNow` subtracts and
`restart` adds in `int64_t`: a timer far enough in the past gets a deadline
centuries ahead (`timer_forgotten`), and one that repeats after long enough
gets a negative expiration, which `reset` does not take for valid.
-/

namespace Muduo

open Lib TimerQueue

/-- The timerfd is armed, or has expired since, for a positive and normalised
duration, and its deadline is no later than `when` or 100 microseconds after
the call that set it. -/
def Timerfd.Covers (fd : Timerfd) (when : Timestamp) : Prop :=
  ∃ setAt value, (fd = .armed setAt value ∨ fd = .expired setAt value) ∧ value.Normalised ∧
    0 < value.micros ∧ setAt.microSecondsSinceEpoch + value.micros ≤
      max when.microSecondsSinceEpoch (setAt.microSecondsSinceEpoch + 100)

theorem Timerfd.Covers.expire {fd : Timerfd} {when : Timestamp} (h : fd.Covers when) :
    fd.expire.Covers when := by
  obtain ⟨setAt, value, hfd, h⟩ := h
  refine ⟨setAt, value, Or.inr ?_, h⟩
  rcases hfd with rfl | rfl
  · rfl
  · rfl

/-- The duration is the time left, or 100 microseconds. -/
theorem howMuchTimeFromNow_spec {when now : Timestamp}
    (h : Int64Range (when.microSecondsSinceEpoch - now.microSecondsSinceEpoch)) :
    (howMuchTimeFromNow when now).Normalised ∧ (howMuchTimeFromNow when now).micros =
      max (when.microSecondsSinceEpoch - now.microSecondsSinceEpoch) 100 := by
  simp only [howMuchTimeFromNow, wrap64_eq h, Timespec.Normalised, Timespec.micros,
    Timestamp.kMicroSecondsPerSecond]
  split
  · omega
  · omega

/-- **Setting the timerfd covers the timer it is set for.** -/
theorem Timerfd.settime_covers (fd : Timerfd) {when now : Timestamp}
    (h : Int64Range (when.microSecondsSinceEpoch - now.microSecondsSinceEpoch)) :
    (fd.settime now (howMuchTimeFromNow when now)).Covers when := by
  obtain ⟨hnorm, hmicros⟩ := howMuchTimeFromNow_spec h
  have hpos : 0 < (howMuchTimeFromNow when now).micros := by
    rw [hmicros]
    omega
  have hset : fd.settime now (howMuchTimeFromNow when now) =
      .armed now (howMuchTimeFromNow when now) := by
    have hne : ¬((howMuchTimeFromNow when now).sec = 0 ∧
        (howMuchTimeFromNow when now).nsec = 0) := by
      rintro ⟨hs, hn⟩
      rw [Timespec.micros, hs, hn] at hpos
      exact absurd hpos (by decide)
    rw [Timerfd.settime, if_neg (not_not.mpr hnorm), if_neg hne]
  refine ⟨now, _, Or.inl hset, hnorm, hpos, ?_⟩
  rw [hmicros]
  omega

/-- Two readings of a clock that is past the epoch are not too far apart. -/
theorem int64Range_sub {when now : Timestamp} (hw : when.valid = true) (hn : now.valid = true) :
    Int64Range (when.microSecondsSinceEpoch - now.microSecondsSinceEpoch) := by
  have hw' := Timestamp.valid_iff.mp hw
  have hn' := Timestamp.valid_iff.mp hn
  have hwr := when.range
  have hnr := now.range
  unfold Int64Range at *
  omega

namespace TimerQueue

variable {s s' : TimerQueue} {a : TimerEvent} {e : TimerEntry}

/-- The side condition on events: the two computations in `int64_t` do not
overflow where their results are used. -/
def NoOverflow (s : TimerQueue) : TimerEvent → Prop
  | .addTimer _ when _ now => s.earliestChanged when = true →
      Int64Range (when.microSecondsSinceEpoch - now.microSecondsSinceEpoch)
  | .reset _ => ∀ now ran, s.phase = .running now ran [] →
      ∀ e ∈ ran, ∀ t, s.heap e.timer = some t → t.repeats = true →
        Int64Range (now.microSecondsSinceEpoch + t.interval)
  | _ => True

/-- The earliest timer is covered: between handlers always, and inside one if
`reset` would not take its expiration for valid. -/
def Awake (s : TimerQueue) : Prop :=
  ∀ e, s.timers.begin? = some e → s.phase = .idle ∨ e.when.valid = false →
    s.timerfd.Covers e.when

/-! ## Adding a timer -/

/-- Which timer is the earliest once one is added. -/
theorem begin_add {timers' : OrdSet TimerEntry} {when : Timestamp} {timer : Nat}
    (hperm : timers'.elems.Perm (⟨when, timer⟩ :: s.timers.elems)) {e : TimerEntry}
    (he : timers'.begin? = some e) :
    (s.earliestChanged when = true ∧ e.when = when) ∨
      (s.earliestChanged when = false ∧ ∃ f, s.timers.begin? = some f ∧ e.when = f.when) := by
  have hnew : (⟨when, timer⟩ : TimerEntry) ∈ timers'.elems :=
    hperm.mem_iff.mpr (List.mem_cons_self ..)
  have hmem := hperm.mem_iff.mp (OrdSet.begin_mem he)
  unfold earliestChanged
  cases hb : s.timers.begin? with
  | none =>
      rw [OrdSet.begin_eq_none.mp hb, List.mem_singleton] at hmem
      exact Or.inl ⟨rfl, by rw [hmem]⟩
  | some f =>
      have hf : f ∈ timers'.elems :=
        hperm.mem_iff.mpr (List.mem_cons_of_mem _ (OrdSet.begin_mem hb))
      have hef := TimerEntry.when_le (OrdSet.begin_le he hf)
      have henew : e.when ≤ when := TimerEntry.when_le (OrdSet.begin_le he hnew)
      have hsplit : e.when = when ∨ f.when ≤ e.when := by
        rcases List.mem_cons.mp hmem with rfl | hold
        · exact Or.inl rfl
        · exact Or.inr (TimerEntry.when_le (OrdSet.begin_le hb hold))
      by_cases hlt : when < f.when
      · refine Or.inl ⟨decide_eq_true hlt, ?_⟩
        rcases hsplit with heq | hle
        · exact heq
        · exact absurd (lt_of_lt_of_le hlt (hle.trans henew)) (lt_irrefl _)
      · refine Or.inr ⟨decide_eq_false hlt, f, rfl, le_antisymm hef ?_⟩
        rcases hsplit with heq | hle
        · exact heq ▸ not_lt.mp hlt
        · exact hle

theorem Awake.addTimer (h : s.Awake) {timers' : OrdSet TimerEntry} {when now : Timestamp}
    {timer : Nat} (interval : Nat)
    (hperm : timers'.elems.Perm (⟨when, timer⟩ :: s.timers.elems))
    (hC : s.earliestChanged when = true →
      Int64Range (when.microSecondsSinceEpoch - now.microSecondsSinceEpoch)) :
    Awake { s.allocate timer when interval with
      timers := timers', timerfd := s.fdAfterAdd when now } := by
  intro e he hphase
  rcases begin_add hperm he with ⟨hchanged, hwhen⟩ | ⟨hchanged, f, hf, hwhen⟩
  · change (s.fdAfterAdd when now).Covers e.when
    rw [fdAfterAdd, if_pos hchanged, hwhen]
    exact s.timerfd.settime_covers (hC hchanged)
  · change (s.fdAfterAdd when now).Covers e.when
    have hno : ¬s.earliestChanged when = true := by
      rw [hchanged]
      exact Bool.false_ne_true
    rw [fdAfterAdd, if_neg hno, hwhen]
    exact h f hf (hwhen ▸ hphase)

/-! ## The end of `handleRead` -/

/-- The timers once `reset` has put the repeating ones back: those there
before, and some that expire an interval after `now`. -/
structure SettledTimers (now : Timestamp) (s : TimerQueue) (l : List TimerEntry) (s' : TimerQueue) :
    Prop where
  timerfd : s'.timerfd = s.timerfd
  kept : ∀ e ∈ s.timers.elems, e ∈ s'.timers.elems
  origin : ∀ e ∈ s'.timers.elems, e ∈ s.timers.elems ∨ ∃ f ∈ l, ∃ t,
    s.heap f.timer = some t ∧ t.repeats = true ∧ e.when = addTime now t.interval

theorem Settle.timers {now : Timestamp} {l : List TimerEntry} (m : Settle now s l s')
    (hnd : (l.map TimerEntry.timer).Nodup) : SettledTimers now s l s' := by
  induction m with
  | nil s => exact ⟨rfl, fun _ he => he, fun _ he => Or.inl he⟩
  | @cons s s₁ s' e l hone _ ih =>
      rw [List.map_cons, List.nodup_cons] at hnd
      obtain ⟨hfd, hkept, horigin⟩ := ih hnd.2
      -- the other timers taken out are not touched by this iteration
      have hheap : ∀ f ∈ l, s₁.heap f.timer = s.heap f.timer := by
        intro f hf
        have hne : f.timer ≠ e.timer := fun heq => hnd.1 (heq ▸ List.mem_map_of_mem hf)
        cases hone with
        | again _ _ _ => exact if_neg hne
        | gone _ _ => exact if_neg hne
      have hrest : ∀ {g}, (∃ f ∈ l, ∃ t, s₁.heap f.timer = some t ∧ t.repeats = true ∧
          g = addTime now t.interval) → ∃ f ∈ e :: l, ∃ t, s.heap f.timer = some t ∧
          t.repeats = true ∧ g = addTime now t.interval := by
        rintro g ⟨f, hf, t, ht, h⟩
        exact ⟨f, List.mem_cons_of_mem _ hf, t, hheap f hf ▸ ht, h⟩
      cases hone with
      | @again t timers' halive hrep hperm =>
          refine ⟨hfd, fun g hg => hkept g ?_, ?_⟩
          · exact hperm.mem_iff.mpr (List.mem_cons_of_mem _ hg)
          · intro g hg
            rcases horigin g hg with hg | hg
            · rcases List.mem_cons.mp (hperm.mem_iff.mp hg) with rfl | hg
              · exact Or.inr ⟨e, List.mem_cons_self .., t, halive, hrep, rfl⟩
              · exact Or.inl hg
            · exact Or.inr (hrest hg)
      | gone _ _ =>
          refine ⟨hfd, hkept, fun g hg => ?_⟩
          rcases horigin g hg with hg | hg
          · exact Or.inl hg
          · exact Or.inr (hrest hg)

theorem fdAfterReset_valid {clock : Timestamp} (hb : s.timers.begin? = some e)
    (hv : e.when.valid = true) :
    s.fdAfterReset clock = s.timerfd.settime clock (howMuchTimeFromNow e.when clock) := by
  unfold fdAfterReset
  rw [hb]
  exact if_pos hv

theorem fdAfterReset_invalid {clock : Timestamp} (hb : s.timers.begin? = some e)
    (hv : e.when.valid = false) : s.fdAfterReset clock = s.timerfd := by
  unfold fdAfterReset
  rw [hb]
  exact if_neg (hv ▸ Bool.false_ne_true)

theorem Awake.reset (h : s.Awake) {now clock : Timestamp} {ran : List TimerEntry}
    {s₁ : TimerQueue} (hsettled : SettledTimers now s ran s₁) (hnow : now.valid = true)
    (hclock : clock.valid = true)
    (hC : ∀ e ∈ ran, ∀ t, s.heap e.timer = some t → t.repeats = true →
      Int64Range (now.microSecondsSinceEpoch + t.interval)) :
    Awake { s₁ with timerfd := s₁.fdAfterReset clock, phase := .idle } := by
  intro e he _
  have hb : s₁.timers.begin? = some e := he
  change (s₁.fdAfterReset clock).Covers e.when
  cases hv : e.when.valid with
  | true =>
      rw [fdAfterReset_valid hb hv]
      exact s₁.timerfd.settime_covers (int64Range_sub hv hclock)
  | false =>
      -- `reset` skips it, so it was added by a callback, and is covered already
      have hold : e ∈ s.timers.elems := by
        rcases hsettled.origin e (OrdSet.begin_mem hb) with hold | ⟨f, hf, t, ht, hrep, hwhen⟩
        · exact hold
        · have hrange := hC f hf t ht hrep
          have hpos := Timestamp.valid_iff.mp hnow
          have hvalid : e.when.valid = true := by
            rw [hwhen, Timestamp.valid_iff, addTime, Timestamp.ofInt_micro hrange]
            omega
          rw [hv] at hvalid
          cases hvalid
      have hfirst : s.timers.begin? = some e :=
        OrdSet.begin_eq_of_le hold fun f hf => OrdSet.begin_le hb (hsettled.kept f hf)
      rw [fdAfterReset_invalid hb hv, hsettled.timerfd]
      exact h e hfirst (Or.inr hv)

/-- The reading a `handleRead` in progress took for the time is positive. -/
def ClockValid (s : TimerQueue) : Prop :=
  ∀ now ran todo, s.phase = .running now ran todo → now.valid = true

/-- **One event** under the side condition. -/
theorem Awake.step (h : s.Awake) (hplaced : s.WellPlaced) (hnow : s.ClockValid)
    (m : Moved s a s') (hC : s.NoOverflow a) : s'.Awake := by
  cases m with
  | addTimer _ _ _ _ hperm => exact h.addTimer _ hperm hC
  | @handleRead now _ _ hidle hclock _ _ _ hlater =>
      rintro e he (hphase | hinvalid)
      · cases hphase
      · -- all that is left expires later than `now`
        have hlt := Timestamp.lt_iff.mp (hlater e (OrdSet.begin_mem he))
        have hpos := Timestamp.valid_iff.mp hclock
        have hvalid : e.when.valid = true := Timestamp.valid_iff.mpr (by omega)
        rw [hinvalid] at hvalid
        cases hvalid
  | run hphase _ =>
      rintro e he (hidle | hinvalid)
      · cases hidle
      · exact h e he (Or.inr hinvalid)
  | reset hphase hclock hsettle =>
      rw [WellPlaced, hphase, TimerPhase.expired, List.append_nil] at hplaced
      have hnd := hplaced.nodup
      rw [List.map_append] at hnd
      exact h.reset (hsettle.timers (List.nodup_append.mp hnd).2.1) (hnow _ _ _ hphase) hclock
        (hC _ _ hphase)
  | expire => exact fun e he hphase => (h e he hphase).expire

theorem ClockValid.step (h : s.ClockValid) (m : Moved s a s') : s'.ClockValid := by
  cases m with
  | addTimer _ _ _ _ _ => exact h
  | handleRead _ hclock _ _ _ _ =>
      rintro now ran todo hp
      cases hp
      exact hclock
  | run hphase _ =>
      rintro now ran todo hp
      cases hp
      exact h _ _ _ hphase
  | reset _ _ _ =>
      rintro now ran todo hp
      cases hp
  | expire => exact h

/-- **No timer is forgotten.** In every run in which neither the time left of
the timer that becomes the earliest nor the next expiration of a repeating
timer overflows, between any two handlers: if there are timers, the timerfd
is armed, or has expired, for a positive and normalised duration, and its
deadline is no later than the earliest expiration or 100 microseconds after
the call that set it. -/
theorem no_timer_forgotten (hs : (system.guarded NoOverflow).Reachable s) (hidle : s.phase = .idle)
    (he : s.timers.begin? = some e) : s.timerfd.Covers e.when := by
  have hinv : (system.guarded NoOverflow).Invariant fun s =>
      s.WellPlaced ∧ (s.ClockValid ∧ s.Awake) :=
    (wellPlaced_invariant.of_guarded (C := NoOverflow)).and
      (by
        rintro s hs
        rw [show s = new from hs]
        refine ⟨?_, ?_⟩
        · intro now ran todo hp
          cases hp
        · intro e he
          cases he)
      (fun s a s' hplaced h he hn => by
        have hm := moved_of_next hplaced he.1 hn
        exact ⟨h.1.step hm, h.2.step hplaced h.1 hm he.2⟩)
  obtain ⟨-, -, hawake⟩ := hinv.reachable hs
  exact hawake e he (Or.inl hidle)

/-- A timer for 1000 microseconds past the epoch, added at the first. -/
theorem no_timer_forgotten_one : ∃ (s : TimerQueue) (e : TimerEntry), s.phase = .idle ∧
    s.timers.begin? = some e ∧ s.timerfd.Covers e.when := by
  have h₀ : (system.guarded NoOverflow).Reachable new := .of_init rfl
  have he : new.enabled (.addTimer 1 (.ofInt 1000) 0 (.ofInt 1)) = true := by decide
  have hC : NoOverflow new (.addTimer 1 (.ofInt 1000) 0 (.ofInt 1)) := fun _ => by decide
  obtain ⟨s, hn, hm⟩ := next_ok wellPlaced_new he
  have h₁ := h₀.step ⟨he, hC⟩ hn
  cases hm with
  | @addTimer timer when now interval timers' _ _ _ _ hperm =>
      have hmem : (⟨.ofInt 1000, 1⟩ : TimerEntry) ∈ timers'.elems :=
        hperm.mem_iff.mpr (List.mem_cons_self ..)
      cases hb : timers'.begin? with
      | none =>
          rw [OrdSet.begin_eq_none.mp hb] at hmem
          cases hmem
      | some e => exact ⟨_, e, rfl, hb, no_timer_forgotten h₁ rfl hb⟩

/-- A timer at the least value of `int64_t`, added one microsecond past the
epoch: the time left wraps around to 292 thousand years. -/
theorem timer_forgotten :
    ¬∀ (s : TimerQueue) (e : TimerEntry), system.Reachable s → s.phase = .idle →
      s.timers.begin? = some e → s.timerfd.Covers e.when := by
  intro h
  obtain ⟨s, hs, hp⟩ := Lts.exists_reachable_of_exec (L := system)
    [.addTimer 1 (.ofInt (-2 ^ 63)) 0 (.ofInt 1)]
    (fun s => s.phase = .idle ∧ s.timers.begin? = some ⟨.ofInt (-2 ^ 63), 1⟩ ∧
      s.timerfd = .armed (.ofInt 1) ⟨9223372036854, 775807000⟩) rfl (by decide +kernel)
  obtain ⟨hidle, hb, hfd⟩ := of_decide_eq_true hp
  obtain ⟨setAt, value, harmed, -, -, hdeadline⟩ := h s _ hs hidle hb
  rw [hfd] at harmed
  rcases harmed with harmed | harmed
  · cases harmed
    exact absurd hdeadline (by decide)
  · cases harmed

end TimerQueue

end Muduo
