import Muduo.Timer.Follows

/-!
# When timers fire

Over whole runs, from the record of what was added, run and deleted: runs
are never early, and in order within one `handleRead` (`Ordered`); between
two `handleRead`s each timer has had the runs expected of it (`OnSchedule`).
A one-shot timer is then run once, in the first `handleRead` that finds it
due, and a repeating one an interval after the last.

What defeats it is `restart`, which adds the interval to `now` in `int64_t`: a
timer whose next expiration does not fit is put back centuries in the past,
and fires at once (`fired_early`).
-/

namespace Muduo

open Lib

namespace TimerPhase

/-- The entries taken out and still to be run. -/
def todo : TimerPhase → List TimerEntry
  | idle => []
  | running _ _ todo => todo

/-- The entries run and not yet settled. -/
def ran : TimerPhase → List TimerEntry
  | idle => []
  | running _ ran _ => ran

theorem not_idle_of_todo {p : TimerPhase} {e : TimerEntry} (he : e ∈ p.todo) : p ≠ idle := by
  rintro rfl
  cases he

theorem not_idle_of_ran {p : TimerPhase} {e : TimerEntry} (he : e ∈ p.ran) : p ≠ idle := by
  rintro rfl
  cases he

theorem expired_eq (p : TimerPhase) : p.expired = p.ran ++ p.todo := by
  cases p <;> rfl

/-- What `reset` is called with, once all callbacks have been run. -/
def settling : TimerPhase → Option (Timestamp × List TimerEntry)
  | running now ran [] => some (now, ran)
  | _ => none

end TimerPhase

namespace TimerQueue

variable {s s' : TimerQueue} {ev : TimerEvent}

/-! ## Runs are in time and in order -/

/-- The order of the record, and how what is still to run fits into it. -/
structure Ordered (s : TimerQueue) : Prop where
  now_of : ∀ r ∈ s.log, s.nows[r.handle]? = some r.now ∧
    r.expiration ≤ r.now.microSecondsSinceEpoch
  order : s.log.Pairwise fun r r' => r.handle = r'.handle → r.expiration ≤ r'.expiration
  current : ∀ now ran todo, s.phase = .running now ran todo →
    s.nows.getLast? = some now ∧ todo.Pairwise (· < ·) ∧ (∀ e ∈ todo, e.when ≤ now) ∧
      ∀ r ∈ s.log, r.handle = s.nows.length - 1 → ∀ e ∈ todo,
        r.expiration ≤ e.when.microSecondsSinceEpoch

/-- What a `reset` leaves alone. -/
theorem Settle.frame {now : Timestamp} {l : List TimerEntry} (m : Settle now s l s') :
    s'.nows = s.nows ∧ s'.log = s.log ∧ s'.added = s.added := by
  induction m with
  | nil s => exact ⟨rfl, rfl, rfl⟩
  | cons hone _ ih =>
      cases hone with
      | again _ _ _ => exact ih
      | gone _ _ => exact ih

theorem Ordered.move (ho : s.Ordered) (hplaced : s.WellPlaced) (m : Moved s ev s') :
    s'.Ordered := by
  cases m with
  | addTimer _ _ _ _ _ => exact ⟨ho.now_of, ho.order, ho.current⟩
  | handleRead _ _ _ hsorted hdue _ =>
      refine ⟨?_, ho.order, ?_⟩
      · intro r hr
        obtain ⟨hnow, hexp⟩ := ho.now_of r hr
        exact ⟨getElem?_snoc_of_some hnow, hexp⟩
      · intro now' ran todo hp
        cases hp
        refine ⟨List.getLast?_concat, hsorted, hdue, fun r hr hcur => ?_⟩
        -- no run belongs to a `handleRead` that has just begun
        have hlt := (List.getElem?_eq_some_iff.mp (ho.now_of r hr).1).1
        rw [List.length_append, List.length_singleton, Nat.add_sub_cancel] at hcur
        exact absurd hcur hlt.ne
  | @run now ran todo e t hphase halive =>
      obtain ⟨hlast, hsorted, hdue, hbefore⟩ := ho.current _ _ _ hphase
      rw [List.pairwise_cons] at hsorted
      have hkey : t.expiration = e.when := by
        refine hplaced.key e ?_ t halive
        rw [hphase]
        simp [TimerPhase.expired]
      refine ⟨?_, ?_, ?_⟩
      · intro r hr
        rcases List.mem_append.mp hr with hr | hr
        · exact ho.now_of r hr
        · rw [List.mem_singleton.mp hr]
          refine ⟨?_, hkey ▸ hdue e (List.mem_cons_self ..)⟩
          rw [← List.getLast?_eq_getElem?]
          exact hlast
      · rw [List.pairwise_append]
        refine ⟨ho.order, List.pairwise_singleton _ _, fun r hr r' hr' hhandle => ?_⟩
        rw [List.mem_singleton.mp hr'] at hhandle ⊢
        rw [hkey]
        exact hbefore r hr hhandle e (List.mem_cons_self ..)
      · intro now' ran' todo' hp
        cases hp
        refine ⟨hlast, hsorted.2, fun f hf => hdue f (List.mem_cons_of_mem _ hf),
          fun r hr hcur f hf => ?_⟩
        rcases List.mem_append.mp hr with hr | hr
        · exact hbefore r hr hcur f (List.mem_cons_of_mem _ hf)
        · rw [List.mem_singleton.mp hr, hkey]
          exact TimerEntry.when_le (le_of_lt (hsorted.1 f hf))
  | reset _ _ hsettle =>
      obtain ⟨hnows, hlog, -⟩ := hsettle.frame
      refine ⟨?_, ?_, ?_⟩
      · rw [hnows, hlog]
        exact ho.now_of
      · rw [hlog]
        exact ho.order
      · intro _ _ _ hp
        cases hp
  | expire => exact ⟨ho.now_of, ho.order, ho.current⟩

/-! ## The invariant -/

structure OnSchedule (s : TimerQueue) : Prop where
  placed : s.WellPlaced
  ordered : s.Ordered
  follows : s.Follows s.timers.elems s.phase.todo s.phase.ran

/-- The side condition on events: no timer that repeats is put back with an
expiration past the range of `int64_t`. -/
def InRange (s : TimerQueue) : TimerEvent → Prop
  | .reset _ => ∀ x ∈ s.phase.settling, s.Fits x.1 x.2
  | _ => True

instance (s : TimerQueue) : ∀ a, Decidable (s.InRange a)
  | .reset _ => inferInstanceAs (Decidable (∀ x ∈ s.phase.settling, s.Fits x.1 x.2))
  | .addTimer _ _ _ _ | .handleRead _ | .run | .expire => .isTrue trivial

theorem OnSchedule.follows_move (h : s.OnSchedule) (m : Moved s ev s') (hC : s.InRange ev) :
    s'.Follows s'.timers.elems s'.phase.todo s'.phase.ran := by
  have hplaced := h.placed
  have hf := h.follows
  cases m with
  | addTimer _ hfresh _ _ hperm =>
      rw [WellPlaced, TimerPhase.expired_eq] at hplaced
      exact hf.addTimer hplaced hfresh hperm
  | handleRead hidle _ hperm _ _ hlater =>
      rw [WellPlaced, hidle, TimerPhase.expired, List.append_nil] at hplaced
      rw [hidle] at hf
      exact hf.handleRead hplaced hperm hlater
  | run hphase halive =>
      obtain ⟨hlast, -, hdue, -⟩ := h.ordered.current _ _ _ hphase
      rw [WellPlaced, hphase, TimerPhase.expired] at hplaced
      rw [hphase] at hf
      exact hf.run hplaced halive hlast (hdue _ (List.mem_cons_self ..))
  | reset hphase _ hsettle =>
      obtain ⟨hlast, -, -, -⟩ := h.ordered.current _ _ _ hphase
      rw [WellPlaced, hphase, TimerPhase.expired, List.append_nil] at hplaced
      rw [hphase] at hf
      have hfits : s.Fits _ _ := hC _ (by rw [hphase]; rfl)
      exact (Follows.settle hsettle hf hplaced hfits hlast).rearmed _ _
  | expire => exact hf.rearmed _ _

/-- **One event** under the side condition. -/
theorem OnSchedule.move (h : s.OnSchedule) (m : Moved s ev s') (hC : s.InRange ev) :
    s'.OnSchedule :=
  ⟨m.wellPlaced h.placed, h.ordered.move h.placed m, h.follows_move m hC⟩

theorem onSchedule_new : OnSchedule new where
  placed := wellPlaced_new
  ordered := by constructor <;> simp [new]
  follows := by constructor <;> simp [new, OrdSet.empty, TimerPhase.todo, TimerPhase.ran]

theorem onSchedule_invariant : (system.guarded InRange).Invariant OnSchedule where
  init s hs := by
    rw [show s = new from hs]
    exact onSchedule_new
  step _ _ _ h he hn := h.move (moved_of_next h.placed he.1 hn) he.2

/-- A timer is deleted, or alive at the end of one of the entries. -/
theorem OnSchedule.place (h : s.OnSchedule) {id : Nat} {a : AddedTimer}
    (ha : s.added[id]? = some a) :
    s.Gone id a ∨ ∃ e t, s.heap e.timer = some t ∧ t.id = id ∧
      (e ∈ s.timers.elems ∧ s.Waiting t ∨ e ∈ s.phase.todo ∧ s.Queued t ∨
        e ∈ s.phase.ran ∧ s.HasRun t) := by
  by_cases hdead : s.Dead id
  · exact .inl (h.follows.gone id a ha hdead)
  · simp only [Dead, not_forall, not_not] at hdead
    obtain ⟨p, t, ht, hid⟩ := hdead
    obtain ⟨e, he, rfl⟩ := List.mem_map.mp ((h.placed.alive p).mp ⟨t, ht⟩)
    rw [TimerPhase.expired_eq, List.mem_append, List.mem_append] at he
    refine .inr ⟨e, t, ht, hid, ?_⟩
    rcases he with he | he | he
    · exact .inl ⟨he, h.follows.waiting e he t ht⟩
    · exact .inr (.inr ⟨he, h.follows.ran e he t ht⟩)
    · exact .inr (.inl ⟨he, h.follows.queued e he t ht⟩)

theorem OnSchedule.place_idle (h : s.OnSchedule) (hidle : s.phase = .idle) {id : Nat}
    {a : AddedTimer} (ha : s.added[id]? = some a) :
    s.Gone id a ∨ ∃ e t, s.heap e.timer = some t ∧ t.id = id ∧
      e ∈ s.timers.elems ∧ s.Waiting t := by
  rcases h.place ha with hgone | ⟨e, t, ht, hid, ⟨he, hw⟩ | ⟨he, -⟩ | ⟨he, -⟩⟩
  · exact .inl hgone
  · exact .inr ⟨e, t, ht, hid, he, hw⟩
  · rw [hidle] at he
    cases he
  · rw [hidle] at he
    cases he

/-! ## What that means -/

/-- The `h`-th `handleRead` has returned. -/
def Over (s : TimerQueue) (h : Nat) : Prop := h + 1 < s.nows.length ∨ s.phase = .idle

/-- The one-shot timer `id`: no run until it is due, and one run, then
deleted, as soon as the first `handleRead` that finds it due is over. -/
structure FiresOnce (s : TimerQueue) (id : Nat) (a : AddedTimer) : Prop where
  early : NotDue s.nows a s.nows.length → s.runsOf id = [] ∧ id ∉ s.deleted
  due : ∀ h, FirstDue s.nows a h → s.Over h →
    (∃ now, s.runsOf id = [⟨id, h, now, a.when.microSecondsSinceEpoch⟩]) ∧
      s.deleted.count id = 1
  atMostOnce : ∀ h, FirstDue s.nows a h → s.runsOf id = [] ∧ id ∉ s.deleted ∨
    (∃ now, s.runsOf id = [⟨id, h, now, a.when.microSecondsSinceEpoch⟩]) ∧
      s.deleted.count id ≤ 1

/-- The repeating timer `id` is never deleted, and it is in `timers_` for an
interval after the time the `handleRead` that ran it last was given. -/
structure FiresAgain (s : TimerQueue) (id : Nat) (a : AddedTimer) : Prop where
  alive : id ∉ s.deleted
  again : s.phase = .idle → ∀ r, (s.runsOf id).getLast? = some r →
    ∃ p t, s.heap p = some t ∧ t.id = id ∧ ⟨t.expiration, p⟩ ∈ s.timers.elems ∧
      t.expiration.microSecondsSinceEpoch = r.now.microSecondsSinceEpoch + a.interval

/-- Timers fire exactly when and as often as they should. -/
structure FiresRight (s : TimerQueue) : Prop where
  placed : s.WellPlaced
  onePlace : ∀ id a, s.added[id]? = some a → id ∉ s.deleted →
    ∃! e, e ∈ s.timers.elems ++ s.phase.expired ∧
      ∃ t, s.heap e.timer = some t ∧ t.id = id ∧ t.expiration = e.when
  inTime : ∀ r ∈ s.log, s.nows[r.handle]? = some r.now ∧
    r.expiration ≤ r.now.microSecondsSinceEpoch
  inOrder : s.log.Pairwise fun r r' => r.handle = r'.handle → r.expiration ≤ r'.expiration
  onSchedule : s.phase = .idle → ∀ id a, s.added[id]? = some a →
    s.runsOf id = (schedule id a s.nows).runs
  once : ∀ id a, s.added[id]? = some a → a.interval = 0 → s.FiresOnce id a
  again : ∀ id a, s.added[id]? = some a → 0 < a.interval → s.FiresAgain id a
  unused : ∀ id ∈ s.deleted, s.Dead id

theorem OnSchedule.onePlace (h : s.OnSchedule) {id : Nat} {a : AddedTimer}
    (ha : s.added[id]? = some a) (halive : id ∉ s.deleted) :
    ∃! e, e ∈ s.timers.elems ++ s.phase.expired ∧
      ∃ t, s.heap e.timer = some t ∧ t.id = id ∧ t.expiration = e.when := by
  rcases h.place ha with ⟨-, hcount, -⟩ | ⟨e, t, ht, hid, hplace⟩
  · rw [List.count_eq_zero.mpr halive] at hcount
    cases hcount
  · have he : e ∈ s.timers.elems ++ s.phase.expired := by
      rw [TimerPhase.expired_eq]
      rcases hplace with ⟨he, -⟩ | ⟨he, -⟩ | ⟨he, -⟩
      all_goals simp [he]
    have hkey := h.placed.key e he t ht
    refine ⟨e, ⟨he, t, ht, hid, hkey⟩, ?_⟩
    rintro f ⟨-, u, hu, huid, hfkey⟩
    have hptr : f.timer = e.timer := h.follows.distinct _ _ _ _ hu ht (huid.trans hid.symm)
    obtain rfl := Option.some.inj ((hptr ▸ hu).symm.trans ht)
    cases e
    cases f
    cases hptr
    cases hkey
    cases hfkey
    rfl

theorem OnSchedule.unused (h : s.OnSchedule) {id : Nat} (hid : id ∈ s.deleted) : s.Dead id :=
  fun p t ht heq => (h.follows.alive p t ht).2 (heq ▸ hid)

theorem OnSchedule.firesAgain (h : s.OnSchedule) {id : Nat} {a : AddedTimer}
    (ha : s.added[id]? = some a) (hrep : 0 < a.interval) : s.FiresAgain id a where
  alive hid := by
    have hshot := (h.follows.gone id a ha (h.unused hid)).1
    exact absurd hshot hrep.ne'
  again hidle r hr := by
    rcases h.place_idle hidle ha with ⟨hshot, -, -⟩ | ⟨e, t, ht, rfl, he, a', ha', hi, hs⟩
    · exact absurd hshot hrep.ne'
    · obtain rfl := Option.some.inj (ha.symm.trans ha')
      have hnext := schedule_next t.id s.nows hrep
      rw [hs, hr] at hnext
      have hkey := h.placed.key e (List.mem_append_left _ he) t ht
      refine ⟨e.timer, t, ht, rfl, ?_, Option.some.inj hnext⟩
      rwa [hkey]

section OneShot

variable {id : Nat} {a : AddedTimer} {t : Timer}

theorem Gone.firesOnce (hg : s.Gone id a) : s.FiresOnce id a := by
  obtain ⟨hshot, hcount, hs⟩ := hg
  rcases oneShot_cases id hshot s.nows with ⟨-, hs'⟩ | ⟨h₀, now, hd, hs'⟩
  · cases hs.symm.trans hs'
  · have hruns : s.runsOf id = [⟨id, h₀, now, a.when.microSecondsSinceEpoch⟩] :=
      congrArg Schedule.runs (hs.symm.trans hs')
    refine ⟨?_, ?_, ?_⟩
    · intro hn
      exact absurd hd.lt (not_lt.mpr (hn.le_of_firstDue hd))
    · intro h hd' _
      rw [hd'.unique hd]
      exact ⟨⟨now, hruns⟩, hcount⟩
    · intro h hd'
      rw [hd'.unique hd]
      exact .inr ⟨⟨now, hruns⟩, hcount.le⟩

/-- What waits has not been due. -/
theorem Waiting.firesOnce (hw : s.Waiting t) (ha : s.added[t.id]? = some a)
    (hshot : a.interval = 0) (halive : t.id ∉ s.deleted) : s.FiresOnce t.id a := by
  obtain ⟨a', ha', -, hs⟩ := hw
  obtain rfl := Option.some.inj (ha.symm.trans ha')
  rcases oneShot_cases t.id hshot s.nows with ⟨hn, hs'⟩ | ⟨h₀, now, -, hs'⟩
  · have hruns : s.runsOf t.id = [] := congrArg Schedule.runs (hs.symm.trans hs')
    refine ⟨fun _ => ⟨hruns, halive⟩, fun h hd _ => ?_, fun _ _ => .inl ⟨hruns, halive⟩⟩
    exact absurd hd.lt (not_lt.mpr (hn.le_of_firstDue hd))
  · cases hs.symm.trans hs'

/-- What is still to be run was not due before. -/
theorem Queued.firesOnce (hq : s.Queued t) (ha : s.added[t.id]? = some a)
    (hshot : a.interval = 0) (halive : t.id ∉ s.deleted) (hphase : s.phase ≠ .idle) :
    s.FiresOnce t.id a := by
  obtain ⟨a', ha', -, -, hs⟩ := hq
  obtain rfl := Option.some.inj (ha.symm.trans ha')
  rcases oneShot_cases t.id hshot s.nows.dropLast with ⟨hn, hs'⟩ | ⟨h₀, now, -, hs'⟩
  · have hruns : s.runsOf t.id = [] := congrArg Schedule.runs (hs.symm.trans hs')
    refine ⟨fun _ => ⟨hruns, halive⟩, fun h hd hover => ?_, fun _ _ => .inl ⟨hruns, halive⟩⟩
    have hbefore := hd.dropLast (hover.resolve_right hphase)
    exact absurd hbefore.lt (not_lt.mpr (hn.le_of_firstDue hbefore))
  · cases hs.symm.trans hs'

/-- What has been run and is not yet deleted was due for the first time in the
`handleRead` in progress. -/
theorem HasRun.firesOnce (hr : s.HasRun t) (ha : s.added[t.id]? = some a)
    (hshot : a.interval = 0) (halive : t.id ∉ s.deleted) (hphase : s.phase ≠ .idle) :
    s.FiresOnce t.id a := by
  obtain ⟨a', now, ha', hi, -, hnext, hs⟩ := hr
  obtain rfl := Option.some.inj (ha.symm.trans ha')
  rw [← hi, hshot] at hs
  rcases oneShot_cases t.id hshot s.nows with ⟨-, hs'⟩ | ⟨h₀, now', hd, hs'⟩
  · cases hs.symm.trans hs'
  · have hruns : s.runsOf t.id = [⟨t.id, h₀, now', a.when.microSecondsSinceEpoch⟩] :=
      congrArg Schedule.runs (hs.symm.trans hs')
    refine ⟨?_, ?_, ?_⟩
    · intro hn
      exact absurd hd.lt (not_lt.mpr (hn.le_of_firstDue hd))
    · intro h hd' hover
      have hbefore := hd'.dropLast (hover.resolve_right hphase)
      obtain ⟨now'', hrun⟩ := schedule_of_firstDue t.id hshot hbefore
      rw [hrun] at hnext
      cases hnext
    · intro h hd'
      rw [hd'.unique hd]
      refine .inr ⟨⟨now', hruns⟩, ?_⟩
      rw [List.count_eq_zero.mpr halive]
      exact Nat.zero_le 1

theorem OnSchedule.firesOnce (h : s.OnSchedule) (ha : s.added[id]? = some a)
    (hshot : a.interval = 0) : s.FiresOnce id a := by
  rcases h.place ha with hgone | ⟨e, t, ht, rfl, hplace⟩
  · exact hgone.firesOnce
  · have halive : t.id ∉ s.deleted := (h.follows.alive _ t ht).2
    rcases hplace with ⟨-, hw⟩ | ⟨he, hq⟩ | ⟨he, hr⟩
    · exact hw.firesOnce ha hshot halive
    · exact hq.firesOnce ha hshot halive (TimerPhase.not_idle_of_todo he)
    · exact hr.firesOnce ha hshot halive (TimerPhase.not_idle_of_ran he)

end OneShot

theorem OnSchedule.firesRight (h : s.OnSchedule) : s.FiresRight := by
  refine ⟨h.placed, fun id a => h.onePlace, h.ordered.now_of, h.ordered.order,
    ?_, fun id a => h.firesOnce, fun id a => h.firesAgain, fun id => h.unused⟩
  intro hidle id a ha
  rcases h.place_idle hidle ha with ⟨-, -, hs⟩ | ⟨e, t, -, rfl, -, a', ha', -, hs⟩
  · exact (congrArg Schedule.runs hs).symm
  · obtain rfl := Option.some.inj (ha.symm.trans ha')
    exact (congrArg Schedule.runs hs).symm

/-- A timer that repeats has been run by the `handleRead` that is to put it
back. -/
theorem HasRun.last_now {t : Timer} {now : Timestamp} (hr : s.HasRun t) (hrep : 0 < t.interval)
    (hlast : s.nows.getLast? = some now)
    (hover : ¬Int64Range (now.microSecondsSinceEpoch + t.interval)) :
    ∃ a r, s.added[t.id]? = some a ∧ a.interval = t.interval ∧
      (s.runsOf t.id).getLast? = some r ∧ r.now = now := by
  obtain ⟨a, now', ha, hi, hlast', -, hs⟩ := hr
  obtain rfl := Option.some.inj (hlast.symm.trans hlast')
  have hnext := schedule_next t.id s.nows (hi ▸ hrep : 0 < a.interval)
  rw [hs, if_pos hrep] at hnext
  cases hrun : (s.runsOf t.id).getLast? with
  | none =>
      -- What is due for the first time is due at a time of the clock.
      simp only [hrun, Option.some.injEq] at hnext
      rw [hnext] at hover
      exact absurd a.when.range hover
  | some r =>
      simp only [hrun, Option.some.injEq, hi] at hnext
      exact ⟨a, r, ha, hi, rfl, Timestamp.ext (add_right_cancel hnext).symm⟩

/-- An expiration that overflows is not the one that is expected. -/
theorem OnSchedule.wrong (h : s.OnSchedule) (m : Moved s ev s') (hC : ¬s.InRange ev) :
    ¬s'.FiresRight := by
  cases m with
  | @reset now clock ran s₁ hphase _ hsettle =>
      intro hright
      refine hC ?_
      rintro x hx e he t ht hrep
      rw [hphase] at hx
      obtain rfl : (now, ran) = x := Option.some.inj hx
      by_contra hover
      have hran := h.follows.ran e (by rw [hphase]; exact he) t ht
      obtain ⟨hlast, -⟩ := h.ordered.current _ _ _ hphase
      obtain ⟨-, hlog, hadded⟩ := hsettle.frame
      obtain ⟨a, r, ha, hi, hr, hnow⟩ := hran.last_now (of_decide_eq_true hrep) hlast hover
      have ha' : s₁.added[t.id]? = some a := by rw [hadded, ha]
      have hr' : (s₁.runsOf t.id).getLast? = some r := by rw [runsOf, hlog, ← hr, runsOf]
      have hagain := (hright.again t.id a ha' (hi ▸ of_decide_eq_true hrep)).again rfl r hr'
      obtain ⟨p, t', -, -, -, hsum⟩ := hagain
      rw [hnow, hi] at hsum
      exact hover (hsum ▸ t'.expiration.range)
  | _ => exact absurd trivial hC

/-- **Timers fire as they should** in every run in which no next expiration
overflows: no event faults, and the state it leads to is right just when it
does not make an expiration overflow either. -/
theorem timers_fire_right (hs : (system.guarded InRange).Reachable s) :
    s.FiresRight ∧ ∀ ev, s.enabled ev = true →
      ∃ s', s.next ev = .ok s' ∧ (s'.FiresRight ↔ s.InRange ev) := by
  have h := onSchedule_invariant.reachable hs
  refine ⟨h.firesRight, fun ev he => ?_⟩
  obtain ⟨s', hn, m⟩ := next_ok h.placed he
  refine ⟨s', hn, fun hright => ?_, fun hC => (h.move m hC).firesRight⟩
  by_contra hC
  exact h.wrong m hC hright

instance (s : TimerQueue) (a : TimerEvent) :
    Decidable ((system.guarded InRange).enabled s a) :=
  inferInstanceAs (Decidable (_ = true ∧ s.InRange a))

/-- Two timers due at once, the repeating one first; the callback of that one
adds a third. -/
def threeTimers : List TimerEvent :=
  [.addTimer 1 (.ofInt 5) 0 (.ofInt 1), .addTimer 2 (.ofInt 3) 20 (.ofInt 1),
    .handleRead (.ofInt 12), .run, .addTimer 3 (.ofInt 4) 0 (.ofInt 12), .run, .reset (.ofInt 13)]

theorem timers_fire_right_three : ∃ s : TimerQueue,
    s.log = [⟨1, 0, .ofInt 12, 3⟩, ⟨0, 0, .ofInt 12, 5⟩] ∧ s.deleted = [0] ∧
      s.timers.elems = [⟨.ofInt 4, 3⟩, ⟨.ofInt 32, 2⟩] ∧ s.FiresRight := by
  obtain ⟨s, hs, hp⟩ := Lts.exists_reachable_of_exec (L := system.guarded InRange) threeTimers
    (fun s => s.log = [⟨1, 0, .ofInt 12, 3⟩, ⟨0, 0, .ofInt 12, 5⟩] ∧
      s.deleted = [0] ∧ s.timers.elems = [⟨.ofInt 4, 3⟩, ⟨.ofInt 32, 2⟩]) rfl (by decide +kernel)
  obtain ⟨hlog, hdeleted, htimers⟩ := of_decide_eq_true hp
  exact ⟨s, hlog, hdeleted, htimers, (timers_fire_right hs).1⟩

/-- A timer added 0.8 seconds past the epoch, to be run then and again after
292 thousand years: it is put back as many years before the epoch. -/
theorem fired_early : ¬∀ s, system.Reachable s → s.FiresRight := by
  intro h
  obtain ⟨s, hs, hp⟩ := Lts.exists_reachable_of_exec (L := system)
    [.addTimer 1 (.ofInt 800000) 9223372036853999616 (.ofInt 800000),
      .handleRead (.ofInt 800000), .run, .reset (.ofInt 800000)]
    (fun s => s.phase = .idle ∧ s.added = [⟨.ofInt 800000, 9223372036853999616, 0⟩] ∧
      s.log = [⟨0, 0, .ofInt 800000, 800000⟩] ∧
      s.timers.elems = [⟨.ofInt (-9223372036854752000), 1⟩]) rfl (by decide +kernel)
  obtain ⟨hidle, hadded, hlog, htimers⟩ := of_decide_eq_true hp
  have hagain := ((h s hs).again 0 ⟨.ofInt 800000, 9223372036853999616, 0⟩ (by rw [hadded]; rfl)
    (by decide)).again hidle ⟨0, 0, .ofInt 800000, 800000⟩ (by rw [runsOf, hlog]; rfl)
  obtain ⟨p, t, -, -, hmem, hsum⟩ := hagain
  rw [htimers, List.mem_singleton] at hmem
  rw [(TimerEntry.mk.inj hmem).1] at hsum
  exact absurd hsum (by decide)

end TimerQueue

end Muduo
