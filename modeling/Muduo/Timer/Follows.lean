import Muduo.Timer.Placed
import Muduo.Timer.Schedule

/-!
# Each timer does what its schedule says

What the queue knows of a timer is tied to its schedule, one operation at a
time (`Follows`). The schedule a timer is held against depends on where it
is: waiting in `timers_`, taken out and still to be run, run and not yet
settled by `reset`, or deleted. The schedule adds integers and `restart` adds
in `int64_t`; as long as the sum is one (`Fits`) a timer that repeats is put
back where its schedule says.
-/

namespace Muduo

open Lib

namespace TimerQueue

theorem getElem?_snoc_of_some {α : Type*} {l : List α} {x y : α} {i : Nat} (h : l[i]? = some x) :
    (l ++ [y])[i]? = some x := by
  rw [List.getElem?_append_left (List.getElem?_eq_some_iff.mp h).1]
  exact h

theorem getElem?_snoc_cases {α : Type*} {l : List α} {x y : α} {i : Nat}
    (h : (l ++ [y])[i]? = some x) : l[i]? = some x ∨ (i = l.length ∧ x = y) := by
  have hlt := (List.getElem?_eq_some_iff.mp h).1
  rw [List.length_append, List.length_singleton] at hlt
  rcases Nat.lt_succ_iff_lt_or_eq.mp hlt with hlt | rfl
  · rw [List.getElem?_append_left hlt] at h
    exact .inl h
  · rw [List.getElem?_concat_length] at h
    exact .inr ⟨rfl, (Option.some.inj h).symm⟩

/-- The runs of the timer `id`. -/
def runsOf (s : TimerQueue) (id : Nat) : List Firing := s.log.filter fun r => r.id = id

/-- Through all `handleRead`s begun, `t` has done what was expected of it. -/
def Waiting (s : TimerQueue) (t : Timer) : Prop :=
  ∃ a, s.added[t.id]? = some a ∧ a.interval = t.interval ∧
    schedule t.id a s.nows = ⟨some t.expiration.microSecondsSinceEpoch, s.runsOf t.id⟩

/-- Through all but the one in progress. -/
def Queued (s : TimerQueue) (t : Timer) : Prop :=
  ∃ a, s.added[t.id]? = some a ∧ a.interval = t.interval ∧ a.addedAt < s.nows.length ∧
    schedule t.id a s.nows.dropLast =
      ⟨some t.expiration.microSecondsSinceEpoch, s.runsOf t.id⟩

/-- `t` has been run by the one in progress, and its expiration is the one
before. -/
def HasRun (s : TimerQueue) (t : Timer) : Prop :=
  ∃ a now, s.added[t.id]? = some a ∧ a.interval = t.interval ∧ s.nows.getLast? = some now ∧
    (schedule t.id a s.nows.dropLast).next = some t.expiration.microSecondsSinceEpoch ∧
    schedule t.id a s.nows =
      ⟨if 0 < t.interval then some (now.microSecondsSinceEpoch + t.interval) else none,
        s.runsOf t.id⟩

/-- The timer `id` is deleted, and there was nothing more to do. -/
def Gone (s : TimerQueue) (id : Nat) (a : AddedTimer) : Prop :=
  a.interval = 0 ∧ s.deleted.count id = 1 ∧ schedule id a s.nows = ⟨none, s.runsOf id⟩

/-- No timer alive has the number `id`. -/
def Dead (s : TimerQueue) (id : Nat) : Prop := ∀ p t, s.heap p = some t → t.id ≠ id

/-- Every timer does what its schedule says, those of `waiting`, of `queued`
and of `ran` as far as they can be. -/
structure Follows (s : TimerQueue) (waiting queued ran : List TimerEntry) : Prop where
  distinct : ∀ p q t u, s.heap p = some t → s.heap q = some u → t.id = u.id → p = q
  alive : ∀ p t, s.heap p = some t → t.id < s.added.length ∧ t.id ∉ s.deleted
  since : ∀ a ∈ s.added, a.addedAt ≤ s.nows.length
  logged : ∀ r ∈ s.log, r.id < s.added.length
  deleted : ∀ id ∈ s.deleted, id < s.added.length
  waiting : ∀ e ∈ waiting, ∀ t, s.heap e.timer = some t → s.Waiting t
  queued : ∀ e ∈ queued, ∀ t, s.heap e.timer = some t → s.Queued t
  ran : ∀ e ∈ ran, ∀ t, s.heap e.timer = some t → s.HasRun t
  gone : ∀ id a, s.added[id]? = some a → s.Dead id → s.Gone id a

variable {s s' : TimerQueue} {t u : Timer} {now when : Timestamp}
  {waiting queued ran : List TimerEntry} {e : TimerEntry}

theorem Follows.addedAt_le (hf : s.Follows waiting queued ran) {id : Nat} {a : AddedTimer}
    (ha : s.added[id]? = some a) : a.addedAt ≤ s.nows.length :=
  hf.since a (List.mem_of_getElem? ha)

/-- Schedules know nothing of the timerfd. -/
theorem Follows.rearmed (hf : s.Follows waiting queued ran) (fd : Timerfd) (phase : TimerPhase) :
    Follows { s with timerfd := fd, phase := phase } waiting queued ran :=
  ⟨hf.distinct, hf.alive, hf.since, hf.logged, hf.deleted, hf.waiting, hf.queued, hf.ran, hf.gone⟩

theorem Follows.handleRead {rest : OrdSet TimerEntry} {out : List TimerEntry}
    (hf : s.Follows s.timers.elems [] []) (hplaced : Placed s.heap s.timers.elems)
    (hperm : s.timers.elems.Perm (rest.elems ++ out)) (hlater : ∀ e ∈ rest.elems, now < e.when) :
    Follows { s with
      timers := rest, timerfd := s.timerfd.read, nows := s.nows ++ [now]
      phase := .running now [] out } rest.elems out [] where
  distinct := hf.distinct
  alive := hf.alive
  since a ha := by
    rw [List.length_append]
    exact Nat.le_add_right_of_le (hf.since a ha)
  logged := hf.logged
  deleted := hf.deleted
  waiting e he t ht := by
    have hmem : e ∈ s.timers.elems := hperm.mem_iff.mpr (List.mem_append_left _ he)
    obtain ⟨a, ha, hi, hs⟩ := hf.waiting e hmem t ht
    refine ⟨a, ha, hi, ?_⟩
    have hlt : now < t.expiration := by
      rw [hplaced.key e hmem t ht]
      exact hlater e he
    rw [schedule_snoc (hf.addedAt_le ha), hs, Schedule.handle_early rfl hlt]
    rfl
  queued e he t ht := by
    obtain ⟨a, ha, hi, hs⟩ :=
      hf.waiting e (hperm.mem_iff.mpr (List.mem_append_right _ he)) t ht
    refine ⟨a, ha, hi, ?_, ?_⟩
    · rw [List.length_append]
      exact Nat.lt_succ_of_le (hf.addedAt_le ha)
    · rw [List.dropLast_concat, hs]
      rfl
  ran e he := by cases he
  gone id a ha hdead := by
    obtain ⟨hi, hcount, hs⟩ := hf.gone id a ha hdead
    refine ⟨hi, hcount, ?_⟩
    rw [schedule_snoc (hf.addedAt_le ha), hs, Schedule.handle_none rfl]
    rfl

theorem Follows.runsOf_new (hf : s.Follows waiting queued ran) : s.runsOf s.added.length = [] := by
  rw [runsOf, List.filter_eq_nil_iff]
  intro r hr
  simpa using (hf.logged r hr).ne

theorem allocate_heap {p q interval : Nat} :
    (s.allocate p when interval).heap q =
      if q = p then some ⟨when, interval, s.added.length⟩ else s.heap q := rfl

/-- A timer just allocated waits, and the others are where they were. -/
theorem Follows.addTimer {p interval : Nat} {timers' : OrdSet TimerEntry} {fd : Timerfd}
    (hf : s.Follows s.timers.elems queued ran)
    (hplaced : Placed s.heap (s.timers.elems ++ (ran ++ queued))) (hfresh : s.heap p = none)
    (hperm : timers'.elems.Perm (⟨when, p⟩ :: s.timers.elems)) :
    Follows { s.allocate p when interval with timers := timers', timerfd := fd }
      timers'.elems queued ran := by
  have hnot := hplaced.not_mem hfresh
  have hold : ∀ e ∈ s.timers.elems ++ (ran ++ queued), ∀ t,
      (s.allocate p when interval).heap e.timer = some t → s.heap e.timer = some t := by
    intro e he t ht
    have hne : e.timer ≠ p := fun heq => hnot (heq ▸ List.mem_map_of_mem he)
    rwa [allocate_heap, if_neg hne] at ht
  have hcases : ∀ q t, (s.allocate p when interval).heap q = some t →
      (q = p ∧ t = ⟨when, interval, s.added.length⟩) ∨ s.heap q = some t := by
    intro q t ht
    rw [allocate_heap] at ht
    split at ht
    · exact .inl ⟨‹_›, (Option.some.inj ht).symm⟩
    · exact .inr ht
  have hlt : s.added.length < (s.allocate p when interval).added.length := by
    simp [allocate]
  refine
    { distinct := ?_, alive := ?_, since := ?_, logged := ?_, deleted := ?_, waiting := ?_,
      queued := ?_, ran := ?_, gone := ?_ }
  · intro q q' t u ht hu hid
    rcases hcases q t ht with ⟨hq, rfl⟩ | ht
    · rcases hcases q' u hu with ⟨hq', -⟩ | hu
      · rw [hq, hq']
      · exact absurd hid (hf.alive q' u hu).1.ne'
    · rcases hcases q' u hu with ⟨-, rfl⟩ | hu
      · exact absurd hid (hf.alive q t ht).1.ne
      · exact hf.distinct q q' t u ht hu hid
  · intro q t ht
    rcases hcases q t ht with ⟨-, rfl⟩ | ht
    · exact ⟨hlt, fun hid => absurd (hf.deleted _ hid) (lt_irrefl _)⟩
    · exact ⟨(hf.alive q t ht).1.trans hlt, (hf.alive q t ht).2⟩
  · intro a ha
    rcases List.mem_append.mp ha with ha | ha
    · exact hf.since a ha
    · exact (congrArg AddedTimer.addedAt (List.mem_singleton.mp ha)).le
  · intro r hr
    exact (hf.logged r hr).trans hlt
  · intro id hid
    exact (hf.deleted id hid).trans hlt
  · intro e he t ht
    rcases List.mem_cons.mp (hperm.mem_iff.mp he) with rfl | he
    · rw [allocate_heap, if_pos rfl] at ht
      obtain rfl := Option.some.inj ht
      refine ⟨⟨when, interval, s.nows.length⟩, List.getElem?_concat_length, rfl, ?_⟩
      exact (schedule_new le_rfl).trans (congrArg _ hf.runsOf_new.symm)
    · obtain ⟨a, ha, hs⟩ := hf.waiting e he t (hold e (List.mem_append_left _ he) t ht)
      exact ⟨a, getElem?_snoc_of_some ha, hs⟩
  · intro e he t ht
    have hmem := List.mem_append_right s.timers.elems (List.mem_append_right ran he)
    obtain ⟨a, ha, hs⟩ := hf.queued e he t (hold e hmem t ht)
    exact ⟨a, getElem?_snoc_of_some ha, hs⟩
  · intro e he t ht
    have hmem := List.mem_append_right s.timers.elems (List.mem_append_left queued he)
    obtain ⟨a, now, ha, hs⟩ := hf.ran e he t (hold e hmem t ht)
    exact ⟨a, now, getElem?_snoc_of_some ha, hs⟩
  · intro id a ha hdead
    rcases getElem?_snoc_cases ha with ha | ⟨rfl, -⟩
    · refine hf.gone id a ha fun q t ht => hdead q t ?_
      have hne : q ≠ p := by
        rintro rfl
        rw [hfresh] at ht
        cases ht
      exact (if_neg hne).trans ht
    · exact absurd rfl (hdead p _ (if_pos rfl))

theorem Placed.ne_timer {heap : Nat → Option Timer} {l l' : List TimerEntry} {f : TimerEntry}
    (h : Placed heap (l ++ e :: l')) (hf : f ∈ l ++ l') : f.timer ≠ e.timer := by
  have hnd := (h.perm List.perm_middle).nodup
  rw [List.map_cons, List.nodup_cons] at hnd
  exact fun heq => hnd.1 (heq ▸ List.mem_map_of_mem hf)

theorem runsOf_record {r : Firing} {phase : TimerPhase} :
    runsOf { s with log := s.log ++ [r], phase := phase } r.id = s.runsOf r.id ++ [r] := by
  simp [runsOf]

theorem runsOf_record_ne {r : Firing} {phase : TimerPhase} {id : Nat} (hne : id ≠ r.id) :
    runsOf { s with log := s.log ++ [r], phase := phase } id = s.runsOf id := by
  simp [runsOf, hne.symm]

/-- A callback is run that was to be run, and only its timer has done more. -/
theorem Follows.run {todo : List TimerEntry} (hf : s.Follows s.timers.elems (e :: todo) ran)
    (hplaced : Placed s.heap (s.timers.elems ++ (ran ++ e :: todo)))
    (ht : s.heap e.timer = some t) (hlast : s.nows.getLast? = some now) (hdue : e.when ≤ now) :
    Follows { s with
      log := s.log ++ [⟨t.id, s.nows.length - 1, now, t.expiration.microSecondsSinceEpoch⟩]
      phase := .running now (ran ++ [e]) todo } s.timers.elems todo (ran ++ [e]) := by
  rw [← List.append_assoc] at hplaced
  have hother : ∀ f ∈ s.timers.elems ++ ran ++ todo, ∀ u, s.heap f.timer = some u →
      u.id ≠ t.id := fun f hmem u hu hid =>
    hplaced.ne_timer hmem (hf.distinct _ _ _ _ hu ht hid)
  refine
    { distinct := hf.distinct, alive := hf.alive, since := hf.since, logged := ?_
      deleted := hf.deleted, waiting := ?_, queued := ?_, ran := ?_, gone := ?_ }
  · intro r hr
    rcases List.mem_append.mp hr with hr | hr
    · exact hf.logged r hr
    · rw [List.mem_singleton.mp hr]
      exact (hf.alive _ t ht).1
  · intro f hmem u hu
    have hne := hother f (by simp [hmem]) u hu
    obtain ⟨a, ha, hi, hs⟩ := hf.waiting f hmem u hu
    refine ⟨a, ha, hi, ?_⟩
    rwa [runsOf_record_ne hne]
  · intro f hmem u hu
    have hne := hother f (by simp [hmem]) u hu
    obtain ⟨a, ha, hi, hlt, hs⟩ := hf.queued f (List.mem_cons_of_mem _ hmem) u hu
    refine ⟨a, ha, hi, hlt, ?_⟩
    rwa [runsOf_record_ne hne]
  · intro f hmem u hu
    rcases List.mem_append.mp hmem with hmem | hmem
    · have hne := hother f (by simp [hmem]) u hu
      obtain ⟨a, now', ha, hi, hl, hnext, hs⟩ := hf.ran f hmem u hu
      refine ⟨a, now', ha, hi, hl, hnext, ?_⟩
      rwa [runsOf_record_ne hne]
    · obtain rfl := List.mem_singleton.mp hmem
      obtain rfl := Option.some.inj (ht.symm.trans hu)
      obtain ⟨a, ha, hi, hlt, hs⟩ := hf.queued f (List.mem_cons_self ..) t ht
      refine ⟨a, now, ha, hi, hlast, congrArg Schedule.next hs, ?_⟩
      have hexp : t.expiration ≤ now := by
        rw [hplaced.key f (by simp) t ht]
        exact hdue
      have hnows : s.nows.dropLast ++ [now] = s.nows := List.dropLast_append_getLast? now hlast
      have hbefore : a.addedAt ≤ s.nows.dropLast.length := by
        rw [List.length_dropLast]
        exact Nat.le_sub_one_of_lt hlt
      have hstep : schedule t.id a (s.nows.dropLast ++ [now]) = _ := schedule_snoc hbefore
      rw [hnows, hs, Schedule.handle_due rfl hexp, hi, List.length_dropLast] at hstep
      rw [runsOf_record]
      exact hstep
  · intro id a ha hdead
    have hne : id ≠ t.id := (hdead _ t ht).symm
    obtain ⟨hi, hcount, hs⟩ := hf.gone id a ha hdead
    refine ⟨hi, hcount, ?_⟩
    rwa [runsOf_record_ne hne]

theorem store_heap {p q : Nat} {o : Option Timer} :
    (s.store p o).heap q = if q = p then o else s.heap q := rfl

/-- The next expirations of the timers of `l` that repeat do not overflow. -/
def Fits (s : TimerQueue) (now : Timestamp) (l : List TimerEntry) : Prop :=
  ∀ e ∈ l, ∀ t ∈ s.heap e.timer, t.repeats = true →
    Int64Range (now.microSecondsSinceEpoch + t.interval)

instance (s : TimerQueue) (now : Timestamp) (l : List TimerEntry) : Decidable (s.Fits now l) :=
  inferInstanceAs (Decidable (∀ e ∈ l, ∀ t ∈ s.heap e.timer, _ → _))

/-- The other timers are not touched by an iteration of the loop in `reset`. -/
theorem Fits.tail {l : List TimerEntry} (h : s.Fits now (e :: l)) (m : SettleOne now s e s')
    (hplaced : Placed s.heap (s.timers.elems ++ e :: l)) : s'.Fits now l := by
  intro f hf u hu
  have hne := hplaced.ne_timer (List.mem_append_right s.timers.elems hf)
  refine h f (List.mem_cons_of_mem e hf) u ?_
  cases m with
  | again _ _ _ => exact (if_neg hne).symm.trans hu
  | gone _ _ => exact (if_neg hne).symm.trans hu

/-- A repeating timer that has been run waits again. -/
theorem Follows.again {l : List TimerEntry} {timers' : OrdSet TimerEntry}
    (hf : s.Follows s.timers.elems [] (e :: l))
    (hplaced : Placed s.heap (s.timers.elems ++ e :: l)) (hlast : s.nows.getLast? = some now)
    (ht : s.heap e.timer = some t) (hrep : 0 < t.interval)
    (hfits : Int64Range (now.microSecondsSinceEpoch + t.interval))
    (hperm : timers'.elems.Perm (⟨addTime now t.interval, e.timer⟩ :: s.timers.elems)) :
    Follows { s.store e.timer (some { t with expiration := addTime now t.interval }) with
      timers := timers' } timers'.elems [] l := by
  have hcases : ∀ q u, (s.store e.timer (some { t with
      expiration := addTime now t.interval })).heap q = some u →
      ∃ v, s.heap q = some v ∧ v.id = u.id := by
    intro q u hu
    rw [store_heap] at hu
    split at hu
    · obtain rfl := Option.some.inj hu
      exact ⟨t, ‹q = e.timer› ▸ ht, rfl⟩
    · exact ⟨u, hu, rfl⟩
  have hold : ∀ f ∈ s.timers.elems ++ l, ∀ u, (s.store e.timer (some { t with
      expiration := addTime now t.interval })).heap f.timer = some u →
      s.heap f.timer = some u := by
    intro f hmem u hu
    rwa [store_heap, if_neg (hplaced.ne_timer hmem)] at hu
  refine
    { distinct := ?_, alive := ?_, since := hf.since, logged := hf.logged, deleted := hf.deleted
      waiting := ?_, queued := fun f hmem => absurd hmem List.not_mem_nil, ran := ?_
      gone := fun id a ha hdead => hf.gone id a ha ?_ }
  · intro q q' u u' hu hu' hid
    obtain ⟨v, hv, hvid⟩ := hcases q u hu
    obtain ⟨v', hv', hvid'⟩ := hcases q' u' hu'
    exact hf.distinct q q' v v' hv hv' (hvid.trans (hid.trans hvid'.symm))
  · intro q u hu
    obtain ⟨v, hv, hvid⟩ := hcases q u hu
    exact hvid ▸ hf.alive q v hv
  · intro f hmem u hu
    rcases List.mem_cons.mp (hperm.mem_iff.mp hmem) with rfl | hmem
    · rw [store_heap, if_pos rfl] at hu
      obtain rfl := Option.some.inj hu
      obtain ⟨a, now', ha, hi, hlast', -, hs⟩ := hf.ran e (List.mem_cons_self ..) t ht
      obtain rfl := Option.some.inj (hlast.symm.trans hlast')
      have hsum : (addTime now t.interval).microSecondsSinceEpoch =
          now.microSecondsSinceEpoch + t.interval := Timestamp.ofInt_micro hfits
      rw [if_pos hrep, ← hsum] at hs
      exact ⟨a, ha, hi, hs⟩
    · exact hf.waiting f hmem u (hold f (List.mem_append_left _ hmem) u hu)
  · intro f hmem u hu
    exact hf.ran f (List.mem_cons_of_mem _ hmem) u (hold f (List.mem_append_right _ hmem) u hu)
  · intro q u hu hid
    by_cases hq : q = e.timer
    · subst hq
      obtain rfl := Option.some.inj (ht.symm.trans hu)
      exact hdead e.timer _ (if_pos rfl) hid
    · exact hdead q u ((if_neg hq).trans hu) hid

/-- A one-shot timer that has been run is deleted, and nothing more was
expected of it. -/
theorem Follows.delete {l : List TimerEntry} (hf : s.Follows s.timers.elems [] (e :: l))
    (ht : s.heap e.timer = some t) (hshot : ¬0 < t.interval) :
    Follows { s.store e.timer none with deleted := s.deleted ++ [t.id] }
      s.timers.elems [] l := by
  have hcases : ∀ q u, (s.store e.timer none).heap q = some u →
      q ≠ e.timer ∧ s.heap q = some u := by
    intro q u hu
    rw [store_heap] at hu
    split at hu
    · cases hu
    · exact ⟨‹_›, hu⟩
  have hcount : ∀ id, (s.deleted ++ [t.id]).count id = s.deleted.count id + [t.id].count id :=
    fun id => List.count_append ..
  refine
    { distinct := ?_, alive := ?_, since := hf.since, logged := hf.logged, deleted := ?_
      waiting := fun f hmem u hu => hf.waiting f hmem u (hcases _ u hu).2
      queued := fun f hmem => absurd hmem List.not_mem_nil
      ran := fun f hmem u hu => hf.ran f (List.mem_cons_of_mem _ hmem) u (hcases _ u hu).2
      gone := ?_ }
  · intro q q' u u' hu hu' hid
    exact hf.distinct q q' u u' (hcases q u hu).2 (hcases q' u' hu').2 hid
  · intro q u hu
    obtain ⟨hne, hu⟩ := hcases q u hu
    refine ⟨(hf.alive q u hu).1, fun hmem => ?_⟩
    rcases List.mem_append.mp hmem with hmem | hmem
    · exact (hf.alive q u hu).2 hmem
    · exact hne (hf.distinct q _ u t hu ht (List.mem_singleton.mp hmem))
  · intro id hid
    rcases List.mem_append.mp hid with hid | hid
    · exact hf.deleted id hid
    · exact List.mem_singleton.mp hid ▸ (hf.alive _ t ht).1
  · intro id a ha hdead
    by_cases hid : id = t.id
    · subst hid
      obtain ⟨a', now', ha', hi, -, -, hs⟩ := hf.ran e (List.mem_cons_self ..) t ht
      obtain rfl := Option.some.inj (ha.symm.trans ha')
      rw [if_neg hshot] at hs
      refine ⟨hi.trans (Nat.eq_zero_of_not_pos hshot), ?_, hs⟩
      rw [hcount, List.count_eq_zero.mpr (hf.alive _ t ht).2, List.count_singleton_self]
    · have hdead' : s.Dead id := by
        intro q u hu heq
        by_cases hq : q = e.timer
        · subst hq
          obtain rfl := Option.some.inj (ht.symm.trans hu)
          exact hid heq.symm
        · exact hdead q u ((if_neg hq).trans hu) heq
      obtain ⟨hi, hone, hs⟩ := hf.gone id a ha hdead'
      refine ⟨hi, ?_, hs⟩
      rw [hcount, hone, List.count_eq_zero.mpr (by simpa using hid)]

/-- The loop in `reset`, once all callbacks have been run. -/
theorem Follows.settle {l : List TimerEntry} (m : Settle now s l s') :
    s.Follows s.timers.elems [] l → Placed s.heap (s.timers.elems ++ l) → s.Fits now l →
      s.nows.getLast? = some now → s'.Follows s'.timers.elems [] [] := by
  induction m with
  | nil s => exact fun hf _ _ _ => hf
  | @cons s s₁ s' e l hone hrest ih =>
      intro hf hplaced hfits hlast
      have hplaced₁ := hone.placed hplaced
      have hfits₁ := hfits.tail hone hplaced
      cases hone with
      | again ht hrep hperm =>
          have hone := hfits e List.mem_cons_self _ ht hrep
          exact ih (hf.again hplaced hlast ht (of_decide_eq_true hrep) hone hperm) hplaced₁ hfits₁
            hlast
      | gone ht hrep => exact ih (hf.delete ht (of_decide_eq_false hrep)) hplaced₁ hfits₁ hlast

end TimerQueue

end Muduo
