import Muduo.Timer.TimerQueue

/-!
# Every timer is in one place

The entries in `timers_` and those a `handleRead` has taken out are, between
them, one entry for each timer alive, and its key is the timer's expiration
(`Placed`). With that no event faults: `next_ok` shows the result of each, in
the terms the proofs about firing and re-arming use (`Moved`).
-/

namespace Muduo

open Lib

/-- The entries a `handleRead` in progress has taken out of `timers_`. -/
def TimerPhase.expired : TimerPhase → List TimerEntry
  | idle => []
  | running _ ran todo => ran ++ todo

namespace TimerQueue

/-- The entries `l` and the timers on the heap are one to one. -/
structure Placed (heap : Nat → Option Timer) (l : List TimerEntry) : Prop where
  nodup : (l.map TimerEntry.timer).Nodup
  alive : ∀ p, (∃ t, heap p = some t) ↔ p ∈ l.map TimerEntry.timer
  key : ∀ e ∈ l, ∀ t, heap e.timer = some t → t.expiration = e.when
  bound : ∀ e ∈ l, e.timer < uintptrMax

variable {heap : Nat → Option Timer} {l l' : List TimerEntry} {e : TimerEntry} {t : Timer}

theorem Placed.perm (h : Placed heap l) (hp : l.Perm l') : Placed heap l' where
  nodup := (hp.map _).nodup_iff.mp h.nodup
  alive p := by rw [h.alive p, (hp.map _).mem_iff]
  key e he := h.key e (hp.mem_iff.mpr he)
  bound e he := h.bound e (hp.mem_iff.mpr he)

/-- An entry leads to a timer. -/
theorem Placed.deref (h : Placed heap l) (he : e ∈ l) :
    ∃ t, heap e.timer = some t ∧ t.expiration = e.when := by
  obtain ⟨t, ht⟩ := (h.alive e.timer).mpr (List.mem_map_of_mem he)
  exact ⟨t, ht, h.key e he t ht⟩

theorem Placed.not_mem (h : Placed heap l) {p : Nat} (hp : heap p = none) :
    p ∉ l.map TimerEntry.timer := by
  intro hmem
  obtain ⟨t, ht⟩ := (h.alive p).mpr hmem
  rw [hp] at ht
  cases ht

/-- A timer dies with its entry. -/
theorem Placed.remove (h : Placed heap (e :: l)) :
    Placed (fun p => if p = e.timer then none else heap p) l := by
  have hnd := h.nodup
  rw [List.map_cons, List.nodup_cons] at hnd
  have hne : ∀ f ∈ l, f.timer ≠ e.timer := fun f hf heq =>
    hnd.1 (heq ▸ List.mem_map_of_mem hf)
  refine ⟨hnd.2, ?_, ?_, fun f hf => h.bound f (List.mem_cons_of_mem _ hf)⟩
  · intro p
    by_cases hp : p = e.timer
    · subst hp
      simp [hnd.1]
    · rw [if_neg hp, h.alive p, List.map_cons, List.mem_cons, or_iff_right hp]
  · intro f hf t ht
    rw [if_neg (hne f hf)] at ht
    exact h.key f (List.mem_cons_of_mem _ hf) t ht

/-- A timer comes to life with an entry. -/
theorem Placed.add (h : Placed heap l) {p : Nat} (hp : heap p = none) (hbound : p < uintptrMax)
    (t : Timer) :
    Placed (fun q => if q = p then some t else heap q) (⟨t.expiration, p⟩ :: l) := by
  have hmem := h.not_mem hp
  refine ⟨?_, ?_, ?_, ?_⟩
  · rw [List.map_cons, List.nodup_cons]
    exact ⟨hmem, h.nodup⟩
  · intro q
    by_cases hq : q = p
    · subst hq
      simp
    · rw [if_neg hq, h.alive q, List.map_cons, List.mem_cons, or_iff_right hq]
  · intro f hf u hu
    rcases List.mem_cons.mp hf with rfl | hf
    · rw [if_pos rfl] at hu
      cases hu
      rfl
    · have hne : f.timer ≠ p := fun heq => hmem (heq ▸ List.mem_map_of_mem hf)
      rw [if_neg hne] at hu
      exact h.key f hf u hu
  · intro f hf
    rcases List.mem_cons.mp hf with rfl | hf
    · exact hbound
    · exact h.bound f hf

/-- A timer changes its expiration with the key of its entry. -/
theorem Placed.rekey (h : Placed heap (e :: l)) (t : Timer) :
    Placed (fun q => if q = e.timer then some t else heap q)
      (⟨t.expiration, e.timer⟩ :: l) := by
  have hadd := h.remove.add (p := e.timer) (if_pos rfl) (h.bound e (List.mem_cons_self ..)) t
  have heq : (fun q => if q = e.timer then some t else if q = e.timer then none else heap q) =
      fun q => if q = e.timer then some t else heap q := by
    funext q
    by_cases hq : q = e.timer
    · rw [if_pos hq, if_pos hq]
    · rw [if_neg hq, if_neg hq, if_neg hq]
  rwa [heq] at hadd

/-! ## The operations do not fault -/

variable {s s' : TimerQueue} {now : Timestamp}

theorem deref_ok {p : Nat} (h : s.heap p = some t) : s.deref p = .ok t := by
  rw [TimerQueue.deref, h]

/-- `insert` on a timer that has no entry in the set. -/
theorem insert_ok {p : Nat} (ht : s.heap p = some t)
    (hp : p ∉ s.timers.elems.map TimerEntry.timer) :
    ∃ timers', s.insert p = .ok (s.earliestChanged t.expiration, { s with timers := timers' }) ∧
      timers'.elems.Perm (⟨t.expiration, p⟩ :: s.timers.elems) := by
  have hfresh : ⟨t.expiration, p⟩ ∉ s.timers.elems := fun hmem => hp (List.mem_map_of_mem hmem)
  refine ⟨(s.timers.insert ⟨t.expiration, p⟩).1, ?_, OrdSet.insert_perm hfresh⟩
  simp only [insert, deref_ok ht, ok_bind, check_of (OrdSet.insert_fresh hfresh).1]
  rfl

/-- One iteration of the loop in `reset`: a repeating timer goes back under a
new key, another one is deleted. -/
inductive SettleOne (now : Timestamp) (s : TimerQueue) (e : TimerEntry) : TimerQueue → Prop
  | again {t : Timer} {timers' : OrdSet TimerEntry} (alive : s.heap e.timer = some t)
      (repeats : t.repeats = true)
      (perm : timers'.elems.Perm (⟨addTime now t.interval, e.timer⟩ :: s.timers.elems)) :
      SettleOne now s e
        { s.store e.timer (some { t with expiration := addTime now t.interval }) with
          timers := timers' }
  | gone {t : Timer} (alive : s.heap e.timer = some t) (repeats : t.repeats = false) :
      SettleOne now s e { s.store e.timer none with deleted := s.deleted ++ [t.id] }

/-- The loop in `reset`. -/
inductive Settle (now : Timestamp) : TimerQueue → List TimerEntry → TimerQueue → Prop
  | nil (s : TimerQueue) : Settle now s [] s
  | cons {s s₁ s' : TimerQueue} {e : TimerEntry} {l : List TimerEntry} :
      SettleOne now s e s₁ → Settle now s₁ l s' → Settle now s (e :: l) s'

theorem SettleOne.placed (h : Placed s.heap (s.timers.elems ++ e :: l))
    (m : SettleOne now s e s') : Placed s'.heap (s'.timers.elems ++ l) := by
  have hmid := h.perm List.perm_middle
  cases m with
  | @again t timers' _ _ hperm =>
      refine (hmid.rekey { t with expiration := addTime now t.interval }).perm ?_
      exact (hperm.symm.append_right l)
  | gone _ _ => exact hmid.remove

theorem resetOne_ok (h : Placed s.heap (s.timers.elems ++ e :: l)) (now : Timestamp) :
    ∃ s', s.resetOne now e = .ok s' ∧ SettleOne now s e s' := by
  have hmid := h.perm List.perm_middle
  obtain ⟨t, ht, -⟩ := hmid.deref (List.mem_cons_self ..)
  cases hr : t.repeats with
  | true =>
      have hrestart : t.restart now = { t with expiration := addTime now t.interval } := by
        rw [Timer.restart, if_pos hr]
      have hnot : e.timer ∉ s.timers.elems.map TimerEntry.timer := by
        intro hmem
        have hnd := hmid.nodup
        rw [List.map_cons, List.nodup_cons, List.map_append] at hnd
        exact hnd.1 (List.mem_append_left _ hmem)
      obtain ⟨timers', hins, hperm⟩ :=
        insert_ok (s := s.store e.timer (some (t.restart now))) (p := e.timer) (if_pos rfl) hnot
      rw [hrestart] at hins hperm
      refine ⟨_, ?_, .again ht hr hperm⟩
      simp only [resetOne, deref_ok ht, ok_bind, hr, if_true, hrestart, hins]
      rfl
  | false =>
      refine ⟨_, ?_, .gone ht hr⟩
      simp only [resetOne, deref_ok ht, ok_bind, hr, Bool.false_eq_true, if_false, delete, ht]

theorem Settle.placed (m : Settle now s l s') : Placed s.heap (s.timers.elems ++ l) →
    Placed s'.heap s'.timers.elems := by
  induction m with
  | nil s =>
      intro h
      rwa [List.append_nil] at h
  | cons hone _ ih => exact fun h => ih (hone.placed h)

theorem settle_ok (now : Timestamp) (l : List TimerEntry) :
    ∀ {s : TimerQueue}, Placed s.heap (s.timers.elems ++ l) →
      ∃ s', l.foldlM (fun s e => s.resetOne now e) s = .ok s' ∧ Settle now s l s' := by
  induction l with
  | nil => exact fun {s} _ => ⟨s, rfl, .nil s⟩
  | cons e l ih =>
      intro s h
      obtain ⟨s₁, hone, hsettle⟩ := resetOne_ok h now
      obtain ⟨s', hfold, hrest⟩ := ih (hsettle.placed h)
      refine ⟨s', ?_, .cons hsettle hrest⟩
      rw [List.foldlM_cons, hone]
      exact hfold

/-- The timerfd after `addTimerInLoop`. -/
def fdAfterAdd (s : TimerQueue) (when now : Timestamp) : Timerfd :=
  if s.earliestChanged when then s.timerfd.settime now (howMuchTimeFromNow when now)
  else s.timerfd

/-- The timerfd at the end of `reset`. -/
def fdAfterReset (s : TimerQueue) (clock : Timestamp) : Timerfd :=
  match s.timers.begin? with
  | none => s.timerfd
  | some e =>
      if e.when.valid then s.timerfd.settime clock (howMuchTimeFromNow e.when clock)
      else s.timerfd

/-- The transitions, with what each needs and what it is known to do. -/
inductive Moved (s : TimerQueue) : TimerEvent → TimerQueue → Prop
  | addTimer {timer : Nat} {when now : Timestamp} {interval : Nat}
      {timers' : OrdSet TimerEntry} (may : s.mayAdd = true) (fresh : s.heap timer = none)
      (bound : timer < uintptrMax) (clock : now.valid = true)
      (perm : timers'.elems.Perm (⟨when, timer⟩ :: s.timers.elems)) :
      Moved s (.addTimer timer when interval now)
        { s.allocate timer when interval with
          timers := timers', timerfd := s.fdAfterAdd when now }
  | handleRead {now : Timestamp} {rest : OrdSet TimerEntry} {out : List TimerEntry}
      (idle : s.phase = .idle) (clock : now.valid = true)
      (perm : s.timers.elems.Perm (rest.elems ++ out)) (sorted : out.Pairwise (· < ·))
      (due : ∀ e ∈ out, e.when ≤ now) (later : ∀ e ∈ rest.elems, now < e.when) :
      Moved s (.handleRead now)
        { s with
          timers := rest, timerfd := s.timerfd.read, nows := s.nows ++ [now]
          phase := .running now [] out }
  | run {now : Timestamp} {ran todo : List TimerEntry} {e : TimerEntry} {t : Timer}
      (phase : s.phase = .running now ran (e :: todo)) (alive : s.heap e.timer = some t) :
      Moved s .run
        { s with
          log := s.log ++ [⟨t.id, s.nows.length - 1, now, t.expiration.microSecondsSinceEpoch⟩]
          phase := .running now (ran ++ [e]) todo }
  | reset {now clock : Timestamp} {ran : List TimerEntry} {s₁ : TimerQueue}
      (phase : s.phase = .running now ran []) (clock_valid : clock.valid = true)
      (settle : Settle now s ran s₁) :
      Moved s (.reset clock) { s₁ with timerfd := s₁.fdAfterReset clock, phase := .idle }
  | expire : Moved s .expire { s with timerfd := s.timerfd.expire }

theorem nextExpire_ok (h : Placed s.heap s.timers.elems) :
    s.nextExpire = .ok (match s.timers.begin? with
      | none => .invalid
      | some e => e.when) := by
  unfold nextExpire
  cases hb : s.timers.begin? with
  | none => rfl
  | some e =>
      obtain ⟨t, ht, hkey⟩ := h.deref (OrdSet.begin_mem hb)
      simp only [deref_ok ht, ok_bind]
      exact congrArg Except.ok hkey

theorem addTimerInLoop_ok {timer : Nat} {when : Timestamp} (interval : Nat) (now : Timestamp)
    (hplaced : Placed s.heap (s.timers.elems ++ l)) (hfresh : s.heap timer = none) :
    ∃ timers', (s.allocate timer when interval).addTimerInLoop timer now =
        .ok { s.allocate timer when interval with
          timers := timers', timerfd := s.fdAfterAdd when now } ∧
      timers'.elems.Perm (⟨when, timer⟩ :: s.timers.elems) := by
  have ht : (s.allocate timer when interval).heap timer =
      some ⟨when, interval, s.added.length⟩ := if_pos rfl
  have hnot : timer ∉ s.timers.elems.map TimerEntry.timer := by
    intro hmem
    have hall := hplaced.not_mem hfresh
    rw [List.map_append] at hall
    exact hall (List.mem_append_left _ hmem)
  obtain ⟨timers', hins, hperm⟩ := insert_ok ht hnot
  refine ⟨timers', ?_, hperm⟩
  have ht' : { s.allocate timer when interval with timers := timers' }.heap timer =
      some ⟨when, interval, s.added.length⟩ := ht
  have hearliest : (s.allocate timer when interval).earliestChanged when =
      s.earliestChanged when := rfl
  simp only [addTimerInLoop, hins, ok_bind, hearliest, deref_ok ht', fdAfterAdd]
  split <;> rfl

/-- What `getExpired` takes out is due, what it leaves is not. -/
theorem getExpired_ok (hbound : ∀ e ∈ s.timers.elems, e.timer < uintptrMax) (now : Timestamp) :
    ∃ rest out, s.getExpired now = .ok (out, { s with timers := rest }) ∧
      s.timers.elems.Perm (rest.elems ++ out) ∧ out.Pairwise (· < ·) ∧
      (∀ e ∈ out, e.when ≤ now) ∧ ∀ e ∈ rest.elems, now < e.when := by
  have hlater : ∀ e ∈ (s.timers.eraseBelow ⟨now, uintptrMax⟩).elems, now < e.when := by
    intro e he
    have hmem : e ∈ s.timers.elems := by
      rw [← s.timers.below_append_notBelow ⟨now, uintptrMax⟩]
      exact List.mem_append_right _ he
    have hle : (⟨now, uintptrMax⟩ : TimerEntry) ≤ e := OrdSet.le_of_mem_notBelow he
    rcases lt_or_eq_of_le hle with hlt | heq
    · rcases TimerEntry.lt_iff.mp hlt with hlt | ⟨-, hptr⟩
      · exact hlt
      · exact absurd hptr (Nat.not_lt.mpr (Nat.le_of_lt (hbound e hmem)))
    · -- the sentinel is no entry
      have hptr := hbound e hmem
      rw [← heq] at hptr
      exact absurd hptr (Nat.lt_irrefl _)
  refine ⟨s.timers.eraseBelow ⟨now, uintptrMax⟩, s.timers.below ⟨now, uintptrMax⟩, ?_, ?_, ?_, ?_,
    hlater⟩
  · have hassert : ∀ e, (s.timers.eraseBelow ⟨now, uintptrMax⟩).begin? = some e → now < e.when :=
      fun e he => hlater e (OrdSet.begin_mem he)
    simp only [getExpired, check_of hassert, ok_bind]
    rfl
  · rw [← s.timers.below_append_notBelow ⟨now, uintptrMax⟩]
    exact List.perm_append_comm
  · exact s.timers.sorted.sublist (List.takeWhile_sublist _)
  · intro e he
    rcases TimerEntry.lt_iff.mp (OrdSet.lt_of_mem_below he) with hlt | ⟨heq, -⟩
    · exact le_of_lt hlt
    · exact le_of_eq heq

/-! ## All an event can do -/

variable {a : TimerEvent}

/-- The entries in `timers_` and those taken out are one to one with the
timers alive. -/
def WellPlaced (s : TimerQueue) : Prop := Placed s.heap (s.timers.elems ++ s.phase.expired)

theorem wellPlaced_new : WellPlaced new := by
  have hnone : new.timers.elems ++ new.phase.expired = [] := rfl
  rw [WellPlaced, hnone]
  refine ⟨.nil, ?_, ?_, ?_⟩
  · intro p
    simp [new]
  · intro e he
    cases he
  · intro e he
    cases he

theorem Moved.wellPlaced (h : s.WellPlaced) (m : Moved s a s') : s'.WellPlaced := by
  cases m with
  | @addTimer timer when now interval timers' _ hfresh hbound _ hperm =>
      refine (h.add hfresh hbound ⟨when, interval, s.added.length⟩).perm ?_
      exact (hperm.symm.append_right _)
  | handleRead hidle _ hperm _ _ _ =>
      rw [WellPlaced, hidle, TimerPhase.expired, List.append_nil] at h
      exact h.perm hperm
  | run hphase _ =>
      rw [WellPlaced, hphase] at h
      refine h.perm (List.Perm.of_eq ?_)
      simp [TimerPhase.expired]
  | reset hphase _ hsettle =>
      rw [WellPlaced, hphase, TimerPhase.expired, List.append_nil] at h
      refine (hsettle.placed h).perm (List.Perm.of_eq ?_)
      simp [TimerPhase.expired]
  | expire => exact h

/-- **No event faults**: no assertion fails, and no pointer is used that is
not alive. -/
theorem next_ok (h : s.WellPlaced) (he : s.enabled a = true) :
    ∃ s', s.next a = .ok s' ∧ Moved s a s' := by
  cases a with
  | addTimer timer when interval now =>
      simp only [enabled, Bool.and_eq_true, Option.isNone_iff_eq_none, decide_eq_true_eq] at he
      obtain ⟨⟨⟨hmay, hfresh⟩, hbound⟩, hclock⟩ := he
      obtain ⟨timers', hadd, hperm⟩ := addTimerInLoop_ok interval now h hfresh
      exact ⟨_, hadd, .addTimer hmay hfresh hbound hclock hperm⟩
  | handleRead now =>
      simp only [enabled, Bool.and_eq_true] at he
      obtain ⟨hclock, hphase⟩ := he
      have hidle : s.phase = .idle := by
        cases hp : s.phase with
        | idle => rfl
        | running now' ran todo => rw [hp] at hphase; cases hphase
      obtain ⟨rest, out, hget, hperm, hsorted, hdue, hlater⟩ :=
        getExpired_ok (s := { s with timerfd := s.timerfd.read, nows := s.nows ++ [now] })
          (fun e he => h.bound e (List.mem_append_left _ he)) now
      refine ⟨_, ?_, .handleRead hidle hclock hperm hsorted hdue hlater⟩
      simp only [next, hget, ok_bind]
      rfl
  | run =>
      cases hp : s.phase with
      | idle => simp [enabled, hp] at he
      | running now ran todo =>
          cases todo with
          | nil => simp [enabled, hp] at he
          | cons e todo =>
              have hmem : e ∈ s.timers.elems ++ s.phase.expired := by
                rw [hp]
                exact List.mem_append_right _ (List.mem_append_right _ (List.mem_cons_self ..))
              obtain ⟨t, ht, -⟩ := h.deref hmem
              refine ⟨_, ?_, .run hp ht⟩
              simp only [next, hp, run, deref_ok ht, ok_bind]
              rfl
  | reset clock =>
      simp only [enabled, Bool.and_eq_true] at he
      obtain ⟨hclock, hphase⟩ := he
      cases hp : s.phase with
      | idle => rw [hp] at hphase; cases hphase
      | running now ran todo =>
          cases todo with
          | cons e todo => rw [hp] at hphase; cases hphase
          | nil =>
              rw [WellPlaced, hp, TimerPhase.expired, List.append_nil] at h
              obtain ⟨s₁, hfold, hsettle⟩ := settle_ok now ran h
              refine ⟨_, ?_, .reset hp hclock hsettle⟩
              have hnext := nextExpire_ok (hsettle.placed h)
              simp only [next, hp, reset, hfold, ok_bind, hnext, fdAfterReset]
              cases s₁.timers.begin? with
              | none => rfl
              | some e =>
                  dsimp only
                  cases e.when.valid <;> rfl
  | expire => exact ⟨_, rfl, .expire⟩

theorem wellPlaced_invariant : system.Invariant WellPlaced where
  init s hs := by
    rw [show s = new from hs]
    exact wellPlaced_new
  step s a s' h he hn := by
    obtain ⟨s₁, hn₁, hm⟩ := next_ok h he
    obtain rfl := Except.ok.inj (hn.symm.trans hn₁)
    exact hm.wellPlaced h

theorem moved_of_next (h : s.WellPlaced) (he : s.enabled a = true) (hn : s.next a = .ok s') :
    Moved s a s' := by
  obtain ⟨s₁, hn₁, hm⟩ := next_ok h he
  obtain rfl := Except.ok.inj (hn.symm.trans hn₁)
  exact hm

end TimerQueue

end Muduo
