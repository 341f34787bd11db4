import Muduo.Timer.TimerQueue
import Mathlib.Data.List.Induction

/-!
# What is expected of one timer

The purpose of the queue, for one timer on its own: given the readings of
the `handleRead`s since it was added, the runs it must have had and the
expiration it waits for next (`schedule`). There is no set, no heap and no
other timer here, and no `int64_t`: an interval after a time is their sum.

For a one-shot timer that is a single run, in the first `handleRead` that
finds it due (`FirstDue`).
-/

namespace Muduo

open Lib

namespace TimerQueue

/-- The expiration a timer waits for, in microseconds, unless it is not to run
again, and its runs so far. -/
structure Schedule where
  next : Option Int
  runs : List Firing
deriving DecidableEq

/-- The `h`-th `handleRead` takes the time for `now`. -/
def Schedule.handle (x : Schedule) (id : Nat) (a : AddedTimer) (h : Nat) (now : Timestamp) :
    Schedule :=
  match x.next with
  | none => x
  | some when =>
      if when ≤ now.microSecondsSinceEpoch then
        { next := if 0 < a.interval then some (now.microSecondsSinceEpoch + a.interval) else none
          runs := x.runs ++ [⟨id, h, now, when⟩] }
      else x

/-- The timer `id` after the `handleRead`s that read the clock as `nows`. -/
def schedule (id : Nat) (a : AddedTimer) (nows : List Timestamp) : Schedule :=
  (nows.zipIdx.drop a.addedAt).foldl (fun x e => x.handle id a e.2 e.1)
    ⟨some a.when.microSecondsSinceEpoch, []⟩

variable {id h h' n : Nat} {a : AddedTimer} {nows : List Timestamp} {now : Timestamp}
  {when : Int} {x : Schedule}

theorem Schedule.handle_none (hx : x.next = none) : x.handle id a h now = x := by
  rw [handle, hx]

theorem Schedule.handle_early (hx : x.next = some when)
    (hlt : now.microSecondsSinceEpoch < when) : x.handle id a h now = x := by
  simp only [handle, hx, if_neg (not_le.mpr hlt)]

theorem Schedule.handle_due (hx : x.next = some when)
    (hle : when ≤ now.microSecondsSinceEpoch) : x.handle id a h now =
      { next := if 0 < a.interval then some (now.microSecondsSinceEpoch + a.interval) else none
        runs := x.runs ++ [⟨id, h, now, when⟩] } := by
  simp only [handle, hx, if_pos hle]

theorem schedule_new (hle : nows.length ≤ a.addedAt) :
    schedule id a nows = ⟨some a.when.microSecondsSinceEpoch, []⟩ := by
  rw [schedule, List.drop_eq_nil_of_le (by rwa [List.length_zipIdx])]
  rfl

theorem schedule_snoc (hle : a.addedAt ≤ nows.length) :
    schedule id a (nows ++ [now]) = (schedule id a nows).handle id a nows.length now := by
  have hdrop : a.addedAt ≤ nows.zipIdx.length := by rwa [List.length_zipIdx]
  rw [schedule, List.zipIdx_append, List.drop_append_of_le_length hdrop, List.foldl_append,
    ← schedule]
  simp

/-! ## What is due when -/

/-- None of the `handleRead`s before the `n`-th, begun after `a` was added,
took the time for `a.when` or later. -/
def NotDue (nows : List Timestamp) (a : AddedTimer) (n : Nat) : Prop :=
  ∀ h now, a.addedAt ≤ h → h < n → nows[h]? = some now → now < a.when

/-- The `h`-th `handleRead` is the first begun after `a` was added that took
the time for `a.when` or later. -/
structure FirstDue (nows : List Timestamp) (a : AddedTimer) (h : Nat) : Prop where
  added : a.addedAt ≤ h
  due : ∃ now, nows[h]? = some now ∧ a.when ≤ now
  first : NotDue nows a h

theorem FirstDue.lt (hd : FirstDue nows a h) : h < nows.length := by
  obtain ⟨now, hnow, -⟩ := hd.due
  exact (List.getElem?_eq_some_iff.mp hnow).1

theorem NotDue.le_of_firstDue (hn : NotDue nows a n) (hd : FirstDue nows a h) : n ≤ h := by
  by_contra hlt
  obtain ⟨now, hnow, hdue⟩ := hd.due
  exact absurd (hn h now hd.added (not_le.mp hlt) hnow) (not_lt.mpr hdue)

/-- There is at most one. -/
theorem FirstDue.unique (hd : FirstDue nows a h) (hd' : FirstDue nows a h') : h = h' :=
  le_antisymm (hd.first.le_of_firstDue hd') (hd'.first.le_of_firstDue hd)

/-- A later `handleRead` has no say in what was due before. -/
theorem NotDue.snoc_iff (hle : n ≤ nows.length) :
    NotDue (nows ++ [now]) a n ↔ NotDue nows a n := by
  refine forall_congr' fun h => forall_congr' fun now' => ⟨?_, ?_⟩
  · intro hn hadded hlt hh
    refine hn hadded hlt ?_
    rwa [List.getElem?_append_left (lt_of_lt_of_le hlt hle)]
  · intro hn hadded hlt hh
    refine hn hadded hlt ?_
    rwa [List.getElem?_append_left (lt_of_lt_of_le hlt hle)] at hh

theorem FirstDue.snoc_iff (hlt : h < nows.length) :
    FirstDue (nows ++ [now]) a h ↔ FirstDue nows a h := by
  constructor
  · rintro ⟨hadded, hdue, hfirst⟩
    rw [List.getElem?_append_left hlt] at hdue
    exact ⟨hadded, hdue, (NotDue.snoc_iff hlt.le).mp hfirst⟩
  · rintro ⟨hadded, hdue, hfirst⟩
    refine ⟨hadded, ?_, (NotDue.snoc_iff hlt.le).mpr hfirst⟩
    rwa [List.getElem?_append_left hlt]

/-- What was first due before the last `handleRead`. -/
theorem FirstDue.dropLast (hd : FirstDue nows a h) (hlt : h + 1 < nows.length) :
    FirstDue nows.dropLast a h := by
  have hne : nows ≠ [] := by
    rintro rfl
    exact absurd hlt (Nat.not_lt_zero _)
  have hbefore : h < nows.dropLast.length := by
    rw [List.length_dropLast]
    exact Nat.lt_sub_of_add_lt hlt
  rw [← List.dropLast_append_getLast hne] at hd
  exact (FirstDue.snoc_iff hbefore).mp hd

theorem NotDue.succ (hn : NotDue nows a n) (hnot : ¬FirstDue nows a n) :
    NotDue nows a (n + 1) := by
  intro h now hadded hlt hnow
  rcases Nat.lt_succ_iff_lt_or_eq.mp hlt with hlt | rfl
  · exact hn h now hadded hlt hnow
  · by_contra hle
    exact hnot ⟨hadded, ⟨now, hnow, not_lt.mp hle⟩, hn⟩

theorem notDue_or_firstDue (nows : List Timestamp) (a : AddedTimer) (n : Nat) :
    NotDue nows a n ∨ ∃ h, FirstDue nows a h := by
  induction n with
  | zero => exact .inl fun h _ _ hlt => absurd hlt (Nat.not_lt_zero h)
  | succ n ih =>
      rcases ih with hn | hd
      · by_cases hd : FirstDue nows a n
        · exact .inr ⟨n, hd⟩
        · exact .inl (hn.succ hd)
      · exact .inr hd

/-- A timer not yet due waits for the expiration it was added with. -/
theorem schedule_of_notDue (hn : NotDue nows a nows.length) :
    schedule id a nows = ⟨some a.when.microSecondsSinceEpoch, []⟩ := by
  induction nows using List.reverseRecOn with
  | nil => exact schedule_new (Nat.zero_le _)
  | append_singleton nows now ih =>
      rcases le_or_gt a.addedAt nows.length with hle | hgt
      · have hlen : nows.length < (nows ++ [now]).length := by simp
        have hlt := hn nows.length now hle hlen List.getElem?_concat_length
        have hbefore : NotDue nows a nows.length :=
          (NotDue.snoc_iff le_rfl).mp fun h now' hadded hh => hn h now' hadded (hh.trans hlen)
        rw [schedule_snoc hle, ih hbefore, Schedule.handle_early rfl hlt]
      · refine schedule_new ?_
        rw [List.length_append, List.length_singleton]
        exact hgt

/-- **A one-shot timer runs once**, in the first `handleRead` that finds it
due. -/
theorem schedule_of_firstDue (id : Nat) (hshot : a.interval = 0) (hd : FirstDue nows a h) :
    ∃ now, schedule id a nows = ⟨none, [⟨id, h, now, a.when.microSecondsSinceEpoch⟩]⟩ := by
  induction nows using List.reverseRecOn with
  | nil => exact absurd hd.lt (Nat.not_lt_zero h)
  | append_singleton nows now ih =>
      have hlt := hd.lt
      rw [List.length_append, List.length_singleton] at hlt
      rcases Nat.lt_succ_iff_lt_or_eq.mp hlt with hlt | rfl
      · have hbefore := (FirstDue.snoc_iff hlt).mp hd
        obtain ⟨now', hrun⟩ := ih hbefore
        refine ⟨now', ?_⟩
        rw [schedule_snoc (hbefore.added.trans hlt.le), hrun, Schedule.handle_none rfl]
      · obtain ⟨now', hnow, hdue⟩ := hd.due
        rw [List.getElem?_concat_length] at hnow
        cases hnow
        refine ⟨now, ?_⟩
        rw [schedule_snoc hd.added, schedule_of_notDue ((NotDue.snoc_iff le_rfl).mp hd.first),
          Schedule.handle_due rfl hdue, hshot]
        rfl

theorem oneShot_cases (id : Nat) (hshot : a.interval = 0) (nows : List Timestamp) :
    (NotDue nows a nows.length ∧ schedule id a nows = ⟨some a.when.microSecondsSinceEpoch, []⟩) ∨
      ∃ h now, FirstDue nows a h ∧
        schedule id a nows = ⟨none, [⟨id, h, now, a.when.microSecondsSinceEpoch⟩]⟩ := by
  rcases notDue_or_firstDue nows a nows.length with hn | ⟨h, hd⟩
  · exact .inl ⟨hn, schedule_of_notDue hn⟩
  · obtain ⟨now, hs⟩ := schedule_of_firstDue id hshot hd
    exact .inr ⟨h, now, hd, hs⟩

/-- A repeating timer waits for an interval after the `handleRead` that ran it
last. -/
theorem schedule_next (id : Nat) (nows : List Timestamp) (hrep : 0 < a.interval) :
    (schedule id a nows).next =
      some (match (schedule id a nows).runs.getLast? with
        | none => a.when.microSecondsSinceEpoch
        | some r => r.now.microSecondsSinceEpoch + a.interval) := by
  induction nows using List.reverseRecOn with
  | nil => rw [schedule_new (Nat.zero_le _)]; rfl
  | append_singleton nows now ih =>
      rcases le_or_gt a.addedAt nows.length with hle | hgt
      · rw [schedule_snoc hle]
        by_cases hdue : (match (schedule id a nows).runs.getLast? with
            | none => a.when.microSecondsSinceEpoch
            | some r => r.now.microSecondsSinceEpoch + a.interval) ≤ now.microSecondsSinceEpoch
        · rw [Schedule.handle_due ih hdue, if_pos hrep, List.getLast?_concat]
        · rw [Schedule.handle_early ih (not_le.mp hdue)]
          exact ih
      · rw [schedule_new (by rw [List.length_append, List.length_singleton]; exact hgt)]
        rfl

end TimerQueue

end Muduo
