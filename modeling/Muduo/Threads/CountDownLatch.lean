import Muduo.Lib.Lts
import Muduo.Lib.Threads

/-!
# `CountDownLatch`

`wait` and `countDown` under a mutex, with `condition_` for those who wait.
The count only falls, and a `wait` returns only when it is at most zero
(`Open`). `countDown` wakes the sleepers when it finds the count at zero, not
below; the mutex makes that enough (`latch_opens`).
-/

namespace Muduo

open Lib Lib.Threads

/-- Where a thread is: in neither; in `wait()`, at its statements in order,
asleep, or woken without the mutex; in `countDown()`. -/
inductive LatchPlace where
  | idle
  | waitLock | waitTest | waitSleep | waitWait | waitWoken | waitUnlock
  | downLock | downDec | downTest | downNotify | downUnlock
deriving DecidableEq

namespace LatchPlace

/-- Does a step there take the mutex? -/
def locks : LatchPlace → Bool
  | .waitLock | .waitWoken | .downLock => true
  | _ => false

/-- Does a thread there hold the mutex? -/
def inside : LatchPlace → Bool
  | .waitTest | .waitSleep | .waitUnlock => true
  | .downDec | .downTest | .downNotify | .downUnlock => true
  | _ => false

/-- Is it a place of `countDown()`? -/
def counting : LatchPlace → Bool
  | .downLock | .downDec | .downTest | .downNotify | .downUnlock => true
  | _ => false

/-- Is it the end of `wait()`? -/
def leaving : LatchPlace → Bool
  | .waitUnlock => true
  | _ => false

end LatchPlace

/-- `condition_` -/
def latchCondition : Condition LatchPlace where
  asleep | .waitWait => true | _ => false
  woken | .waitWait => .waitWoken | p => p
  woken_awake p := by cases p <;> rfl
  woken_of_awake p := by cases p <;> first | exact fun _ => rfl | nofun

structure CountDownLatch (Tid : Type) where
  count : Int
  /-- Who holds `mutex_`. -/
  holder : Option Tid
  pc : Tid → LatchPlace
  /-- Who has returned from `wait()`, and from `countDown()`. -/
  waited : List Tid
  counted : List Tid

/-- A thread calls `wait` or `countDown`, makes a step, or wakes up without
having been woken. -/
inductive LatchEvent (Tid : Type) where
  | wait (t : Tid)
  | countDown (t : Tid)
  | step (t : Tid)
  | spurious (t : Tid)

namespace CountDownLatch

variable {Tid : Type} [DecidableEq Tid]

def new (count : Int) : CountDownLatch Tid := ⟨count, none, fun _ => .idle, [], []⟩

def go (s : CountDownLatch Tid) (t : Tid) (p : LatchPlace) : CountDownLatch Tid :=
  { s with pc := Function.update s.pc t p }

def lock (s : CountDownLatch Tid) (t : Tid) (p : LatchPlace) : CountDownLatch Tid :=
  { s with holder := some t }.go t p

def unlock (s : CountDownLatch Tid) (t : Tid) (p : LatchPlace) : CountDownLatch Tid :=
  { s with holder := none }.go t p

/-- The statement that `t` is at. -/
def advance (s : CountDownLatch Tid) (t : Tid) : LatchPlace → CountDownLatch Tid
  | .waitLock => s.lock t .waitTest
  | .waitTest => s.go t (if 0 < s.count then .waitSleep else .waitUnlock)
  | .waitSleep => s.unlock t .waitWait
  | .waitWoken => s.lock t .waitTest
  | .waitUnlock => { s with waited := s.waited ++ [t] }.unlock t .idle
  | .downLock => s.lock t .downDec
  | .downDec => { s with count := s.count - 1 }.go t .downTest
  | .downTest => s.go t (if s.count = 0 then .downNotify else .downUnlock)
  | .downNotify => { s with pc := latchCondition.notifyAll s.pc }.go t .downUnlock
  | .downUnlock => { s with counted := s.counted ++ [t] }.unlock t .idle
  | .idle | .waitWait => s

/-- May a thread at `p` make a step of its own? -/
def canStep (s : CountDownLatch Tid) : LatchPlace → Bool
  | .idle | .waitWait => false
  | p => !p.locks || s.holder.isNone

def enabled (s : CountDownLatch Tid) : LatchEvent Tid → Bool
  | .wait t => s.pc t = .idle
  | .countDown t => s.pc t = .idle
  | .step t => s.canStep (s.pc t)
  | .spurious t => latchCondition.asleep (s.pc t)

def next (s : CountDownLatch Tid) : LatchEvent Tid → CountDownLatch Tid
  | .wait t => s.go t .waitLock
  | .countDown t => s.go t .downLock
  | .step t => s.advance t (s.pc t)
  | .spurious t => { s with pc := latchCondition.notify s.pc (some t) }

/-- Any number of threads at a latch. -/
def system (count : Int) : Lts (CountDownLatch Tid) (LatchEvent Tid) Empty where
  init s := s = new count
  enabled s e := s.enabled e = true
  next s e := .ok (s.next e)

/-! ## The count -/

variable {s : CountDownLatch Tid} {e : LatchEvent Tid} {t u : Tid}

/-- The count only falls, and only at `--count_`. -/
theorem count_next : (s.next e).count = s.count ∨
    ∃ t, e = .step t ∧ s.pc t = .downDec ∧ (s.next e).count = s.count - 1 := by
  cases e with
  | step t =>
      generalize hpc : s.pc t = p
      cases p with
      | downDec => exact Or.inr ⟨t, rfl, hpc, by rw [next, hpc]; rfl⟩
      | _ => exact Or.inl (by rw [next, hpc]; rfl)
  | _ => exact Or.inl rfl

theorem count_next_le : (s.next e).count ≤ s.count := by
  rcases count_next (s := s) (e := e) with h | ⟨_, _, _, h⟩ <;> omega

/-- Whoever is about to return from `wait()`, or has done so, has seen the
count at zero or below. -/
structure Open (s : CountDownLatch Tid) : Prop where
  leaving : ∀ t, (s.pc t).leaving = true → s.count ≤ 0
  waited : ∀ t ∈ s.waited, s.count ≤ 0

omit [DecidableEq Tid] in
theorem open_new (count : Int) : Open (new count : CountDownLatch Tid) := ⟨nofun, nofun⟩

theorem leaving_woken (q : LatchPlace) : (latchCondition.woken q).leaving = q.leaving := by
  cases q <;> rfl

theorem counting_woken (q : LatchPlace) : (latchCondition.woken q).counting = q.counting := by
  cases q <;> rfl

theorem leaving_next (h : ((s.next e).pc t).leaving = true) :
    (s.pc t).leaving = true ∨ s.count ≤ 0 := by
  have hstay : ∀ {u p}, p.leaving = false → (Function.update s.pc u p t).leaving = true →
      (s.pc t).leaving = true := fun hp hu => of_update (g := LatchPlace.leaving) hp hu
  cases e with
  | wait u => exact Or.inl (hstay rfl h)
  | countDown u => exact Or.inl (hstay rfl h)
  | spurious u =>
      exact Or.inl ((Condition.apply_notify leaving_woken (some u) t).symm.trans h)
  | step u =>
      generalize hpc : s.pc u = p
      rw [next, hpc] at h
      cases p with
      | idle | waitWait => exact Or.inl h
      | waitTest =>
          by_cases hcount : 0 < s.count
          · rw [advance, if_pos hcount] at h
            exact Or.inl (hstay rfl h)
          · exact Or.inr (not_lt.mp hcount)
      | downTest =>
          rw [advance] at h
          split at h <;> exact Or.inl (hstay rfl h)
      | downNotify =>
          have hwoken := of_update (g := LatchPlace.leaving) rfl h
          exact Or.inl ((leaving_woken _).symm.trans hwoken)
      | _ => exact Or.inl (hstay rfl h)

theorem waited_next (h : t ∈ (s.next e).waited) : t ∈ s.waited ∨ (s.pc t).leaving = true := by
  cases e with
  | step u =>
      generalize hpc : s.pc u = p
      rw [next, hpc] at h
      cases p with
      | waitUnlock =>
          rcases List.mem_append.mp h with h | h
          · exact Or.inl h
          · rw [List.mem_singleton.mp h, hpc]
            exact Or.inr rfl
      | _ => exact Or.inl h
  | _ => exact Or.inl h

theorem waited_mono (h : t ∈ s.waited) : t ∈ (s.next e).waited := by
  cases e with
  | step u =>
      generalize hpc : s.pc u = p
      rw [next, hpc]
      cases p with
      | waitUnlock => exact List.mem_append_left _ h
      | _ => exact h
  | _ => exact h

theorem Open.next (h : Open s) : Open (s.next e) where
  leaving t ht := by
    refine le_trans count_next_le ?_
    rcases leaving_next ht with ht | hcount
    · exact h.leaving t ht
    · exact hcount
  waited t ht := by
    refine le_trans count_next_le ?_
    rcases waited_next ht with ht | ht
    · exact h.waited t ht
    · exact h.leaving t ht

/-- A thread in `countDown()` has just called it, or was there before and has
not returned. -/
theorem counting_next (h : ((s.next e).pc t).counting = true) :
    (e = .countDown t ∧ (s.next e).counted = s.counted) ∨
      (s.pc t).counting = true ∧ (t ∈ (s.next e).counted → t ∈ s.counted) := by
  have hsame : ∀ {u p}, p.counting = (s.pc u).counting →
      (Function.update s.pc u p t).counting = true → (s.pc t).counting = true :=
    fun hp hu => (apply_update (g := LatchPlace.counting) hp t).symm.trans hu
  cases e with
  | wait u => exact Or.inr ⟨of_update (g := LatchPlace.counting) rfl h, id⟩
  | countDown u =>
      by_cases hut : t = u
      · exact Or.inl ⟨by rw [hut], rfl⟩
      · refine Or.inr ⟨?_, id⟩
        change (Function.update s.pc u _ t).counting = true at h
        rwa [Function.update_of_ne hut] at h
  | spurious u =>
      exact Or.inr ⟨(Condition.apply_notify counting_woken (some u) t).symm.trans h, id⟩
  | step u =>
      right
      generalize hpc : s.pc u = p
      rw [next, hpc] at h
      rw [next, hpc]
      cases p with
      | idle | waitWait => exact ⟨h, id⟩
      | waitTest | downTest =>
          rw [advance] at h
          split at h <;> exact ⟨hsame (by rw [hpc]; rfl) h, id⟩
      | downNotify =>
          refine ⟨?_, id⟩
          have hwoken : LatchPlace.downUnlock.counting =
              (latchCondition.notifyAll s.pc u).counting := by
            rw [Condition.notifyAll_eq hpc rfl]
            rfl
          exact (counting_woken _).symm.trans
            ((apply_update (g := LatchPlace.counting) hwoken t).symm.trans h)
      | downUnlock =>
          have hut : t ≠ u := by
            rintro rfl
            change (Function.update s.pc t _ t).counting = true at h
            rw [Function.update_self] at h
            cases h
          refine ⟨of_update (g := LatchPlace.counting) rfl h, fun hmem => ?_⟩
          rcases List.mem_append.mp hmem with hmem | hmem
          · exact hmem
          · exact absurd (List.mem_singleton.mp hmem) hut
      | _ => exact ⟨hsame (by rw [hpc]; rfl) h, id⟩

/-! ## The sleepers -/

/-- A thread that has counted down to zero, and has yet to wake the sleepers. -/
def Waking (count : Int) (p : LatchPlace) : Prop :=
  p = .downNotify ∨ p = .downTest ∧ count = 0

theorem Waking.inside {count : Int} {p : LatchPlace} (h : Waking count p) : p.inside = true := by
  rcases h with rfl | ⟨rfl, -⟩ <;> rfl

/-- Is it a place after `--count_` and before the broadcast? -/
def past : LatchPlace → Bool
  | .downTest | .downNotify => true
  | _ => false

theorem not_waking {count : Int} {p : LatchPlace} (hp : past p = false) : ¬Waking count p := by
  rintro (rfl | ⟨rfl, -⟩) <;> cases hp

theorem Waking.awake {count : Int} {p : LatchPlace} (h : Waking count p) :
    latchCondition.asleep p = false := by
  rcases h with rfl | ⟨rfl, -⟩ <;> rfl

/-- What a thread there has made sure of, and relies on. -/
def Sure (count : Int) : LatchPlace → Prop
  | .waitSleep => 0 < count
  | _ => True

theorem sure_of_outside (count : Int) (p : LatchPlace) (hp : p.inside = false) :
    Sure count p := by
  cases p <;> trivial

/-- Nobody but the holder of the mutex is inside, whoever goes to sleep has
seen the count above zero, and whoever sleeps with the count at zero or below
is about to be woken. -/
structure Attended (s : CountDownLatch Tid) : Prop where
  mutex : Exclusive LatchPlace.inside s.holder s.pc
  sure : ∀ t, Sure s.count (s.pc t)
  sleepers : s.count ≤ 0 → ∀ u, latchCondition.asleep (s.pc u) = true →
    ∃ t, Waking s.count (s.pc t)

omit [DecidableEq Tid] in
theorem attended_new (count : Int) : Attended (new count : CountDownLatch Tid) where
  mutex _ := ⟨nofun, nofun⟩
  sure _ := trivial
  sleepers _ _ h := by cases h

/-- A move of a thread that wakes nobody, with the count as it is. -/
theorem Attended.move (h : Attended s) {p : LatchPlace} {holder : Option Tid}
    {waited counted : List Tid} (hmutex : Exclusive LatchPlace.inside holder
      (Function.update s.pc t p)) (hsure : Sure s.count p)
    (hp : latchCondition.asleep p = false ∨ 0 < s.count) (ht : ¬Waking s.count (s.pc t)) :
    Attended ({ s with holder := holder, waited := waited, counted := counted }.go t p) where
  mutex := hmutex
  sure := (Function.forall_update_iff s.pc _).mpr ⟨hsure, fun u _ => h.sure u⟩
  sleepers := by
    intro hcount u hu
    have hawake := hp.resolve_right (not_lt.mpr hcount)
    obtain ⟨v, hv⟩ := h.sleepers hcount u (Condition.asleep_of_update hawake hu)
    have hvt : v ≠ t := by
      rintro rfl
      exact ht hv
    refine ⟨v, ?_⟩
    change Waking s.count (Function.update s.pc t p v)
    rwa [Function.update_of_ne hvt]

theorem inside_woken (q : LatchPlace) : (latchCondition.woken q).inside = q.inside := by
  cases q <;> rfl

theorem Attended.spurious (h : Attended s) :
    Attended { s with pc := latchCondition.notify s.pc (some t) } where
  mutex := h.mutex.notify inside_woken (some t)
  sure := Condition.forall_notify (K := fun _ => Sure s.count)
    (fun _ q hq => by cases q <;> exact hq) h.sure (some t)
  sleepers := by
    intro hcount u hu
    obtain ⟨v, hv⟩ := h.sleepers hcount u (Condition.asleep_of_notify (w := some t) hu)
    refine ⟨v, ?_⟩
    change Waking s.count (latchCondition.notify s.pc (some t) v)
    rwa [Condition.notify_of_awake hv.awake]

/-- `--count_`: nobody else is inside, so who sleeps does so at one or more. -/
theorem Attended.dec (h : Attended s) (hpc : s.pc t = .downDec) :
    Attended ({ s with count := s.count - 1 }.go t .downTest) where
  mutex := h.mutex.stay (by rw [hpc]; rfl)
  sure := h.mutex.known (sure_of_outside _) (by rw [hpc]; rfl) trivial
  sleepers := by
    intro hcount u hu
    change s.count - 1 ≤ 0 at hcount
    by_cases hone : s.count = 1
    · refine ⟨t, Or.inr ⟨Function.update_self .., ?_⟩⟩
      change s.count - 1 = 0
      omega
    · obtain ⟨v, hv⟩ := h.sleepers (by omega) u (Condition.asleep_of_update rfl hu)
      obtain rfl := h.mutex.unique hv.inside (show (s.pc t).inside = true by rw [hpc]; rfl)
      rw [hpc] at hv
      rcases hv with hv | ⟨hv, -⟩ <;> cases hv

/-- The test after it, with the count at zero. -/
theorem Attended.test (h : Attended s) (hpc : s.pc t = .downTest) :
    Attended (s.go t .downNotify) where
  mutex := h.mutex.stay (by rw [hpc]; rfl)
  sure := (Function.forall_update_iff s.pc _).mpr ⟨trivial, fun u _ => h.sure u⟩
  sleepers _ _ _ := ⟨t, Or.inl (Function.update_self ..)⟩

theorem Attended.notifyAll (h : Attended s) (hpc : s.pc t = .downNotify) :
    Attended ({ s with pc := latchCondition.notifyAll s.pc }.go t .downUnlock) := by
  have hpc' : latchCondition.notifyAll s.pc t = .downNotify := Condition.notifyAll_eq hpc rfl
  constructor
  · exact (h.mutex.notifyAll inside_woken).stay (by rw [hpc']; rfl)
  · exact (h.mutex.notifyAll inside_woken).known (sure_of_outside _) (by rw [hpc']; rfl) trivial
  · intro _ u hu
    have hawake := Condition.asleep_of_update rfl hu
    rw [Condition.asleep_notifyAll] at hawake
    cases hawake

theorem Attended.step (h : Attended s) (hstep : s.canStep (s.pc t) = true) :
    Attended (s.advance t (s.pc t)) := by
  have hfree : (s.pc t).locks = true → s.holder = none := by
    intro hl
    cases hpc : s.pc t <;> rw [hpc] at hstep hl <;> cases hl <;>
      exact Option.isNone_iff_eq_none.mp hstep
  have hmutex := h.mutex
  have hsure := h.sure t
  generalize hpc : s.pc t = p at hstep hfree hsure ⊢
  cases p with
  | idle | waitWait => cases hstep
  | waitLock | waitWoken | downLock =>
      rw [hfree rfl] at hmutex
      exact h.move (hmutex.acquire rfl) trivial (Or.inl rfl) (not_waking (by rw [hpc]; rfl))
  | waitTest =>
      by_cases hcount : 0 < s.count
      · rw [advance, if_pos hcount]
        exact h.move (hmutex.stay (by rw [hpc]; rfl)) hcount (Or.inl rfl)
          (not_waking (by rw [hpc]; rfl))
      · rw [advance, if_neg hcount]
        exact h.move (hmutex.stay (by rw [hpc]; rfl)) trivial (Or.inl rfl)
          (not_waking (by rw [hpc]; rfl))
  | waitSleep =>
      exact h.move (hmutex.release (by rw [hpc]; rfl) rfl) trivial (Or.inr hsure)
        (not_waking (by rw [hpc]; rfl))
  | waitUnlock | downUnlock =>
      exact h.move (hmutex.release (by rw [hpc]; rfl) rfl) trivial (Or.inl rfl)
        (not_waking (by rw [hpc]; rfl))
  | downDec => exact h.dec hpc
  | downTest =>
      by_cases hcount : s.count = 0
      · rw [advance, if_pos hcount]
        exact h.test hpc
      · rw [advance, if_neg hcount]
        refine h.move (hmutex.stay (by rw [hpc]; rfl)) trivial (Or.inl rfl) ?_
        rw [hpc]
        rintro (hw | ⟨-, hzero⟩)
        · cases hw
        · exact hcount hzero
  | downNotify => exact h.notifyAll hpc

theorem Attended.call (h : Attended s) {p : LatchPlace} (hpc : s.pc t = .idle)
    (hp : p = .waitLock ∨ p = .downLock) : Attended (s.go t p) := by
  have hnone : ¬Waking s.count (s.pc t) := not_waking (by rw [hpc]; rfl)
  rcases hp with rfl | rfl
  · exact h.move (h.mutex.stay (by rw [hpc]; rfl)) trivial (Or.inl rfl) hnone
  · exact h.move (h.mutex.stay (by rw [hpc]; rfl)) trivial (Or.inl rfl) hnone

theorem attended_invariant (count : Int) :
    (system count).Invariant (Attended : CountDownLatch Tid → Prop) where
  init := by
    rintro s rfl
    exact attended_new count
  step := by
    intro s e s' h he hn
    obtain rfl := Except.ok.inj hn
    cases e with
    | wait t => exact h.call (of_decide_eq_true he) (Or.inl rfl)
    | countDown t => exact h.call (of_decide_eq_true he) (Or.inr rfl)
    | step t => exact h.step he
    | spurious t => exact h.spurious

/-- **The latch opens.** In every interleaving, once the count is at zero or below,
nobody sleeps in `wait()` but until the `countDown()` that brought it to zero
wakes them, which it does before it lets the mutex go. -/
theorem latch_opens {count : Int} (hs : (system count).Reachable s) (hcount : s.count ≤ 0)
    (hu : latchCondition.asleep (s.pc u) = true) :
    ∃ t, s.holder = some t ∧ Waking s.count (s.pc t) := by
  have h := (attended_invariant count).reachable hs
  obtain ⟨t, ht⟩ := h.sleepers hcount u hu
  exact ⟨t, (h.mutex t).mp ht.inside, ht⟩

end CountDownLatch

end Muduo
