import Muduo.Threads.BoundedBlockingQueue

/-!
# No thread is stranded in the queue

Both condition variables are signalled with `notify()`, once for each item
pushed or popped, and the thread that a signal wakes may find that another
has taken what it was woken for. What saves the sleepers is counted: while
somebody sleeps on `notEmpty_`, every item has a thread of its own that is
awake inside `take()` or is about to signal, and while somebody sleeps on
`notFull_` every free place has one in `put()` or about to signal
(`Signalled`).
-/

namespace Muduo

open Lib Lib.Threads CircularBuffer

namespace BoundedBlockingQueue

variable {Tid β T : Type} [DecidableEq Tid] [Fintype Tid] [CircularBuffer β T] {n : Nat}
  {s s' : BoundedBlockingQueue Tid β T} {t : Tid} {p q : QueuePlace T}

/-! ## Who will see an item, or a free place -/

/-- The threads that have yet to test `queue_.empty()`, or found it false, and
a signal owed to `notEmpty_`. -/
def takers : QueuePlace T → Nat
  | .takeLock | .takeTest | .takeSleep | .takeWoken | .takePop => 1
  | .putNotify _ => 1
  | _ => 0

/-- The same for `queue_.full()` and `notFull_`. -/
def putters : QueuePlace T → Nat
  | .putLock _ | .putTest _ | .putSleep _ | .putWoken _ | .putPush _ => 1
  | .takeNotify _ => 1
  | _ => 0

/-- A sleeper on either condition variable has nothing to do that nobody
else will see. -/
structure Signalled (n : Nat) (s : BoundedBlockingQueue Tid β T) : Prop where
  takes : Served notEmpty takers (content s.queue).length s.pc
  puts : Served notFull putters (n - (content s.queue).length) s.pc

omit [DecidableEq Tid] in
theorem signalled_new (n : Nat) : Signalled n (new n : BoundedBlockingQueue Tid β T) where
  takes := by
    rintro ⟨_, h⟩
    cases h
  puts := by
    rintro ⟨_, h⟩
    cases h

/-! ## One event -/

/-- A step from one place to another that does not go to sleep, and leaves as
much weight as it leaves work. -/
theorem Signalled.move (h : Signalled n s) (hpc : s'.pc = Function.update s.pc t p)
    (hempty : notEmpty.asleep p = false) (hfull : notFull.asleep p = false)
    (htakers : (content s'.queue).length + takers (s.pc t) ≤
      (content s.queue).length + takers p)
    (hputters : n - (content s'.queue).length + putters (s.pc t) ≤
      n - (content s.queue).length + putters p) : Signalled n s' := by
  constructor
  · rw [hpc]
    exact h.takes.move hempty htakers
  · rw [hpc]
    exact h.puts.move hfull hputters

theorem takers_woken {c : Condition (QueuePlace T)} (hc : c = notEmpty ∨ c = notFull)
    (q : QueuePlace T) : takers q ≤ takers (c.woken q) := by
  rcases hc with rfl | rfl <;> cases q <;> first | exact le_rfl | exact Nat.zero_le _

theorem putters_woken {c : Condition (QueuePlace T)} (hc : c = notEmpty ∨ c = notFull)
    (q : QueuePlace T) : putters q ≤ putters (c.woken q) := by
  rcases hc with rfl | rfl <;> cases q <;> first | exact le_rfl | exact Nat.zero_le _

theorem asleep_woken {c d : Condition (QueuePlace T)} (hc : c = notEmpty ∨ c = notFull)
    (hd : d = notEmpty ∨ d = notFull) (q : QueuePlace T) (h : d.asleep (c.woken q) = true) :
    d.asleep q = true := by
  rcases hc with rfl | rfl <;> rcases hd with rfl | rfl <;> cases q <;> first | exact h | cases h

/-- A thread wakes up. -/
theorem Signalled.wake (h : Signalled n s) {c : Condition (QueuePlace T)}
    (hc : c = notEmpty ∨ c = notFull) (w : Option Tid) :
    Signalled n { s with pc := c.notify s.pc w } where
  takes := h.takes.wake (asleep_woken hc (Or.inl rfl)) (takers_woken hc) w
  puts := h.puts.wake (asleep_woken hc (Or.inr rfl)) (putters_woken hc) w

/-- The signal of a `put`, which was counted as a taker until now. -/
theorem Signalled.putNotified (h : Signalled n s) {x : T} {w : Option Tid}
    (hpc : s.pc t = .putNotify x) (hw : notEmpty.MayNotify s.pc w) :
    Signalled n ({ s with pc := notEmpty.notify s.pc w }.go t (.putUnlock x)) where
  takes := h.takes.notify hw (fun q hq => by cases q <;> first | exact le_rfl | cases hq)
    (by rw [hpc]; rfl) rfl (by rw [hpc]; exact le_rfl)
  puts := by
    refine (h.wake (Or.inl rfl) w).puts.move rfl ?_
    change _ + putters (notEmpty.notify s.pc w t) ≤ _
    rw [Condition.notify_eq hpc rfl]
    exact le_rfl

/-- The signal of a `take`, which was counted as a putter until now. -/
theorem Signalled.takeNotified (h : Signalled n s) {x : T} {w : Option Tid}
    (hpc : s.pc t = .takeNotify x) (hw : notFull.MayNotify s.pc w) :
    Signalled n ({ s with pc := notFull.notify s.pc w }.go t (.takeUnlock x)) where
  takes := by
    refine (h.wake (Or.inr rfl) w).takes.move rfl ?_
    change _ + takers (notFull.notify s.pc w t) ≤ _
    rw [Condition.notify_eq hpc rfl]
    exact le_rfl
  puts := h.puts.notify hw (fun q hq => by cases q <;> first | exact le_rfl | cases hq)
    (by rw [hpc]; rfl) rfl (by rw [hpc]; exact le_rfl)

variable [LawfulCircularBuffer β T]

/-- A thread that goes to sleep on one condition variable has made sure that
there is nothing to do, and has no part in the other. -/
theorem Signalled.sleep (h : Signalled n s) (hsound : Sound n s) (hs : Sleeps (s.pc t) p) :
    Signalled n (s.unlock t p) := by
  have hsure := hsound.sure t
  generalize hq : s.pc t = q at hs hsure
  cases hs with
  | put x =>
      refine ⟨h.takes.move rfl (by rw [hq]; exact le_rfl), ?_⟩
      change Served notFull putters (n - (content s.queue).length) _
      rw [(LawfulCircularBuffer.full_iff _).mp hsure, hsound.capacity, Nat.sub_self]
      exact Served.zero
  | take =>
      refine ⟨?_, h.puts.move rfl (by rw [hq]; exact le_rfl)⟩
      change Served notEmpty takers (content s.queue).length _
      rw [(LawfulCircularBuffer.empty_iff _).mp hsure]
      exact Served.zero

theorem Signalled.push (h : Signalled n s) (hsound : Sound n s) {x : T}
    (hpc : s.pc t = .putPush x) (hroom : full s.queue = false) :
    Signalled n ({ s with
      queue := pushBack s.queue x, pushed := s.pushed ++ [(t, x)] }.go t (.putNotify x)) := by
  have hlt := hsound.room hroom
  rw [hsound.capacity] at hlt
  have hlen : (content (pushBack s.queue x)).length = (content s.queue).length + 1 := by
    rw [content_pushBack_of_room (hsound.room hroom), List.length_append, List.length_singleton]
  refine h.move rfl rfl rfl ?_ ?_
  · change (content (pushBack s.queue x)).length + takers (s.pc t) ≤ _ + 1
    rw [hlen, hpc]
    exact le_rfl
  · change n - (content (pushBack s.queue x)).length + putters (s.pc t) ≤ _ + 0
    rw [hlen, hpc]
    change n - ((content s.queue).length + 1) + 1 ≤ _
    omega

theorem Signalled.pop (h : Signalled n s) (hsound : Sound n s) {x : T}
    (hpc : s.pc t = .takePop) (hfront : front s.queue = some x) :
    Signalled n ({ s with
      queue := popFront s.queue, popped := s.popped ++ [(t, x)] }.go t (.takeNotify x)) := by
  have hbound := hsound.bound
  rw [LawfulCircularBuffer.front_eq] at hfront
  obtain ⟨rest, hrest⟩ := List.head?_eq_some_iff.mp hfront
  have hlen : (content s.queue).length = (content (popFront s.queue)).length + 1 := by
    rw [LawfulCircularBuffer.content_popFront _ (by rw [hrest]; nofun), hrest]
    rfl
  refine h.move rfl rfl rfl ?_ ?_
  · change (content (popFront s.queue)).length + takers (s.pc t) ≤ _ + 0
    rw [hlen, hpc]
    exact le_rfl
  · change n - (content (popFront s.queue)).length + putters (s.pc t) ≤ _ + 1
    rw [hlen, hpc]
    change _ + 0 ≤ _
    omega

/-- **One event.** -/
theorem Signalled.step (h : Signalled n s) (hsound : Sound n s) (m : Move s s') :
    Signalled n s' := by
  cases m with
  | @call t p hpc hp =>
      refine h.move rfl ?_ ?_ ?_ ?_
      · rcases hp with rfl | ⟨x, rfl⟩ <;> rfl
      · rcases hp with rfl | ⟨x, rfl⟩ <;> rfl
      · rw [hpc]
        exact Nat.add_le_add_left (Nat.zero_le _) _
      · rw [hpc]
        exact Nat.add_le_add_left (Nat.zero_le _) _
  | @locked t p _ hl =>
      generalize hq : s.pc t = q at hl
      cases hl <;>
        exact h.move rfl rfl rfl (by rw [hq]; exact le_rfl)
          (by rw [hq]; exact le_rfl)
  | sleep hs => exact h.sleep hsound hs
  | @tested t p ht =>
      generalize hq : s.pc t = q at ht
      cases ht <;>
        exact h.move rfl rfl rfl (by rw [hq]; exact le_rfl)
          (by rw [hq]; exact le_rfl)
  | push hpc hroom => exact h.push hsound hpc hroom
  | pop hpc hfront => exact h.pop hsound hpc hfront
  | putNotified hpc hw => exact h.putNotified hpc hw
  | takeNotified hpc hw => exact h.takeNotified hpc hw
  | put hpc =>
      exact h.move rfl rfl rfl (by rw [hpc]; exact le_rfl)
        (by rw [hpc]; exact le_rfl)
  | taken hpc =>
      exact h.move rfl rfl rfl (by rw [hpc]; exact le_rfl)
        (by rw [hpc]; exact le_rfl)
  | spurious hc _ => exact h.wake hc _

theorem signalled_invariant (n : Nat) : (system n).Invariant
    fun s : BoundedBlockingQueue Tid β T => Sound n s ∧ Signalled n s :=
  (sound_invariant n).and
    (by
      rintro s rfl
      exact signalled_new n)
    (fun _ _ _ hsound h he hn => h.step hsound (move_of_next he hn))

/-- **No thread is stranded.** However the threads are interleaved, they do not
all sleep in `take()` while there is an item, unless a `put` is about to
signal; nor in `put()` while there is room, unless a `take` is. -/
theorem never_stranded (hs : (system n).Reachable s) :
    ¬(content s.queue ≠ [] ∧ (∃ t, (s.pc t).inTake = true) ∧
        (∀ t, (s.pc t).inTake = true → notEmpty.asleep (s.pc t) = true) ∧
        ∀ t x, s.pc t ≠ .putNotify x) ∧
      ¬(full s.queue = false ∧ (∃ t, (s.pc t).inPut = true) ∧
        (∀ t, (s.pc t).inPut = true → notFull.asleep (s.pc t) = true) ∧
        ∀ t x, s.pc t ≠ .takeNotify x) := by
  obtain ⟨hsound, h⟩ := (signalled_invariant n).reachable hs
  constructor
  · rintro ⟨hany, ⟨t, ht⟩, hall, hnone⟩
    obtain ⟨u, hu⟩ := h.takes.exists_pos (hall t ht) (List.length_pos_iff.mpr hany)
    have hasleep := hall u
    cases hpc : s.pc u with
    | putNotify x => exact hnone u x hpc
    | takeLock | takeTest | takeSleep | takeWoken | takePop =>
        rw [hpc] at hasleep
        cases hasleep rfl
    | _ =>
        rw [hpc] at hu
        cases hu
  · rintro ⟨hroom, ⟨t, ht⟩, hall, hnone⟩
    have hlt := hsound.room hroom
    rw [hsound.capacity] at hlt
    obtain ⟨u, hu⟩ := h.puts.exists_pos (hall t ht) (Nat.sub_pos_of_lt hlt)
    have hasleep := hall u
    cases hpc : s.pc u with
    | takeNotify x => exact hnone u x hpc
    | putLock x | putTest x | putSleep x | putWoken x | putPush x =>
        rw [hpc] at hasleep
        cases hasleep rfl
    | _ =>
        rw [hpc] at hu
        cases hu

/-- Threads 1 and 2 sleep in `take()` when thread 0 puts an item and signals;
thread 1 is woken, thread 2 sleeps on. -/
theorem never_stranded_two : ∃ s : BoundedBlockingQueue (Fin 3) (ListBuffer Nat) Nat,
    s.queue.items = [7] ∧ s.pc 2 = .takeWait ∧
      ¬((∀ t, (s.pc t).inTake = true → notEmpty.asleep (s.pc t) = true) ∧
        ∀ t x, s.pc t ≠ .putNotify x) := by
  obtain ⟨s, hs, hp⟩ := Lts.exists_reachable_of_exec
    (L := (system 1 : Lts (BoundedBlockingQueue (Fin 3) (ListBuffer Nat) Nat) _ _))
    [.take 1, .step 1, .step 1, .step 1, .take 2, .step 2, .step 2, .step 2,
      .put 0 7, .step 0, .step 0, .step 0, .notify 0 (some 1)]
    (fun s => s.queue.items = [7] ∧ s.pc 2 = .takeWait) rfl (by decide)
  obtain ⟨hitems, hpc⟩ := of_decide_eq_true hp
  refine ⟨s, hitems, hpc, fun h => (never_stranded hs).1 ⟨?_, ⟨2, ?_⟩, h⟩⟩
  · rw [show content s.queue = [7] from hitems]
    nofun
  · rw [hpc]
    rfl

end BoundedBlockingQueue

end Muduo
