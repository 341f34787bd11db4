import Mathlib.Algebra.BigOperators.Ring.Finset
import Muduo.Threads.QueueOrder
import Muduo.Threads.Release

/-!
# The program comes to its end

Each event uses up statements that are before the threads (`weight`), but for
the wakeups without a signal, and as long as `main` is not done something other
than such a wakeup can happen (`Ordered.exists_enabled`). So the program of
`BlockingQueue_test`, whatever the scheduler does, ends, and then all that was
put has been taken once and each worker has been stopped (`run_to_end`).
-/

namespace Muduo

open Lib Lib.Threads

/-- The statements of a call of `main`, and the call. -/
def MainCall.cost {Tid T : Type} : MainCall Tid T → Nat
  | .wait => 4
  | .put _ => 9
  | .size => 4
  | .join _ => 1

/-- The calls before a worker until it takes again, or stops. -/
def WorkerPhase.weight {T : Type} : WorkerPhase T → Nat
  | .client | .taking | .stopped => 0
  | .counting | .ready | .sizing _ => 5
  | .printing _ => 9
  | .starting => 14

/-- A thread wakes up that nobody has woken. -/
def RunEvent.spurious {Tid T : Type} : RunEvent Tid T → Bool
  | .queue (.spurious _) | .latch (.spurious _) => true
  | _ => false

def RunEvent.cost {Tid T : Type} (a : RunEvent Tid T) : Nat := if a.spurious then 5 else 0

namespace QueueRun

variable {Tid T : Type} [DecidableEq Tid] [Fintype Tid] {main : Tid} {threads : List Tid}
  {P : QueueProgram T} {s s' : QueueRun Tid T} {a : RunEvent Tid T} {t u : Tid}

/-! ## How long it takes -/

/-- What is before the threads: statements, calls, and a round of a worker for
each item that is still to be taken. -/
def weight (n : Nat) (s : QueueRun Tid T) : Nat :=
  s.queue.weight + s.latch.weight + (s.todo.map MainCall.cost).sum +
    tally (fun _ => WorkerPhase.weight) s.phase + 9 * (n - s.queue.takes.length)

/-- No more is taken than put. -/
theorem Ordered.takes_le (h : Ordered main threads P s) (hsound : s.queue.Sound) :
    s.queue.takes.length ≤ P.items.length + threads.length := by
  have htakes := hsound.takes.length_le
  have hfifo := congrArg List.length hsound.fifo
  have hpushed := congrArg List.length h.pushed
  simp only [List.length_append, List.length_map, List.length_replicate] at hfifo hpushed
  omega

/-- Only `main` sleeps at the latch. -/
theorem Ordered.asleep (h : Ordered main threads P s)
    (hu : latchCondition.asleep (s.latch.pc u) = true) : u = main := by
  have hpc : s.latch.pc u = .waitWait := by
    cases hpc : s.latch.pc u <;> rw [hpc] at hu <;> first | rfl | cases hu
  have hfits := h.fits u
  rw [CountDownLatch.calls, hpc] at hfits
  exact (h.roles.client u).mp hfits.of_waiting.1

omit [DecidableEq Tid] [Fintype Tid] in
theorem weight_again (x : T) : (P.again x).weight ≤ 5 := by
  unfold QueueProgram.again
  split <;> simp [WorkerPhase.weight]

omit [DecidableEq Tid] [Fintype Tid] in
theorem weight_got (x : T) : (P.got x).weight ≤ 9 := by
  unfold QueueProgram.got
  split
  · exact le_rfl
  · exact (weight_again x).trans (by decide)

/-- A phase that ends is paid for by the item that was taken. -/
theorem Ordered.weight_phase (h : Ordered main threads P s) {n : Nat}
    {a : BlockingQueue.Event Tid T} {q : BlockingQueue Tid T} (ha : a.isCall = false)
    (hd : BlockingQueue.Deed s.queue q a) (hn : q.takes.length ≤ n) :
    tally (fun _ => WorkerPhase.weight) (s.afterQueue P a) + 9 * (n - q.takes.length) ≤
      tally (fun _ => WorkerPhase.weight) s.phase + 9 * (n - s.queue.takes.length) := by
  cases hd with
  | call hc => cases hc <;> cases ha
  | quiet _ hstay _ _ htakes =>
      have hphase : s.afterQueue P a = s.phase := by
        cases a with
        | step t =>
            have hout := hstay t rfl
            refine afterQueue_eq (fun x hx => ?_) (fun n hn => ?_)
            · rw [hx] at hout
              cases hout
            · rw [hn] at hout
              cases hout
        | notify | spurious => rfl
        | put | take | size => cases ha
      rw [hphase, htakes]
  | push hpc _ _ htakes | put hpc _ _ htakes =>
      rw [afterQueue_eq (by rw [hpc]; nofun) (by rw [hpc]; nofun), htakes]
  | @taken t x hpc _ _ htakes =>
      have hfits := h.fits t
      rw [BlockingQueue.calls, hpc] at hfits
      have hphase := hfits.of_taking.1
      have hmove := tally_move (fun _ => WorkerPhase.weight) s.phase t (P.got x)
      have hgot := weight_got (P := P) x
      have hlen : q.takes.length = s.queue.takes.length + 1 := by
        rw [htakes, List.length_append, List.length_singleton]
      rw [hphase, show (.taking : WorkerPhase T).weight = 0 from rfl] at hmove
      simp only [afterQueue, hpc, hphase, QueueProgram.returned]
      omega
  | @sized t n hpc _ _ htakes =>
      have hfits := h.fits t
      rw [BlockingQueue.calls, hpc] at hfits
      rw [htakes]
      have hmove := tally_move (fun _ => WorkerPhase.weight) s.phase t
        (P.returned (s.phase t) (s.queue.pc t))
      have hle : (P.returned (s.phase t) (s.queue.pc t)).weight ≤ (s.phase t).weight := by
        rcases hfits.of_sizing.1 with hphase | ⟨x, hphase⟩
        · rw [hphase, hpc]
          exact le_rfl
        · rw [hphase, hpc]
          exact weight_again x
      simp only [afterQueue]
      omega

omit [DecidableEq Tid] [Fintype Tid] in
theorem weight_counted (p : WorkerPhase T) (q : LatchPlace) : (p.counted q).weight = p.weight := by
  cases p <;> cases q <;> rfl

theorem weight_afterLatch (s : QueueRun Tid T) (e : LatchEvent Tid) :
    tally (fun _ => WorkerPhase.weight) (s.afterLatch e) =
      tally (fun _ => WorkerPhase.weight) s.phase := by
  cases e with
  | step t =>
      have hmove := tally_move (fun _ => WorkerPhase.weight) s.phase t
        ((s.phase t).counted (s.latch.pc t))
      rw [weight_counted] at hmove
      simp only [afterLatch]
      omega
  | _ => rfl

/-- **Each event uses up what is before the threads.** -/
theorem Ordered.weight_step (h : Ordered main threads P s) (h' : Ordered main threads P s')
    (hsound : s'.queue.Sound) (m : Move main P s a s') :
    weight (P.items.length + threads.length) s' + 1 ≤
      weight (P.items.length + threads.length) s + a.cost := by
  have hone : ∀ u v, latchCondition.asleep (s.latch.pc u) = true →
      latchCondition.asleep (s.latch.pc v) = true → u = v :=
    fun u v hu hv => (h.asleep hu).trans (h.asleep hv).symm
  have hphase := fun t p => tally_move (fun _ => WorkerPhase.weight) s.phase t p
  have htakes := h'.takes_le hsound
  have hcall : ∀ {e : LatchEvent Tid} {t : Tid}, s.Idle t → e = .wait t ∨ e = .countDown t →
      (s.latch.next e).weight + 1 ≤ s.latch.weight + e.cost := by
    rintro e t hidle (rfl | rfl) <;>
      exact CountDownLatch.weight_next hone (decide_eq_true hidle.2)
  have hqueue : ∀ {a : BlockingQueue.Event Tid T} {q : BlockingQueue Tid T},
      s.queue.Enabled a → s.queue.next a = .ok q → q.weight + 1 ≤ s.queue.weight + a.cost :=
    fun he hn => BlockingQueue.weight_move (BlockingQueue.move_of_next he hn)
  cases m with
  | wait hidle htodo =>
      have hlatch := hcall hidle (Or.inl rfl)
      simp only [weight, htodo, List.map_cons, List.sum_cons, MainCall.cost, LatchEvent.cost,
        RunEvent.cost] at hlatch ⊢
      omega
  | put hidle htodo hq =>
      have hle := hqueue (a := .put main _) hidle.1 hq
      obtain rfl := Except.ok.inj hq
      simp only [weight, htodo, List.map_cons, List.sum_cons, MainCall.cost,
        BlockingQueue.Event.cost, BlockingQueue.go] at hle ⊢
      omega
  | size hidle htodo hq =>
      have hle := hqueue (a := .size main) hidle.1 hq
      obtain rfl := Except.ok.inj hq
      simp only [weight, htodo, List.map_cons, List.sum_cons, MainCall.cost,
        BlockingQueue.Event.cost, BlockingQueue.go] at hle ⊢
      omega
  | join htodo _ =>
      simp only [weight, htodo, List.map_cons, List.sum_cons, MainCall.cost]
      omega
  | @start t hidle hstarting =>
      have hlatch := hcall hidle (Or.inr rfl)
      have hmove := hphase t .counting
      rw [hstarting] at hmove
      simp only [weight, setPhase, LatchEvent.cost, WorkerPhase.weight] at hlatch hmove ⊢
      omega
  | @take t q hidle hready hq =>
      have hle := hqueue (a := .take t) hidle.1 hq
      obtain rfl := Except.ok.inj hq
      have hmove := hphase t .taking
      rw [hready] at hmove
      simp only [weight, setPhase, BlockingQueue.Event.cost, WorkerPhase.weight,
        BlockingQueue.go] at hle hmove ⊢
      omega
  | @print t x q hidle hprinting hq =>
      have hle := hqueue (a := .size t) hidle.1 hq
      obtain rfl := Except.ok.inj hq
      have hmove := hphase t (.sizing x)
      rw [hprinting] at hmove
      simp only [weight, setPhase, BlockingQueue.Event.cost, WorkerPhase.weight,
        BlockingQueue.go] at hle hmove ⊢
      omega
  | @queue a q ha he hq =>
      have hle := hqueue he hq
      have hpaid := h.weight_phase ha
        (BlockingQueue.deed_of_move (BlockingQueue.move_of_next he hq)) htakes
      have hcost : a.cost ≤ (RunEvent.queue a).cost := by
        cases a <;> first | exact le_rfl | cases ha
      simp only [weight]
      omega
  | @latch e he henabled =>
      have hle := CountDownLatch.weight_next hone henabled
      have hcost : e.cost ≤ (RunEvent.latch e : RunEvent Tid T).cost := by
        cases e <;> first | exact le_rfl | cases he
      simp only [weight, weight_afterLatch]
      omega

/-! ## What can happen next -/

/-- `main` has made all its calls, and returned from them. -/
def Finished (main : Tid) (s : QueueRun Tid T) : Prop := s.todo = [] ∧ s.Idle main

/-- Something other than a wakeup without a signal can happen. -/
def CanMove (main : Tid) (s : QueueRun Tid T) : Prop :=
  ∃ a : RunEvent Tid T, a.spurious = false ∧ s.Enabled main a

omit [Fintype Tid] in
/-- In a queue where nobody can go on, all are idle or asleep. -/
theorem at_queue (hsound : s.queue.Sound) (hstuck : ¬s.CanMove main) (t : Tid) :
    s.queue.pc t = .idle ∨ s.queue.pc t = .takeWait := by
  by_contra hbusy
  rw [not_or] at hbusy
  have hawake : BlockingQueue.notEmpty.asleep (s.queue.pc t) = false := by
    cases hpc : s.queue.pc t with
    | takeWait => exact absurd hpc hbusy.2
    | _ => rfl
  obtain ⟨a, hown, ha⟩ := hsound.exists_own hbusy.1 hawake
  refine hstuck ⟨.queue a, ?_, ?_, ha⟩ <;> cases a <;> first | rfl | cases hown

omit [DecidableEq Tid] [Fintype Tid] in
/-- The same of the latch. -/
theorem at_latch (hattended : s.latch.Attended) (hstuck : ¬s.CanMove main) (t : Tid) :
    s.latch.pc t = .idle ∨ s.latch.pc t = .waitWait := by
  by_contra hbusy
  rw [not_or] at hbusy
  have hawake : latchCondition.asleep (s.latch.pc t) = false := by
    cases hpc : s.latch.pc t with
    | waitWait => exact absurd hpc hbusy.2
    | _ => rfl
  rcases CountDownLatch.canStep_or_held hbusy.1 hawake with hstep | ⟨u, hu⟩
  · exact hstuck ⟨.latch (.step t), rfl, rfl, hstep⟩
  · exact hstuck ⟨.latch (.step u), rfl, rfl, hattended.holder_steps hu⟩

/-- A worker that is to call something can. -/
theorem Ordered.worker_moves (h : Ordered main threads P s) (hcalls : (s.phase t).calls = true) :
    s.CanMove main :=
  ⟨.worker t, rfl, (h.fits t).idle (Or.inl hcalls), hcalls⟩

/-- While the latch is closed some worker can go on. -/
theorem Ordered.main_at_latch (h : Ordered main threads P s) (hattended : s.latch.Attended)
    (hstuck : ¬s.CanMove main) : s.latch.pc main = .idle := by
  refine (at_latch hattended hstuck main).resolve_right fun hwait => ?_
  by_cases hcount : s.latch.count ≤ 0
  · obtain ⟨t, ht⟩ := hattended.sleepers hcount main (by rw [hwait]; rfl)
    rcases at_latch hattended hstuck t with hpc | hpc <;>
      exact CountDownLatch.not_waking (by rw [hpc]; rfl) ht
  · have hpos : 0 < tally (fun _ => before) s.phase + s.latch.owed := by
      have := h.count
      omega
    by_cases hbefore : 0 < tally (fun _ => before) s.phase
    · obtain ⟨t, ht⟩ := exists_of_tally_pos hbefore
      refine hstuck (h.worker_moves (t := t) ?_)
      cases hphase : s.phase t <;> rw [hphase] at ht <;> first | rfl | cases ht
    · have howed : 0 < tally (fun _ => LatchPlace.owes) s.latch.pc :=
        (show 0 < s.latch.owed by omega)
      obtain ⟨t, ht⟩ := exists_of_tally_pos howed
      rcases at_latch hattended hstuck t with hpc | hpc <;> rw [hpc] at ht <;> cases ht

omit [DecidableEq Tid] [Fintype Tid] in
/-- When `main` joins, it has put everything. -/
theorem puts_of_join {rest : List (MainCall Tid T)} (h : .join t :: rest <:+ P.calls threads) :
    t ∈ threads ∧ puts (.join t :: rest) = [] := by
  have hnojoin : .join t ∉ (P.run ++ List.replicate threads.length (.put P.stop)) := by
    intro hmem
    rcases List.mem_append.mp hmem with hmem | hmem
    · rcases List.mem_cons.mp hmem with heq | hmem
      · cases heq
      · obtain ⟨x, -, hx⟩ := List.mem_flatMap.mp hmem
        rcases List.mem_cons.mp hx with heq | hx
        · cases heq
        · cases hprints : P.prints <;> simp [hprints] at hx
    · cases List.eq_of_mem_replicate hmem
  have hjoins : .join t :: rest <:+ threads.map .join := by
    rw [QueueProgram.calls, QueueProgram.joinAll, ← List.append_assoc] at h
    rcases List.suffix_or_suffix_of_suffix h (List.suffix_append _ (threads.map MainCall.join)) with h' | h'
    · exact h'
    · obtain ⟨l, hl⟩ := h'
      cases l with
      | nil => exact ⟨[], hl.symm⟩
      | cons c l =>
          obtain ⟨done, hdone⟩ := h
          obtain rfl : c = .join t := (List.cons.inj hl).1
          rw [← hl, ← List.append_assoc] at hdone
          refine absurd ?_ hnojoin
          rw [← List.append_cancel_right hdone]
          exact List.mem_append_right _ List.mem_cons_self
  constructor
  · obtain ⟨u, hu, heq⟩ := List.mem_map.mp (hjoins.subset List.mem_cons_self)
    exact MainCall.join.inj heq ▸ hu
  · refine List.filterMap_eq_nil_iff.mpr fun c hc => ?_
    obtain ⟨u, -, rfl⟩ := List.mem_map.mp (hjoins.subset hc)
    rfl

/-! ## The stops -/

omit [DecidableEq Tid] [Fintype Tid] in
theorem countP_eq_zero_of {l : List T} (hl : ∀ y ∈ l, P.last y = false) :
    l.countP P.last = 0 :=
  List.countP_eq_zero.mpr fun y hy => by rw [hl y hy]; exact Bool.false_ne_true

/-- A worker takes one item that stops it at most. -/
theorem Heard.countP_le {p : WorkerPhase T} {l : List T} (h : Heard P p l) :
    l.countP P.last ≤ 1 := by
  have hlast : ∀ l x, (∀ y ∈ l, P.last y = false) → (l ++ [x]).countP P.last ≤ 1 := by
    intro l x hl
    rw [List.countP_append, countP_eq_zero_of hl, List.countP_singleton]
    split <;> decide
  cases p with
  | stopped =>
      obtain ⟨l', x, rfl, -, hl'⟩ := h
      exact hlast l' x hl'
  | printing x | sizing x =>
      obtain ⟨l', rfl, hl'⟩ := h
      exact hlast l' x hl'
  | _ => exact (countP_eq_zero_of h).le.trans (Nat.zero_le _)

/-- One that has stopped has taken one. -/
theorem Heard.countP_stopped {l : List T} (h : Heard P .stopped l) : l.countP P.last = 1 := by
  obtain ⟨l', x, rfl, hx, hl'⟩ := h
  rw [List.countP_append, countP_eq_zero_of hl', List.countP_singleton, if_pos hx]

omit [Fintype Tid] in
/-- With all calls at the queue asleep or returned, what was popped was taken. -/
theorem takes_eq (hsound : s.queue.Sound)
    (hpc : ∀ t, s.queue.pc t = .idle ∨ s.queue.pc t = .takeWait) (t : Tid) :
    callsOf t s.queue.popped = callsOf t s.queue.takes := by
  rw [hsound.takes t]
  rcases hpc t with h | h <;> rw [h] <;> exact List.append_nil _

omit [DecidableEq Tid] [Fintype Tid] in
/-- There are as many stops as workers. -/
theorem countP_items (P : QueueProgram T) (n : Nat) :
    (P.items ++ List.replicate n P.stop).countP P.last = n := by
  rw [List.countP_append, countP_eq_zero_of P.last_items, List.countP_replicate,
    if_pos P.last_stop, Nat.zero_add]

/-- Each worker takes a stop at most, so that not all are gone when one waits
for an item. -/
theorem Ordered.stops_lt (h : Ordered main threads P s) (ht : t ∈ threads)
    (htaking : s.phase t = .taking) :
    (s.queue.takes.map Prod.snd).countP P.last < threads.length := by
  rw [countP_eq_sum, ← sum_mem_eq_length h.nodup]
  have hle : ∀ u, (callsOf u s.queue.takes).countP P.last ≤ if u ∈ threads then 1 else 0 := by
    intro u
    by_cases hu : u ∈ threads
    · rw [if_pos hu]
      exact (h.heard u hu).countP_le
    · rw [if_neg hu, h.takers u hu]
      exact le_rfl
  refine Finset.sum_lt_sum (fun u _ => hle u) ⟨t, Finset.mem_univ t, ?_⟩
  have hheard := h.heard t ht
  rw [htaking] at hheard
  rw [if_pos ht, countP_eq_zero_of hheard]
  exact Nat.one_pos

/-- When all workers have stopped, all stops are taken. -/
theorem Ordered.stops_eq (h : Ordered main threads P s)
    (hstopped : ∀ t ∈ threads, s.phase t = .stopped) :
    (s.queue.takes.map Prod.snd).countP P.last = threads.length := by
  rw [countP_eq_sum, ← sum_mem_eq_length h.nodup]
  refine Finset.sum_congr rfl fun u _ => ?_
  by_cases hu : u ∈ threads
  · have hheard := h.heard u hu
    rw [hstopped u hu] at hheard
    rw [if_pos hu, hheard.countP_stopped]
  · rw [if_neg hu, h.takers u hu]
    rfl

omit [Fintype Tid] in
theorem perm_popped (hsound : s.queue.Sound)
    (hpc : ∀ t, s.queue.pc t = .idle ∨ s.queue.pc t = .takeWait) :
    s.queue.takes.Perm s.queue.popped :=
  perm_of_callsOf fun t => (takes_eq hsound hpc t).symm

/-- **`main` is never stuck.** -/
theorem Ordered.exists_enabled (h : Ordered main threads P s) (hsound : s.queue.Sound)
    (hsignalled : s.queue.Signalled) (hattended : s.latch.Attended)
    (hnot : ¬s.Finished main) : s.CanMove main := by
  by_contra hstuck
  have hqueue := at_queue hsound hstuck
  have hclient := (h.roles.client main).mpr rfl
  have hidle : s.Idle main := by
    refine ⟨(hqueue main).resolve_right fun hwait => ?_, h.main_at_latch hattended hstuck⟩
    have hfits := h.fits main
    rw [hclient, BlockingQueue.calls, hwait] at hfits
    exact hfits.1 rfl
  -- all `main` can wait for now is the end of a worker
  obtain ⟨t, rest, htodo, ht⟩ : ∃ t rest, s.todo = .join t :: rest ∧ s.phase t ≠ .stopped := by
    cases htodo : s.todo with
    | nil => exact absurd ⟨htodo, hidle⟩ hnot
    | cons c rest =>
        have hcan : ¬s.CanCall (c :: rest) := fun hcan =>
          hstuck ⟨.main, rfl, hidle, htodo ▸ hcan⟩
        cases c with
        | join t => exact ⟨t, rest, rfl, hcan⟩
        | _ => exact absurd trivial hcan
  obtain ⟨hworker, hputs⟩ := puts_of_join (htodo ▸ h.script)
  have htaking : s.phase t = .taking := by
    have hmoves := fun hcalls => hstuck (h.worker_moves (t := t) hcalls)
    have hfits := h.fits t
    cases hphase : s.phase t with
    | client =>
        obtain rfl := (h.roles.client t).mp hphase
        exact absurd hworker h.absent
    | starting | ready | printing => exact absurd (by rw [hphase]; rfl) hmoves
    | stopped => exact absurd hphase ht
    | taking => rfl
    | counting =>
        rw [hphase] at hfits
        rcases at_latch hattended hstuck t with hpc | hpc <;>
          rw [CountDownLatch.calls, hpc] at hfits <;> cases hfits.2
    | sizing x =>
        rw [hphase] at hfits
        rcases hqueue t with hpc | hpc <;>
          rw [BlockingQueue.calls, hpc] at hfits <;> cases hfits.1
  have hasleep : BlockingQueue.notEmpty.asleep (s.queue.pc t) = true := by
    have hfits := h.fits t
    rw [htaking] at hfits
    rcases hqueue t with hpc | hpc
    · rw [BlockingQueue.calls, hpc] at hfits
      cases hfits.1
    · rw [hpc]
      rfl
  have hempty : s.queue.queue = [] := by
    by_contra hany
    obtain ⟨u, hu, hawake⟩ := hsignalled.exists_awake hasleep hany
    rcases hqueue u with hpc | hpc
    · exact hu hpc
    · rw [hpc] at hawake
      cases hawake
  have hpushed := h.pushed
  rw [htodo, hputs, List.append_nil, (idle_calls hidle).1] at hpushed
  have hall : s.queue.popped.map Prod.snd =
      P.items ++ List.replicate threads.length P.stop := by
    rw [← hpushed, hsound.fifo, hempty, List.append_nil]
    exact (List.append_nil _).symm
  have hlt := h.stops_lt hworker htaking
  rw [((perm_popped hsound hqueue).map Prod.snd).countP_eq, hall, countP_items] at hlt
  exact absurd hlt (lt_irrefl _)

/-! ## Whole runs -/

/-- What holds in every reachable state. -/
structure Whole (main : Tid) (threads : List Tid) (P : QueueProgram T) (s : QueueRun Tid T) :
    Prop where
  parts : Parts threads s
  ordered : Ordered main threads P s

theorem whole_invariant : (system main threads P).Invariant (Whole main threads P) where
  init := by
    rintro s ⟨rfl, hnodup, habsent⟩
    exact ⟨⟨.of_init rfl, .of_init rfl⟩, ordered_new hnodup habsent P⟩
  step s a s' h he hn :=
    ⟨h.parts.step (move_of_next he hn), h.ordered.step (move_of_next he hn)⟩

theorem Whole.weight_next (h : Whole main threads P s) (he : s.Enabled main a)
    (hn : s.next main P a = .ok s') :
    weight (P.items.length + threads.length) s' + 1 ≤
      weight (P.items.length + threads.length) s + a.cost := by
  have h' := whole_invariant.step s a s' h he hn
  exact h.ordered.weight_step h'.ordered
    (BlockingQueue.sound_invariant.reachable h'.parts.queue).1 (move_of_next he hn)

/-- No assertion fails. -/
theorem Whole.no_fault (h : Whole main threads P s) (a : RunEvent Tid T) :
    ∃ s', s.next main P a = .ok s' := by
  cases a with
  | main =>
      rw [next]
      cases s.todo with
      | nil => exact ⟨_, rfl⟩
      | cons c rest => cases c <;> exact ⟨_, rfl⟩
  | worker t =>
      rw [next]
      cases s.phase t <;> exact ⟨_, rfl⟩
  | queue a =>
      obtain ⟨q, hq⟩ := (BlockingQueue.sound_invariant.reachable h.parts.queue).1.no_fault a
      exact ⟨_, by rw [next, hq]; rfl⟩
  | latch e => exact ⟨_, rfl⟩

omit [DecidableEq Tid] [Fintype Tid] in
theorem sum_cost_calls (P : QueueProgram T) (threads : List Tid) :
    ((P.calls threads).map MainCall.cost).sum ≤ 4 + 13 * P.items.length + 10 * threads.length := by
  have hrun : ((P.run : List (MainCall Tid T)).map MainCall.cost).sum ≤
      4 + 13 * P.items.length := by
    rw [QueueProgram.run, List.map_cons, List.sum_cons]
    refine Nat.add_le_add_left ?_ 4
    induction P.items with
    | nil => exact Nat.zero_le _
    | cons x rest ih =>
        have hone : ((.put x :: if P.prints then [.size] else [] :
            List (MainCall Tid T)).map MainCall.cost).sum ≤ 13 := by
          cases P.prints <;> simp [MainCall.cost]
        rw [List.flatMap_cons, List.map_append, List.sum_append, List.length_cons]
        omega
  have hjoins : ((threads.map MainCall.join : List (MainCall Tid T)).map MainCall.cost).sum =
      threads.length := by
    induction threads with
    | nil => rfl
    | cons t rest ih =>
        rw [List.map_cons, List.map_cons, List.sum_cons, ih, List.length_cons, MainCall.cost,
          Nat.add_comm]
  simp only [QueueProgram.calls, QueueProgram.joinAll, List.map_append, List.sum_append, hjoins,
    List.map_replicate, List.sum_replicate_nat, MainCall.cost]
  omega

theorem weight_new (hnodup : threads.Nodup) :
    weight (P.items.length + threads.length) (new main threads P) ≤
      4 + 22 * P.items.length + 33 * threads.length := by
  have hqueue : (new main threads P).queue.weight = 0 := Finset.sum_eq_zero fun _ _ => rfl
  have hlatch : (new main threads P).latch.weight = 0 := Finset.sum_eq_zero fun _ _ => rfl
  have hphase : tally (fun _ => WorkerPhase.weight) (new main threads P).phase ≤
      14 * threads.length := by
    rw [← sum_mem_eq_length hnodup, Finset.mul_sum]
    refine Finset.sum_le_sum fun t _ => ?_
    by_cases htm : t = main
    · simp [new, htm, WorkerPhase.weight]
    · by_cases ht : t ∈ threads <;> simp [new, htm, ht, WorkerPhase.weight]
  have hcalls := sum_cost_calls P threads
  have htakes : (new main threads P).queue.takes.length = 0 := rfl
  have htodo : (new main threads P).todo = P.calls threads := rfl
  rw [weight, hqueue, hlatch, htakes, htodo]
  omega

omit [DecidableEq Tid] [Fintype Tid] in
theorem total_cost (as : List (RunEvent Tid T)) :
    Lts.total RunEvent.cost as = 5 * as.countP RunEvent.spurious := by
  induction as with
  | nil => rfl
  | cons a rest ih =>
      rw [Lts.total, ih, List.countP_cons, RunEvent.cost]
      split <;> omega

/-- What the program has done when `main` is at its end. -/
theorem Whole.finished (h : Whole main threads P s) (hfin : s.Finished main) :
    s.queue.pushed.map Prod.snd = P.items ++ List.replicate threads.length P.stop ∧
      s.queue.takes.Perm s.queue.popped ∧
      (∀ t ∈ threads, s.phase t = .stopped ∧ s.Idle t ∧
        Heard P .stopped (callsOf t s.queue.takes)) ∧
      (threads ≠ [] → s.queue.queue = []) := by
  have hsound := (BlockingQueue.sound_invariant.reachable h.parts.queue).1
  obtain ⟨htodo, hidle⟩ := hfin
  have hstopped : ∀ t ∈ threads, s.phase t = .stopped := by
    intro t ht
    refine (h.ordered.roles.joined t ht).resolve_left ?_
    rw [htodo]
    exact List.not_mem_nil
  have hpushed := h.ordered.pushed
  rw [htodo, (idle_calls hidle).1] at hpushed
  have hall : s.queue.pushed.map Prod.snd =
      P.items ++ List.replicate threads.length P.stop := by
    rw [← hpushed]
    simp [puts, BlockingQueue.Call.pending]
  have hrest : ∀ t, s.Idle t := by
    intro t
    by_cases hmain : t = main
    · rwa [hmain]
    · refine (h.ordered.fits t).idle (Or.inr ?_)
      by_contra hphase
      refine hphase (hstopped t (h.ordered.roles.worker t (fun hclient => ?_) hphase))
      exact hmain ((h.ordered.roles.client t).mp hclient)
  have hperm := perm_popped hsound fun t => Or.inl (hrest t).1
  refine ⟨hall, hperm, fun t ht => ⟨hstopped t ht, hrest t, ?_⟩, fun hne => ?_⟩
  · have hheard := h.ordered.heard t ht
    rwa [hstopped t ht] at hheard
  · -- the last of what was put is a stop, and all stops are taken
    have hfifo := hsound.fifo
    have hcount := h.ordered.stops_eq hstopped
    rw [(hperm.map Prod.snd).countP_eq] at hcount
    have hleft : s.queue.queue.countP P.last = 0 := by
      have htotal := congrArg (List.countP P.last) hfifo
      rw [hall, countP_items, List.countP_append, hcount] at htotal
      omega
    by_contra hany
    rw [hall] at hfifo
    have hlast := congrArg List.getLast? hfifo
    rw [List.getLast?_append_of_ne_nil _ hany, List.getLast?_append_of_ne_nil _
      (by simpa using hne), List.getLast?_replicate, if_neg (by simpa using hne)] at hlast
    have hmem := List.mem_of_getLast? hlast.symm
    exact absurd P.last_stop (List.countP_eq_zero.mp hleft _ hmem)

/-- **The program comes to its end.** However `main` and the workers are
interleaved: the items are put in order and taken in that order; no assertion
fails; a run is no longer than the program, but for the wakeups without a
signal; as long as `main` is not done something else can happen; and when it is
done, all that was put has been taken, once, each worker has stopped, and the
item that stopped it is the last that it took. -/
theorem run_to_end {s₀ : QueueRun Tid T} {as : List (RunEvent Tid T)}
    (hinit : (system main threads P).init s₀) (hrun : (system main threads P).Run s₀ as s) :
    s.queue.popped.map Prod.snd <+: s.queue.pushed.map Prod.snd ∧
      s.queue.pushed.map Prod.snd <+: P.items ++ List.replicate threads.length P.stop ∧
      (∀ a, s.Enabled main a → ∃ s', s.next main P a = .ok s') ∧
      as.length ≤ 4 + 22 * P.items.length + 33 * threads.length +
        5 * as.countP RunEvent.spurious ∧
      (¬s.Finished main → ∃ a, a.spurious = false ∧ s.Enabled main a) ∧
      (s.Finished main →
        s.queue.pushed.map Prod.snd = P.items ++ List.replicate threads.length P.stop ∧
          s.queue.takes.Perm s.queue.popped ∧
          (∀ t ∈ threads, s.phase t = .stopped ∧ s.Idle t ∧
            Heard P .stopped (callsOf t s.queue.takes)) ∧
          (threads ≠ [] → s.queue.queue = [])) := by
  have h := whole_invariant.reachable ⟨s₀, as, hinit, hrun⟩
  have hqueue := BlockingQueue.sound_invariant.reachable h.parts.queue
  have hlatch := (CountDownLatch.attended_invariant _).reachable h.parts.latch
  refine ⟨⟨_, hqueue.1.fifo.symm⟩, ⟨_, (List.append_assoc ..).symm.trans h.ordered.pushed⟩,
    fun a _ => h.no_fault a, ?_, h.ordered.exists_enabled hqueue.1 hqueue.2 hlatch, h.finished⟩
  have hle := hrun.length_le (weight (P.items.length + threads.length)) RunEvent.cost
    whole_invariant.step
    (fun _ _ _ hw he hn => hw.weight_next he hn) (whole_invariant.init _ hinit)
  obtain ⟨rfl, hnodup, -⟩ := hinit
  have hnew := @weight_new _ _ _ _ main _ P hnodup
  rw [total_cost] at hle
  omega

/-- One item and two workers, both asleep when it is put. -/
def oneItem : List (RunEvent (Fin 3) Bytes) := [
    .worker 1, .main, .latch (.step 1), .latch (.step 1), .latch (.step 1), .latch (.step
    1), .worker 1, .queue (.step 1), .latch (.step 0), .worker 2, .latch (.step 0), .latch
    (.step 0), .queue (.step 1), .queue (.step 1), .latch (.step 2), .latch (.step 2),
    .latch (.step 2), .latch (.step 2), .latch (.step 2), .worker 2, .queue (.step 2),
    .queue (.step 2), .latch (.step 0), .latch (.step 0), .latch (.step 0), .queue (.step
    2), .main, .queue (.step 0), .queue (.step 0), .queue (.notify 0 (some 1)), .queue
    (.step 0), .main, .queue (.step 0), .queue (.step 0), .queue (.step 0), .main, .queue
    (.step 0), .queue (.step 0), .queue (.notify 0 (some 2)), .queue (.step 0), .queue
    (.step 1), .queue (.step 1), .main, .queue (.step 1), .queue (.step 1), .queue (.step
    0), .queue (.step 0), .queue (.notify 0 none), .queue (.step 0), .queue (.step 2),
    .queue (.step 2), .queue (.step 2), .worker 1, .queue (.step 2), .worker 2, .queue
    (.step 2), .queue (.step 2), .queue (.step 2), .queue (.step 1), .queue (.step 1),
    .queue (.step 1), .worker 1, .queue (.step 1), .queue (.step 1), .queue (.step 1),
    .queue (.step 1), .worker 1, .queue (.step 1), .queue (.step 1), .queue (.step 1),
    .main, .main]

/-- `Bench` with one worker, which sleeps whenever something is put. -/
def oneTime : List (RunEvent (Fin 2) Timestamp) := [
    .worker 1, .latch (.step 1), .latch (.step 1), .latch (.step 1), .latch (.step 1),
    .latch (.step 1), .worker 1, .queue (.step 1), .queue (.step 1), .queue (.step 1), .main,
    .latch (.step 0), .latch (.step 0), .latch (.step 0), .main, .queue (.step 0), .queue
    (.step 0), .queue (.notify 0 (some 1)), .queue (.step 0), .queue (.step 1), .queue (.step
    1), .queue (.step 1), .queue (.step 1), .worker 1, .queue (.step 1), .queue (.step 1),
    .queue (.step 1), .main, .queue (.step 0), .queue (.step 0), .queue (.notify 0 (some 1)),
    .queue (.step 0), .queue (.step 1), .queue (.step 1), .queue (.step 1), .queue (.step 1),
    .main]

/-- A replay up to where `main` is done. -/
theorem finished_of_exec [DecidableEq T] (main : Tid) (threads : List Tid) (P : QueueProgram T)
    (as : List (RunEvent Tid T)) (takes : List (Tid × T))
    (h : ((system main threads P).exec (new main threads P) as).map (fun s =>
      decide (s.todo = [] ∧ (s.queue.pc main = .idle ∧ s.latch.pc main = .idle) ∧
        s.queue.takes = takes)) = some true) :
    ∃ s, (system main threads P).Run (new main threads P) as s ∧ s.Finished main ∧
      s.queue.takes = takes := by
  obtain ⟨s, hs, hp⟩ := Option.map_eq_some_iff.mp h
  obtain ⟨htodo, hidle, htakes⟩ := of_decide_eq_true hp
  exact ⟨s, Lts.run_of_exec hs, ⟨htodo, hidle⟩, htakes⟩

theorem run_to_end_two :
    (∃ s : QueueRun (Fin 3) Bytes,
      s.queue.takes = [(1, hello 0), (2, str "stop"), (1, str "stop")] ∧
        s.queue.takes.Perm s.queue.popped ∧ s.queue.queue = []) ∧
    ∃ s : QueueRun (Fin 2) Timestamp,
      s.queue.takes = [(1, .ofInt 7), (1, .invalid)] ∧
        s.queue.takes.Perm s.queue.popped ∧ s.queue.queue = [] := by
  constructor
  · obtain ⟨s, hrun, hfin, htakes⟩ := finished_of_exec 0 [1, 2] (.test 1) oneItem
      [(1, hello 0), (2, str "stop"), (1, str "stop")] (by decide +kernel)
    obtain ⟨-, -, -, -, -, hfinished⟩ := run_to_end ⟨rfl, by decide, by decide⟩ hrun
    obtain ⟨-, hperm, -, hempty⟩ := hfinished hfin
    exact ⟨s, htakes, hperm, hempty nofun⟩
  · let P : QueueProgram Timestamp := .bench (fun _ => .ofInt 7) (fun _ => rfl) 1
    obtain ⟨s, hrun, hfin, htakes⟩ := finished_of_exec 0 [1] P oneTime
      [(1, .ofInt 7), (1, .invalid)] (by decide +kernel)
    obtain ⟨-, -, -, -, -, hfinished⟩ := run_to_end ⟨rfl, by decide, by decide⟩ hrun
    obtain ⟨-, hperm, -, hempty⟩ := hfinished hfin
    exact ⟨s, htakes, hperm, hempty nofun⟩

end QueueRun

end Muduo
