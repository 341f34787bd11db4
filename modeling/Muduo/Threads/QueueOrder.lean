import Muduo.Threads.QueueRun

/-!
# The order of the calls in the program

What `main` and the workers have done, put and taken, as an invariant of the
program (`Ordered`), and that every event keeps it.
-/

namespace Muduo

open Lib Lib.Threads

namespace QueueRun

variable {Tid T : Type} [DecidableEq Tid] {main : Tid} {threads : List Tid} {P : QueueProgram T}
  {s s' : QueueRun Tid T} {a : RunEvent Tid T} {t u : Tid}

/-! ## What the workers have taken -/

/-- What a worker has taken by then: the last of it, if that stops it, and no
other. -/
def Heard (P : QueueProgram T) : WorkerPhase T → List T → Prop
  | .stopped, l => ∃ l' x, l = l' ++ [x] ∧ P.last x = true ∧ ∀ y ∈ l', P.last y = false
  | .printing x, l | .sizing x, l => ∃ l', l = l' ++ [x] ∧ ∀ y ∈ l', P.last y = false
  | _, l => ∀ y ∈ l, P.last y = false

omit [DecidableEq Tid] in
theorem heard_again {x : T} {l : List T} (h : Heard P (.sizing x) l) : Heard P (P.again x) l := by
  obtain ⟨l', rfl, hl'⟩ := h
  cases hlast : P.last x with
  | true =>
      rw [QueueProgram.again, if_pos hlast]
      exact ⟨l', x, rfl, hlast, hl'⟩
  | false =>
      rw [QueueProgram.again, if_neg (by rw [hlast]; exact Bool.false_ne_true)]
      intro y hy
      rcases List.mem_append.mp hy with hy | hy
      · exact hl' y hy
      · rw [List.mem_singleton.mp hy]
        exact hlast

theorem heard_got {l : List T} (h : Heard P .taking l) (x : T) :
    Heard P (P.got x) (l ++ [x]) := by
  unfold QueueProgram.got
  split
  · exact ⟨l, rfl, h⟩
  · exact heard_again ⟨l, rfl, h⟩

/-! ## The order the program imposes -/

/-- The items that `main` has yet to put. -/
def puts (todo : List (MainCall Tid T)) : List T :=
  todo.filterMap fun
    | .put x => some x
    | _ => none

/-- Has the thread yet to call `countDown`? -/
def before : WorkerPhase T → Nat
  | .starting => 1
  | _ => 0

variable [Fintype Tid]

/-- Each thread is where its phase says; the count is of the workers that have
yet to lower it; what `main` has put, puts and has yet to put are the items and
the stops, in order; a worker takes no more when it has taken one that stops
it, and nobody else takes. -/
structure Ordered (main : Tid) (threads : List Tid) (P : QueueProgram T) (s : QueueRun Tid T) :
    Prop where
  nodup : threads.Nodup
  absent : main ∉ threads
  roles : Roles main threads s.todo s.phase
  fits : ∀ t, Fits (s.phase t) (s.queue.calls t) (s.latch.calls t)
  count : s.latch.count = (tally (fun _ => before) s.phase + s.latch.owed : Nat)
  script : s.todo <:+ P.calls threads
  pushed : s.queue.pushed.map Prod.snd ++ (s.queue.calls main).pending ++ puts s.todo =
    P.items ++ List.replicate threads.length P.stop
  heard : ∀ t ∈ threads, Heard P (s.phase t) (callsOf t s.queue.takes)
  takers : ∀ t ∉ threads, callsOf t s.queue.takes = []

omit [DecidableEq Tid] [Fintype Tid] in
theorem puts_append (l₁ l₂ : List (MainCall Tid T)) : puts (l₁ ++ l₂) = puts l₁ ++ puts l₂ :=
  List.filterMap_append

omit [DecidableEq Tid] [Fintype Tid] in
theorem puts_calls (P : QueueProgram T) (threads : List Tid) :
    puts (P.calls threads) = P.items ++ List.replicate threads.length P.stop := by
  have hrun : puts (P.run : List (MainCall Tid T)) = P.items := by
    change puts (P.items.flatMap _) = _
    induction P.items with
    | nil => rfl
    | cons x rest ih =>
        rw [List.flatMap_cons, puts_append, ih]
        cases P.prints <;> rfl
  have hstops : puts (List.replicate threads.length (.put P.stop) : List (MainCall Tid T)) =
      List.replicate threads.length P.stop := by
    exact List.filterMap_replicate_of_some rfl
  have hjoins : puts (threads.map .join : List (MainCall Tid T)) = [] := by
    rw [puts, List.filterMap_map, List.filterMap_eq_nil_iff]
    exact fun _ _ => rfl
  rw [QueueProgram.calls, QueueProgram.joinAll, puts_append, puts_append, hrun, hstops, hjoins,
    List.append_nil]

theorem ordered_new (hnodup : threads.Nodup) (habsent : main ∉ threads) (P : QueueProgram T) :
    Ordered main threads P (new main threads P) where
  nodup := hnodup
  absent := habsent
  roles := by
    refine ⟨fun t => ?_, fun t hclient hstopped => ?_, fun t ht => Or.inl ?_⟩
    · by_cases htm : t = main
      · simp [new, htm]
      · by_cases ht : t ∈ threads <;> simp [new, htm, ht]
    · by_contra ht
      by_cases htm : t = main
      · simp [new, htm] at hclient
      · simp [new, htm, ht] at hstopped
    · exact List.mem_append_right _ (List.mem_append_right _ (List.mem_map_of_mem ht))
  fits := by
    intro t
    simp only [new]
    split
    · exact ⟨nofun, nofun, Or.inl rfl⟩
    · split <;> exact ⟨rfl, rfl⟩
  count := by
    have hbefore : tally (fun _ => before) (new main threads P).phase = threads.length := by
      rw [← sum_mem_eq_length hnodup]
      refine Finset.sum_congr rfl fun t _ => ?_
      by_cases ht : t ∈ threads
      · have htm : t ≠ main := by
          rintro rfl
          exact habsent ht
        simp [new, ht, htm, before]
      · by_cases htm : t = main <;> simp [new, ht, htm, before, habsent]
    have howed : (new main threads P).latch.owed = 0 := Finset.sum_eq_zero fun _ _ => rfl
    rw [hbefore, howed]
    rfl
  script := List.suffix_rfl
  pushed := puts_calls P threads
  heard := by
    intro t ht
    have htm : t ≠ main := by
      rintro rfl
      exact habsent ht
    simp only [new, if_neg htm, if_pos ht]
    exact fun y hy => absurd hy List.not_mem_nil
  takers _ _ := rfl

/-! ## One event -/

theorem before_update {phase : Tid → WorkerPhase T} {p : WorkerPhase T}
    (hp : before p = before (phase t)) :
    tally (fun _ => before) (Function.update phase t p) = tally (fun _ => before) phase :=
  Finset.sum_congr rfl fun u _ => apply_update (g := before) hp u

/-- `main` makes its next call, or returns from a `join`. -/
theorem Ordered.call (h : Ordered main threads P s) {call : MainCall Tid T}
    {rest : List (MainCall Tid T)} {q : BlockingQueue Tid T} {l : CountDownLatch Tid}
    (htodo : s.todo = call :: rest) (hjoin : ∀ t, call = .join t → s.phase t = .stopped)
    (hfits : ∀ t, Fits (s.phase t) (q.calls t) (l.calls t))
    (hcount : l.count = s.latch.count) (howed : l.owed = s.latch.owed)
    (htakes : q.takes = s.queue.takes)
    (hpushed : q.pushed.map Prod.snd ++ (q.calls main).pending ++ puts rest =
      s.queue.pushed.map Prod.snd ++ (s.queue.calls main).pending ++ puts s.todo) :
    Ordered main threads P { s with queue := q, latch := l, todo := rest } where
  nodup := h.nodup
  absent := h.absent
  roles := by
    have hroles := h.roles
    rw [htodo] at hroles
    exact hroles.tail hjoin
  fits := hfits
  count := by
    change l.count = (tally _ _ + l.owed : Nat)
    rw [hcount, howed]
    exact h.count
  script := by
    have hscript := h.script
    rw [htodo] at hscript
    exact (List.suffix_cons _ _).trans hscript
  pushed := hpushed.trans h.pushed
  heard t ht := by
    change Heard P (s.phase t) (callsOf t q.takes)
    rw [htakes]
    exact h.heard t ht
  takers t ht := by
    change callsOf t q.takes = []
    rw [htakes]
    exact h.takers t ht

/-- A worker goes on to the phase `p`. -/
theorem Ordered.goOn (h : Ordered main threads P s) {p : WorkerPhase T}
    {q : BlockingQueue Tid T} {l : CountDownLatch Tid} (hworker : t ∈ threads)
    (hstopped : s.phase t ≠ .stopped) (hp : p ≠ .client)
    (hfits : ∀ u, Fits (Function.update s.phase t p u) (q.calls u) (l.calls u))
    (hcount : l.count = ((tally (fun _ => before) (Function.update s.phase t p) + l.owed : Nat)))
    (htakes : ∀ u, u ≠ t → callsOf u q.takes = callsOf u s.queue.takes)
    (hpushed : q.pushed = s.queue.pushed)
    (hpending : (q.calls main).pending = (s.queue.calls main).pending)
    (hheard : Heard P (s.phase t) (callsOf t s.queue.takes) → Heard P p (callsOf t q.takes)) :
    Ordered main threads P
      { s with queue := q, latch := l, phase := Function.update s.phase t p } where
  nodup := h.nodup
  absent := h.absent
  roles := by
    refine h.roles.update (fun hclient => ?_) hstopped hp
    exact h.absent (((h.roles.client t).mp hclient) ▸ hworker)
  fits := hfits
  count := hcount
  script := h.script
  pushed := by
    change q.pushed.map Prod.snd ++ (q.calls main).pending ++ _ = _
    rw [hpushed, hpending]
    exact h.pushed
  heard u hu := by
    change Heard P (Function.update s.phase t p u) (callsOf u q.takes)
    by_cases hut : u = t
    · rw [hut, Function.update_self]
      exact hheard (h.heard t hworker)
    · rw [Function.update_of_ne hut, htakes u hut]
      exact h.heard u hu
  takers u hu := by
    have hut : u ≠ t := by
      rintro rfl
      exact hu hworker
    exact (htakes u hut).trans (h.takers u hu)

omit [DecidableEq Tid] [Fintype Tid] in
theorem idle_calls (hidle : s.Idle t) : s.queue.calls t = .none ∧ s.latch.calls t = .none :=
  ⟨BlockingQueue.call_eq_none.mpr hidle.1, LatchPlace.call_eq_none.mpr hidle.2⟩

theorem Ordered.wait (h : Ordered main threads P s) {rest : List (MainCall Tid T)}
    (hidle : s.Idle main) (htodo : s.todo = .wait :: rest) :
    Ordered main threads P { s with latch := s.latch.next (.wait main), todo := rest } := by
  have hclient := (h.roles.client main).mpr rfl
  refine h.call (l := s.latch.next (.wait main)) htodo nofun ?_ rfl ?_ rfl (by rw [htodo]; rfl)
  · rw [show (s.latch.next (.wait main)).calls = Function.update s.latch.calls main .waiting from
      calls_update ..]
    refine fits_latch h.fits ?_
    rw [hclient, (idle_calls hidle).1]
    exact ⟨nofun, nofun, Or.inl rfl⟩
  · have howed := CountDownLatch.owed_go s.latch main .waitLock
    rw [hidle.2] at howed
    exact howed

/-- `main` calls the queue. -/
theorem Ordered.callQueue (h : Ordered main threads P s) {call : MainCall Tid T}
    {rest : List (MainCall Tid T)} {p : BlockingQueue.Place T} (hidle : s.Idle main)
    (htodo : s.todo = call :: rest) (hjoin : ∀ t, call ≠ .join t)
    (hp : BlockingQueue.call p ≠ .taking)
    (hputs : (BlockingQueue.call p).pending ++ puts rest = puts (call :: rest)) :
    Ordered main threads P { s with queue := s.queue.go main p, todo := rest } := by
  have hclient := (h.roles.client main).mpr rfl
  obtain ⟨hqueue, hlatch⟩ := idle_calls hidle
  have hcalls : (s.queue.go main p).calls =
      Function.update s.queue.calls main (BlockingQueue.call p) := calls_update ..
  refine h.call (q := s.queue.go main p) htodo (fun t ht => absurd ht (hjoin t)) ?_ rfl rfl rfl ?_
  · rw [hcalls]
    refine fits_queue h.fits ?_
    rw [hclient, hlatch]
    exact ⟨hp, nofun, Or.inr rfl⟩
  · rw [hcalls, Function.update_self, hqueue, htodo, ← hputs, List.append_assoc]
    simp [BlockingQueue.Call.pending, BlockingQueue.go]

theorem Ordered.start (h : Ordered main threads P s) (hidle : s.Idle t)
    (hphase : s.phase t = .starting) :
    Ordered main threads P
      ({ s with latch := s.latch.next (.countDown t) }.setPhase t .counting) := by
  have hworker := h.roles.worker t (by rw [hphase]; nofun) (by rw [hphase]; nofun)
  refine h.goOn (l := s.latch.next (.countDown t)) hworker (by rw [hphase]; nofun) nofun ?_ ?_
    (fun _ _ => rfl) rfl rfl (by rw [hphase]; exact id)
  · rw [show (s.latch.next (.countDown t)).calls = Function.update s.latch.calls t .counting from
      calls_update ..]
    exact fits_phase_latch h.fits ⟨(idle_calls hidle).1, rfl⟩
  · have howed := CountDownLatch.owed_go s.latch t .downLock
    have hbefore := tally_move (fun _ => before) s.phase t .counting
    have hcount := h.count
    rw [hidle.2] at howed
    rw [hphase] at hbefore
    simp only [LatchPlace.owes, before] at howed hbefore
    change s.latch.count = (tally _ _ + (s.latch.go t .downLock).owed : Nat)
    omega

/-- A worker calls the queue. -/
theorem Ordered.workerCalls (h : Ordered main threads P s) {p : WorkerPhase T}
    {q : BlockingQueue.Place T} (hidle : s.Idle t) (hcalls : (s.phase t).calls = true)
    (hstart : before (s.phase t) = before p) (hfits : Fits p (BlockingQueue.call q) .none)
    (hpending : (BlockingQueue.call q).pending = []) (hp : p ≠ .client)
    (hheard : ∀ l, Heard P (s.phase t) l → Heard P p l) :
    Ordered main threads P ({ s with queue := s.queue.go t q }.setPhase t p) := by
  have hrunning : s.phase t ≠ .client ∧ s.phase t ≠ .stopped := by
    constructor <;> intro heq <;> rw [heq] at hcalls <;> cases hcalls
  have hqueue : (s.queue.go t q).calls =
      Function.update s.queue.calls t (BlockingQueue.call q) := calls_update ..
  refine h.goOn (q := s.queue.go t q) (h.roles.worker t hrunning.1 hrunning.2) hrunning.2 hp ?_
    (by rw [before_update hstart.symm]; exact h.count) (fun _ _ => rfl) rfl ?_ (hheard _)
  · rw [hqueue]
    exact fits_phase_queue h.fits (by rwa [(idle_calls hidle).2])
  · rw [hqueue]
    by_cases hmain : main = t
    · rw [hmain, Function.update_self, hpending, (idle_calls hidle).1]
      rfl
    · rw [Function.update_of_ne hmain]

/-- Something happens in a call at the latch, of which no phase ends. -/
theorem Ordered.latch_same (h : Ordered main threads P s) {e : LatchEvent Tid}
    (he : e.isCall = false) (hphase : s.afterLatch e = s.phase)
    (hfits : ∀ u, Fits (s.phase u) (s.queue.calls u) ((s.latch.next e).calls u)) :
    Ordered main threads P { s with latch := s.latch.next e, phase := s.afterLatch e } := by
  rw [hphase]
  refine { h with fits := hfits, count := ?_ }
  have howed := CountDownLatch.count_owed (s := s.latch) he
  have hcount := h.count
  change (s.latch.next e).count = (tally (fun _ => before) s.phase + (s.latch.next e).owed : Nat)
  omega

/-- Something happens in a call at the latch. -/
theorem Ordered.latch (h : Ordered main threads P s) {e : LatchEvent Tid}
    (he : e.isCall = false) :
    Ordered main threads P { s with latch := s.latch.next e, phase := s.afterLatch e } := by
  cases e with
  | wait | countDown => cases he
  | spurious t =>
      refine h.latch_same he rfl ?_
      rw [CountDownLatch.calls_spurious]
      exact h.fits
  | step t =>
      have hfits := h.fits t
      have hcalls := CountDownLatch.calls_step (s := s.latch) t
      have hstays : ∀ p : LatchPlace, p ≠ .downUnlock →
          Function.update s.phase t ((s.phase t).counted p) = s.phase := by
        intro p hp
        rw [show (s.phase t).counted p = s.phase t by
          cases s.phase t <;> cases p <;> first | rfl | exact absurd rfl hp]
        exact Function.update_eq_self ..
      cases hpc : s.latch.pc t with
      | downUnlock =>
          rw [CountDownLatch.calls, hpc] at hfits
          obtain ⟨hphase, hidle⟩ := hfits.of_counting
          have hworker := h.roles.worker t (by rw [hphase]; nofun) (by rw [hphase]; nofun)
          have hready : s.afterLatch (.step t) = Function.update s.phase t .ready := by
            rw [afterLatch, hpc, hphase]
            rfl
          rw [hready]
          refine h.goOn (l := s.latch.next (.step t)) hworker (by rw [hphase]; nofun) nofun ?_ ?_
            (fun _ _ => rfl) rfl rfl (by rw [hphase]; exact id)
          · rw [hcalls, hpc]
            exact fits_phase_latch h.fits ⟨hidle, rfl⟩
          · have howed := CountDownLatch.count_owed (s := s.latch) he
            have hcount := h.count
            rw [before_update (by rw [hphase]; rfl)]
            omega
      | waitUnlock =>
          rw [CountDownLatch.calls, hpc] at hfits
          obtain ⟨hphase, hidle⟩ := hfits.of_waiting
          refine h.latch_same he ?_ ?_
          · rw [afterLatch, hpc]
            exact hstays _ nofun
          · rw [hcalls, hpc]
            refine fits_latch h.fits ?_
            rw [hphase, show s.queue.calls t = .none from hidle]
            exact ⟨nofun, nofun, Or.inl rfl⟩
      | _ =>
          refine h.latch_same he ?_ ?_
          · rw [afterLatch, hpc]
            exact hstays _ nofun
          · rw [hcalls, hpc]
            exact h.fits

/-- Something happens in a call at the queue, of which no phase ends. -/
theorem Ordered.queue_same (h : Ordered main threads P s) {a : BlockingQueue.Event Tid T}
    {q : BlockingQueue Tid T} (hphase : s.afterQueue P a = s.phase)
    (hfits : ∀ u, Fits (s.phase u) (q.calls u) (s.latch.calls u))
    (htakes : q.takes = s.queue.takes)
    (hpushed : q.pushed.map Prod.snd ++ (q.calls main).pending =
      s.queue.pushed.map Prod.snd ++ (s.queue.calls main).pending) :
    Ordered main threads P { s with queue := q, phase := s.afterQueue P a } := by
  rw [hphase]
  refine { h with fits := hfits, pushed := ?_, heard := ?_, takers := ?_ }
  · change q.pushed.map Prod.snd ++ (q.calls main).pending ++ _ = _
    rw [hpushed]
    exact h.pushed
  · intro t ht
    change Heard P _ (callsOf t q.takes)
    rw [htakes]
    exact h.heard t ht
  · intro t ht
    change callsOf t q.takes = []
    rw [htakes]
    exact h.takers t ht

omit [DecidableEq Tid] [Fintype Tid] in
/-- Only the end of a `take` or a `size` ends a phase. -/
theorem returned_eq {p : WorkerPhase T} {q : BlockingQueue.Place T}
    (htake : ∀ x, q ≠ .takeUnlock x) (hsize : ∀ n, q ≠ .sizeUnlock n) : P.returned p q = p := by
  cases p <;> cases q <;>
    first | rfl | exact absurd rfl (htake _) | exact absurd rfl (hsize _)

omit [Fintype Tid] in
theorem afterQueue_eq (htake : ∀ x, s.queue.pc t ≠ .takeUnlock x)
    (hsize : ∀ n, s.queue.pc t ≠ .sizeUnlock n) : s.afterQueue P (.step t) = s.phase := by
  rw [afterQueue, returned_eq htake hsize]
  exact Function.update_eq_self ..

theorem Ordered.taken (h : Ordered main threads P s) {q : BlockingQueue Tid T} {x : T}
    (hpc : s.queue.pc t = .takeUnlock x)
    (hcalls : q.calls = Function.update s.queue.calls t .none)
    (hpushed : q.pushed = s.queue.pushed) (htakes : q.takes = s.queue.takes ++ [(t, x)]) :
    Ordered main threads P { s with queue := q, phase := s.afterQueue P (.step t) } := by
  have hfits := h.fits t
  rw [BlockingQueue.calls, hpc] at hfits
  obtain ⟨hphase, hlatch⟩ := hfits.of_taking
  have hgot : s.afterQueue P (.step t) = Function.update s.phase t (P.got x) := by
    rw [afterQueue, hpc, hphase]
    rfl
  have hcases : P.got x = .printing x ∨ P.got x = .ready ∨ P.got x = .stopped := by
    unfold QueueProgram.got QueueProgram.again
    split <;> first | exact Or.inl rfl | (split <;> simp)
  have hmain : main ≠ t := by
    rintro rfl
    rw [(h.roles.client main).mpr rfl] at hphase
    cases hphase
  rw [hgot]
  refine h.goOn (h.roles.worker t (by rw [hphase]; nofun) (by rw [hphase]; nofun))
    (by rw [hphase]; nofun) ?_ ?_ ?_ ?_ hpushed ?_ ?_
  · rcases hcases with h | h | h <;> rw [h] <;> nofun
  · rw [hcalls]
    refine fits_phase_queue h.fits ?_
    rw [show s.latch.calls t = .none from hlatch]
    rcases hcases with h | h | h <;> rw [h] <;> exact ⟨rfl, rfl⟩
  · rw [before_update (by rcases hcases with h | h | h <;> rw [h, hphase] <;> rfl)]
    exact h.count
  · intro u hu
    rw [htakes, callsOf_snoc_ne hu]
  · rw [hcalls, Function.update_of_ne hmain]
  · rw [htakes, callsOf_snoc_self, hphase]
    exact fun hheard => heard_got hheard x

theorem Ordered.sized (h : Ordered main threads P s) {q : BlockingQueue Tid T} {n : Nat}
    (hpc : s.queue.pc t = .sizeUnlock n)
    (hcalls : q.calls = Function.update s.queue.calls t .none)
    (hpushed : q.pushed = s.queue.pushed) (htakes : q.takes = s.queue.takes) :
    Ordered main threads P { s with queue := q, phase := s.afterQueue P (.step t) } := by
  have hfits := h.fits t
  rw [BlockingQueue.calls, hpc] at hfits
  obtain ⟨hphase, hlatch⟩ := hfits.of_sizing
  have hpending : (q.calls main).pending = (s.queue.calls main).pending := by
    rw [hcalls]
    by_cases hmain : main = t
    · rw [hmain, Function.update_self, BlockingQueue.calls, hpc]
      rfl
    · rw [Function.update_of_ne hmain]
  rcases hphase with hphase | ⟨x, hphase⟩
  · have hstays : s.afterQueue P (.step t) = s.phase := by
      rw [afterQueue, hpc, hphase]
      exact (congrArg _ hphase.symm).trans (Function.update_eq_self ..)
    refine h.queue_same hstays ?_ htakes (by rw [hpushed, hpending])
    rw [hcalls]
    refine fits_queue h.fits ?_
    rw [hphase, show s.latch.calls t = .none from hlatch]
    exact ⟨nofun, nofun, Or.inl rfl⟩
  · have hagain : s.afterQueue P (.step t) = Function.update s.phase t (P.again x) := by
      rw [afterQueue, hpc, hphase]
      rfl
    have hcases : P.again x = .ready ∨ P.again x = .stopped := by
      unfold QueueProgram.again
      split <;> simp
    rw [hagain]
    refine h.goOn (h.roles.worker t (by rw [hphase]; nofun) (by rw [hphase]; nofun))
      (by rw [hphase]; nofun) ?_ ?_ ?_ (fun _ _ => by rw [htakes]) hpushed hpending ?_
    · rcases hcases with h | h <;> rw [h] <;> nofun
    · rw [hcalls]
      refine fits_phase_queue h.fits ?_
      rw [show s.latch.calls t = .none from hlatch]
      rcases hcases with h | h <;> rw [h] <;> exact ⟨rfl, rfl⟩
    · rw [before_update (by rcases hcases with h | h <;> rw [h, hphase] <;> rfl)]
      exact h.count
    · rw [htakes, hphase]
      exact heard_again

/-- Something happens in a call at the queue. -/
theorem Ordered.queue (h : Ordered main threads P s) {a : BlockingQueue.Event Tid T}
    {q : BlockingQueue Tid T} (ha : a.isCall = false) (hd : BlockingQueue.Deed s.queue q a) :
    Ordered main threads P { s with queue := q, phase := s.afterQueue P a } := by
  cases hd with
  | call hc => cases hc <;> cases ha
  | quiet _ hstay hcalls hpushed htakes =>
      refine h.queue_same ?_ (by rw [hcalls]; exact h.fits) htakes (by rw [hpushed, hcalls])
      cases a with
      | step t =>
          have hout := hstay t rfl
          refine afterQueue_eq (fun x hx => ?_) (fun n hn => ?_)
          · rw [hx] at hout
            cases hout
          · rw [hn] at hout
            cases hout
      | notify | spurious => rfl
      | put | take | size => cases ha
  | @push t x hpc hcalls hpushed htakes =>
      have hfits := h.fits t
      rw [BlockingQueue.calls, hpc] at hfits
      obtain ⟨hphase, hlatch⟩ := hfits.of_pushing
      obtain rfl := (h.roles.client t).mp hphase
      refine h.queue_same (afterQueue_eq (by rw [hpc]; nofun) (by rw [hpc]; nofun)) ?_ htakes ?_
      · rw [hcalls]
        refine fits_queue h.fits ?_
        rw [hphase, show s.latch.calls t = .none from hlatch]
        exact ⟨nofun, nofun, Or.inr rfl⟩
      · rw [hpushed, hcalls, Function.update_self, BlockingQueue.calls, hpc]
        simp [BlockingQueue.call, BlockingQueue.Call.pending]
  | @put t x hpc hcalls hpushed htakes =>
      have hfits := h.fits t
      rw [BlockingQueue.calls, hpc] at hfits
      obtain ⟨hphase, hlatch⟩ := hfits.of_pushed
      obtain rfl := (h.roles.client t).mp hphase
      refine h.queue_same (afterQueue_eq (by rw [hpc]; nofun) (by rw [hpc]; nofun)) ?_ htakes ?_
      · rw [hcalls]
        refine fits_queue h.fits ?_
        rw [hphase, show s.latch.calls t = .none from hlatch]
        exact ⟨nofun, nofun, Or.inl rfl⟩
      · rw [hpushed, hcalls, Function.update_self, BlockingQueue.calls, hpc]
        rfl
  | taken hpc hcalls hpushed htakes => exact h.taken hpc hcalls hpushed htakes
  | sized hpc hcalls hpushed htakes => exact h.sized hpc hcalls hpushed htakes

/-- **One event.** -/
theorem Ordered.step (h : Ordered main threads P s) (m : Move main P s a s') :
    Ordered main threads P s' := by
  cases m with
  | wait hidle htodo => exact h.wait hidle htodo
  | put hidle htodo hq =>
      obtain rfl := Except.ok.inj hq
      exact h.callQueue hidle htodo nofun nofun rfl
  | size hidle htodo hq =>
      obtain rfl := Except.ok.inj hq
      exact h.callQueue hidle htodo nofun nofun rfl
  | join htodo hstopped =>
      refine h.call (q := s.queue) (l := s.latch) htodo ?_ h.fits rfl rfl rfl (by rw [htodo]; rfl)
      intro u hu
      rwa [← MainCall.join.inj hu]
  | start hidle hphase => exact h.start hidle hphase
  | take hidle hphase hq =>
      obtain rfl := Except.ok.inj hq
      exact h.workerCalls (q := .takeLock) hidle (by rw [hphase]; rfl) (by rw [hphase]; rfl)
        ⟨rfl, rfl⟩ rfl nofun (fun _ => by rw [hphase]; exact id)
  | print hidle hphase hq =>
      obtain rfl := Except.ok.inj hq
      exact h.workerCalls (q := .sizeLock) hidle (by rw [hphase]; rfl) (by rw [hphase]; rfl)
        ⟨rfl, rfl⟩ rfl nofun (fun _ => by rw [hphase]; exact id)
  | queue ha he hq =>
      exact h.queue ha (BlockingQueue.deed_of_move (BlockingQueue.move_of_next he hq))
  | latch he _ => exact h.latch he

end QueueRun

end Muduo
