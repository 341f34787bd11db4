import Muduo.Server.Stage

/-!
# The server's destructor

`~TcpServer` hands every connection its `connectDestroyed`, but leaves their
`closeCallback_`s bound to the server: a connection whose `handleClose`
begins before its `connectDestroyed` runs has the acceptor's loop run a
`removeConnectionInLoop` on a server destroyed (`called_after_destruction`).
And a loop that is asked to quit during a pass ends with it, and drops what
has been queued since. When neither happens, nothing is called on a server
destroyed, and every connection gets one `connectDestroyed`
(`destroyed_once`).
-/

namespace Muduo

open Lib

namespace TcpServer

/-! ## No close is under way -/

/-- Every `handleClose` of the connection has had its `removeConnectionInLoop`. -/
def Settled (a : Account) : Prop :=
  a.history.count .handleClose = a.history.count .removeConnectionInLoop

variable {a b : Account} {K : Irregular → Prop}

theorem Settled.none (h : Settled a) (hb : Books a) :
    a.stack.count .closing = 0 ∧ a.removals = 0 := by
  have hclosing := hb.counts.closing
  unfold Settled at h
  omega

theorem Settled.snoc (h : Settled a) {m : Mark} (hb : b.history = a.history ++ [m])
    (hclose : m ≠ .handleClose) (hremove : m ≠ .removeConnectionInLoop) : Settled b := by
  rw [Settled, hb, count_snoc hclose, count_snoc hremove]
  exact h

theorem Settled.move (h : Settled a) (hb : Books a) (hclosing : ¬K .closing) (hm : Move K a b) :
    Settled b := by
  cases hm with
  | established _ _ _ => exact h.snoc rfl (by simp) (by simp)
  | read _ _ => exact h.snoc rfl (by simp) (by simp)
  | close kind _ _ _ => exact absurd kind hclosing
  | removed removals _ =>
      rw [(h.none hb).2] at removals
      cases removals
  | closed _ => exact h.snoc rfl (by simp) (by simp)
  | dropped _ _ => exact h.snoc rfl (by simp) (by simp)
  | destroying _ _ => exact h.snoc rfl (by simp) (by simp)
  | destroyed _ _ _ => simpa [Settled] using h
  | finished _ => exact h.snoc rfl (by simp) (by simp)
  | _ => exact h

/-- Nothing drops a connection but `~TcpServer`. -/
theorem undropped_move (h : a.history.count .dropped = 0) (horph : ¬K .orphaned)
    (hm : Move K a b) : b.history.count .dropped = 0 := by
  cases hm with
  | dropped kind _ => exact absurd kind horph
  | established _ _ _ => exact (count_snoc (by simp)).trans h
  | read _ _ => exact (count_snoc (by simp)).trans h
  | close _ _ _ _ => exact (count_snoc (by simp)).trans h
  | removed _ _ => exact (count_snoc (by simp)).trans h
  | closed _ => exact (count_snoc (by simp)).trans h
  | destroying _ _ => exact (count_snoc (by simp)).trans h
  | destroyed _ _ _ => simpa using h
  | finished _ => exact (count_snoc (by simp)).trans h
  | _ => exact h

/-! ## The stage goes on -/

variable {Tid : Type} {s s' : TcpServer Tid} {l c : Nat}

theorem stage_destructor {f : Frame} {fs : List Frame} (hf : f.isDestructor = true) :
    (s.setStack 0 (f :: fs)).stage ≠ .up := by
  intro h
  cases halive : s.alive with
  | true =>
      cases f with
      | conn p c => cases hf
      | destructor =>
          rw [stage_setStack rfl halive] at h
          cases h
      | quitting i =>
          rw [stage_setStack rfl halive] at h
          cases h
      | joining i =>
          rw [stage_setStack rfl halive] at h
          cases h
  | false =>
      rw [stage, if_neg (by simp [setStack, setLoop, halive])] at h
      cases h

theorem stage_step (hp : s.Placed) (hup : s.stage ≠ .up) (hn : s.step l = .ok s') :
    s'.stage ≠ .up := by
  cases goes_of_step hn with
  | nowhere _ hs' => exact hs' ▸ hup
  | conn hs heffect =>
      rw [heffect.stage, stage_leave hs]
      exact hup
  | drop _ _ hdrop =>
      rw [(effect_drop hdrop).stage]
      exact hup
  | emptied hs _ hs' =>
      obtain rfl : l = 0 := (hp.top hs).1
      exact hs' ▸ stage_destructor rfl
  | quits hs _ hs' =>
      obtain rfl : l = 0 := (hp.top hs).1
      exact hs' ▸ stage_destructor rfl
  | ended _ _ hs' =>
      subst hs'
      simp [stage]
  | joined hs hs' =>
      obtain rfl : l = 0 := (hp.top hs).1
      exact hs' ▸ stage_destructor rfl

/-! ## Loops -/

/-- Connections are given to loops of the pool. -/
structure Housed (s : TcpServer Tid) : Prop where
  loop : ∀ c < s.created, (s.conn c).loop ≤ s.numThreads
  next_ : s.numThreads = 0 ∨ s.next_ < s.numThreads

theorem Housed.static (h : s.Housed) (hstatic : Static s s') : s'.Housed where
  loop c hc := by
    rw [hstatic.created] at hc
    rw [(hstatic.conn c).1, hstatic.numThreads]
    exact h.loop c hc
  next_ := by
    rw [hstatic.numThreads, hstatic.next_]
    exact h.next_

theorem getNextLoop_le (h : s.numThreads = 0 ∨ s.next_ < s.numThreads) :
    s.getNextLoop.1 ≤ s.numThreads ∧ (s.numThreads = 0 ∨ s.getNextLoop.2 < s.numThreads) := by
  unfold getNextLoop
  split
  · rename_i hnone
    exact ⟨Nat.zero_le _, Or.inl hnone⟩
  · rename_i hsome
    refine ⟨h.resolve_left hsome, Or.inr ?_⟩
    dsimp only
    split <;> omega

theorem Housed.create (h : s.Housed) : s.create.Housed where
  loop c hc := by
    rcases Nat.lt_or_eq_of_le (Nat.le_of_lt_succ hc) with hc | rfl
    · rw [conn_create_ne hc]
      exact h.loop c hc
    · rw [conn_create_self]
      exact (getNextLoop_le h.next_).1
  next_ := (getNextLoop_le h.next_).2

/-! ## Runs without a late close -/

structure Undisturbed (s : TcpServer Tid) : Prop where
  ends : s.Ends
  settled : s.stage ≠ .up → ∀ c < s.created, Settled (s.account c)
  undropped : s.stage = .up → ∀ c < s.created, (s.account c).history.count .dropped = 0

theorem Undisturbed.quiet (h : s.Undisturbed) (hb : ∀ c < s.created, Books (s.account c)) :
    s.Quiet := fun hup c hc => (h.settled hup c hc).none (hb c hc)

/-- When `~TcpServer` begins, every `handleClose` is over: the connection is still
in `connections_` and up, or not there yet, or it is there no longer. -/
theorem settled_of_calm (hb : Books (s.account c)) (hC : s.Calm .destroy)
    (hdropped : (s.account c).history.count .dropped = 0) : Settled (s.account c) := by
  have hentries := hb.counts.entries
  have hclosing := hb.counts.closing
  have honce := hb.counts.once
  unfold Settled
  by_cases hmem : c ∈ s.connections.map Prod.snd
  · obtain ⟨e, he, rfl⟩ := List.mem_map.mp hmem
    have hnone : (s.account e.2).history.count .handleClose = 0 := by
      rcases hC.2 e he with hstate | hinterest
      · exact hb.down (Or.inr hstate)
      · exact (hb.interest hinterest).2.2
    omega
  · have hzero : (s.account c).entries = 0 := List.count_eq_zero.mpr hmem
    omega

/-! ## The end of it -/

theorem count_functors : (s.account c).functors.count .connectDestroyed =
    (s.loop (s.conn c).loop).functors.queued.count ⟨.connectDestroyed, c⟩ := by
  change (List.filterMap _ _).count _ = _
  rw [List.count_filterMap, List.count_eq_countP]
  refine List.countP_congr fun f _ => ?_
  obtain ⟨m, c'⟩ := f
  simp only [Functor.of, beq_iff_eq]
  constructor
  · intro hof
    split at hof
    · rename_i hconn
      cases hof
      rw [hconn.1]
    · cases hof
  · rintro ⟨⟩
    simp

theorem destroyed_of_over (h : s.Undisturbed) (hhoused : s.Housed) (hb : Books (s.account c))
    (hc : c < s.created) (hover : s.alive = false) : (s.marks c).count .connectDestroyed +
      (if (s.conn c).loop = 0 then (s.loop 0).functors.queued.count ⟨.connectDestroyed, c⟩
        else 0) = 1 := by
  have hst : s.stage = .ended := by
    rw [stage, if_neg (by simp [hover])]
  have hempty : s.connections = [] := h.ends.emptied (by rw [hst]; rfl)
  have hnone : (s.account c).entries = 0 := by
    change (s.connections.map Prod.snd).count c = 0
    rw [hempty]
    rfl
  have hentries := hb.counts.entries
  have hdestroyed : _ = _ + (s.marks c).count .connectDestroyed := hb.counts.destroyed
  rw [count_functors] at hdestroyed
  by_cases hl : (s.conn c).loop = 0
  · rw [if_pos hl]
    rw [hl] at hdestroyed
    omega
  · have hexited : (s.loop (s.conn c).loop).exited = true := by
      refine h.ends.joined _ (Nat.one_le_iff_ne_zero.mpr hl) ?_
      rw [hst]
      exact hhoused.loop c hc
    have hgone : (s.loop (s.conn c).loop).functors.queued.count ⟨.connectDestroyed, c⟩ = 0 := by
      rw [List.count_eq_zero]
      intro hmem
      exact (h.ends.loops _).gone hexited _ hmem rfl
    rw [if_neg hl]
    omega

/-! ## Nothing is called on a server destroyed -/

theorem connectEstablished_undestroyed : s.connectEstablished l c ≠ .error .destroyed := by
  intro h
  rcases bind_eq_error h with h | ⟨_, _, h⟩
  · cases (check_eq_error h).2
  · rcases bind_eq_error h with h | ⟨_, _, h⟩
    · cases hlife : (s.conn c).life.connectEstablished <;> rw [hlife] at h <;> cases h
    · cases h

theorem connectDestroyed_undestroyed : s.connectDestroyed l c ≠ .error .destroyed := by
  intro h
  rcases bind_eq_error h with h | ⟨_, _, h⟩
  · cases (check_eq_error h).2
  · dsimp only at h
    split at h <;> cases h

theorem removeConnectionInLoop_destroyed (h : s.removeConnectionInLoop l c = .error .destroyed) :
    s.alive ≠ true := by
  rcases bind_eq_error h with h | ⟨_, _, h⟩
  · exact (check_eq_error h).1
  · rcases bind_eq_error h with h | ⟨_, _, h⟩
    · cases (check_eq_error h).2
    · rcases bind_eq_error h with h | ⟨_, _, h⟩
      · cases (check_eq_error h).2
      · cases h

/-- Only the functions bound to the server are called on it. -/
theorem call_destroyed {f : Functor} (h : s.call l f = .error .destroyed) :
    f.method = .removeConnectionInLoop ∧ s.alive ≠ true := by
  unfold call at h
  split at h
  · exact absurd h connectEstablished_undestroyed
  · exact absurd h connectDestroyed_undestroyed
  · rename_i hm
    exact ⟨hm, removeConnectionInLoop_destroyed h⟩

theorem runInLoop_destroyed {caller : Nat} {f : Functor}
    (h : s.runInLoop caller l f = .error .destroyed) :
    f.method = .removeConnectionInLoop ∧ s.alive ≠ true := by
  unfold runInLoop at h
  split at h
  · exact call_destroyed h
  · cases h

theorem removeConnection_destroyed (h : s.removeConnection l c = .error .destroyed) :
    s.alive ≠ true := by
  rcases bind_eq_error h with h | ⟨_, _, h⟩
  · exact (check_eq_error h).1
  · exact (runInLoop_destroyed h).2

theorem step_destroyed (h : s.step l = .error .destroyed) :
    (∃ c fs, (s.loop l).stack = .conn .closing c :: fs) ∧ s.alive ≠ true := by
  unfold step at h
  split at h
  case h_4 c fs hs => exact ⟨⟨c, fs, hs⟩, removeConnection_destroyed (s := s.setStack l _) h⟩
  case h_8 =>
    split at h
    · cases (runInLoop_destroyed h).1
    · cases h
  case h_9 => split at h <;> cases h
  all_goals cases h

/-! ## Events -/

variable [DecidableEq Tid] {a : Event Tid}

/-- Once `~TcpServer` has begun, the server is not up again. -/
theorem stage_next (hp : s.Placed) (hup : s.stage ≠ .up) (he : s.enabled a = true)
    (hn : s.next a = .ok s') : s'.stage ≠ .up := by
  cases a with
  | newConnection => exact absurd (stage_newConnection he) hup
  | read c =>
      cases hn
      rwa [(effect_record.trans effect_enter).stage]
  | close c =>
      obtain ⟨life, _, rfl⟩ := handleClose_ok hn
      rwa [((effect_setLife.trans effect_record).trans effect_enter).stage]
  | step l => exact stage_step hp hup hn
  | swap l =>
      cases hn
      rwa [effect_setFunctors.stage]
  | functor l =>
      simp only [next] at hn
      split at hn
      · cases hn
        exact hup
      · rwa [(effect_setFunctors.trans (effect_call hn)).stage]
  | finish l =>
      cases hn
      rw [stage_setLoop]
      · exact hup
      · rfl
  | destroy =>
      cases hn
      exact stage_destructor rfl
  | shutdown c =>
      cases hn
      rwa [effect_setLife.stage]
  | shutdownTest t c =>
      cases hn
      split <;> exact hup
  | shutdownSet t c =>
      cases hn
      exact hup

theorem Housed.next (h : s.Housed) (hn : s.next a = .ok s') : s'.Housed := by
  by_cases ha : a = .newConnection
  · subst ha
    exact h.create.static (effect_runInLoop hn).toStatic
  · exact h.static (static_next ha hn)

theorem housed_reachable (hs : system.Reachable s) : s.Housed := by
  have hinv : (system : Lts (TcpServer Tid) _ _).Invariant Housed := {
    init := by
      rintro s ⟨name, hostport, numThreads, rfl⟩
      exact ⟨fun c hc => (by cases hc), Nat.eq_zero_or_pos numThreads⟩
    step := fun s a s' h _ hn => h.next hn }
  exact hinv.reachable hs

theorem Undisturbed.next (h : s.Undisturbed) (hp : s.Placed) (hd : s.Distinct)
    (hb : ∀ c < s.created, Books (s.account c)) (he : s.enabled a = true) (hC : s.Calm a)
    (hn : s.next a = .ok s') : s'.Undisturbed := by
  have hover := not_overwritten hd hC.1
  refine ⟨h.ends.next hp (h.quiet hb) he hC hn, fun hup' c hc => ?_, fun hup' c hc => ?_⟩
  · by_cases hup : s.stage = .up
    · have hstanding := standing_of_stage hp hup
      obtain rfl : a = .destroy := by
        by_contra ha
        exact hup' (stage_standing (hstanding.next ha hn))
      cases hn
      rw [account_enter rfl]
      exact settled_of_calm (hb c hc) hC (h.undropped hup c hc)
    · have ha : a ≠ .newConnection := by
        rintro rfl
        exact hup (stage_newConnection he)
      have hclosing : ¬s.irregular a .closing := by
        rintro ⟨c, rfl⟩
        exact hup (stage_standing (standing_of_not_destructing hp hC.2).1)
      have hold : c < s.created := (static_next ha hn).created ▸ hc
      have hsteps := steps_of_next hp he hn hc
      rw [origin, if_pos hold] at hsteps
      have hboth : Books (s'.account c) ∧ Settled (s'.account c) := by
        refine hsteps.invariant (I := fun a => Books a ∧ Settled a) (fun a b hI hm => ?_)
          ⟨hb c hold, h.settled hup c hold⟩
        exact ⟨hI.1.move hover hm, hI.2.move hI.1 hclosing hm⟩
      exact hboth.2
  · have hup : s.stage = .up := by
      by_contra hup
      exact stage_next hp hup he hn hup'
    have horph : ¬s.irregular a .orphaned := by
      intro hmem
      cases (standing_of_stage hp hup).stack 0 _ hmem
    have horigin : (s.origin c).history.count .dropped = 0 := by
      unfold origin
      split
      · rename_i hold
        exact h.undropped hup c hold
      · rfl
    have hsteps := steps_of_next hp he hn hc
    exact hsteps.invariant (I := fun a => a.history.count .dropped = 0)
      (fun a b hI hm => undropped_move hI horph hm) horigin

theorem undisturbed_reachable (hs : (system.guarded Calm).Reachable s) : s.Undisturbed := by
  refine hs.invariant (I := Undisturbed) ?_ fun s a s' hs h he hn => ?_
  · rintro s ⟨name, hostport, numThreads, rfl⟩
    exact ⟨ends_new, fun _ c hc => (by cases hc), fun _ c hc => by cases hc⟩
  · have hp := placed_reachable hs.of_guarded
    have hd := distinct_reachable (fun _ _ (h : Calm _ _) => h.1) hs
    have hb (c : Nat) (hc : c < s.created) : Books (s.account c) :=
      books_reachable (fun _ _ (h : Calm _ _) => h.1) hs hc
    exact h.next hp hd hb he.1 he.2 hn

theorem not_destroyed (hp : s.Placed) (hquiet : s.Quiet) : s.next a ≠ .error .destroyed := by
  intro h
  have halive (hup : s.stage = .up) : s.alive = true := (standing_of_stage hp hup).alive
  cases a with
  | newConnection => cases (runInLoop_destroyed h).1
  | close c =>
      rcases bind_eq_error h with h | ⟨_, _, h⟩
      · cases hlife : (s.conn c).life.handleClose <;> rw [hlife] at h <;> cases h
      · cases h
  | step l =>
      obtain ⟨⟨c, fs, hs⟩, hnot⟩ := step_destroyed h
      exact hnot (halive (hquiet.not_closing hp hs))
  | functor l =>
      simp only [next] at h
      split at h
      · cases h
      · rename_i f fs hf
        obtain ⟨hm, hnot⟩ := call_destroyed h
        obtain ⟨m, c⟩ := f
        obtain rfl : m = _ := hm
        exact hnot (halive (hquiet.not_removing hp hf))
  | _ => cases h

/-! ## Whole runs -/

/-- No function bound to the server is called once its destructor has returned,
and by then every connection has had its one `connectDestroyed`, or will have
it in the acceptor's loop. -/
structure DestroyedOnce (s : TcpServer Tid) : Prop where
  safe : ∀ a, s.enabled a = true → s.next a ≠ .error .destroyed
  atMostOnce : ∀ c < s.created, (s.marks c).count .connectDestroyed ≤ 1
  once : s.alive = false → ∀ c < s.created, (s.marks c).count .connectDestroyed +
    (if (s.conn c).loop = 0 then (s.loop 0).functors.queued.count ⟨.connectDestroyed, c⟩
      else 0) = 1

/-- **Nothing is called on a server destroyed**, in every run in which no
`handleClose` is under way when `~TcpServer` begins or begins after it, and no
loop is asked to quit in a pass with a `connectDestroyed` queued behind it. -/
theorem destroyed_once (hs : (system.guarded Calm).Reachable s) : s.DestroyedOnce := by
  have hp := placed_reachable hs.of_guarded
  have hb (c : Nat) (hc : c < s.created) : Books (s.account c) :=
    books_reachable (fun _ _ (h : Calm _ _) => h.1) hs hc
  have h := undisturbed_reachable hs
  constructor
  case safe => exact fun a _ => not_destroyed hp (h.quiet hb)
  case atMostOnce =>
    intro c hc
    have hentries := (hb c hc).counts.entries
    have hdestroyed : _ = _ + (s.marks c).count .connectDestroyed := (hb c hc).counts.destroyed
    omega
  case once =>
    intro hover c hc
    exact destroyed_of_over h (housed_reachable hs.of_guarded) (hb c hc) hc hover

/-- `~TcpServer` with a connection up in its I/O loop, which runs the
`connectDestroyed` after it has been told to quit. -/
theorem destroyed_once_dropped : ∃ s : TcpServer Nat, s.alive = false ∧
    (s.loop 1).exited = true ∧ (s.conn 0).history = [(1, .connectEstablished), (0, .dropped),
      (1, .connectDestroyed), (1, .destroyed)] ∧ s.DestroyedOnce := by
  let L : Lts (TcpServer Nat) (Event Nat) Fault := system.guarded Calm
  have h₀ : L.Reachable (new [] [] 1) := .of_init ⟨[], [], 1, rfl⟩
  have h₁ := h₀.step (a := Event.newConnection) ⟨rfl, fun c hc => (by cases hc), trivial⟩ rfl
  have h₂ := h₁.step (a := Event.swap 1) ⟨rfl, trivial, trivial⟩ rfl
  have h₃ := h₂.step (a := Event.functor 1) ⟨rfl, trivial, trivial⟩ rfl
  have h₄ := h₃.step (a := Event.step 1) ⟨rfl, trivial, trivial⟩ rfl
  have h₅ := h₄.step (a := Event.finish 1) ⟨rfl, trivial, trivial⟩ rfl
  have h₆ := h₅.step (a := Event.destroy)
    ⟨rfl, trivial, fun e he => Or.inr (by rw [List.mem_singleton.mp he]; rfl)⟩ rfl
  have h₇ := h₆.step (a := Event.step 0) ⟨rfl, trivial, trivial⟩ rfl
  have h₈ := h₇.step (a := Event.step 0) ⟨rfl, trivial, trivial⟩ rfl
  have h₉ := h₈.step (a := Event.step 0) ⟨rfl, trivial, fun _ => Or.inl rfl⟩ rfl
  have h₁₀ := h₉.step (a := Event.swap 1) ⟨rfl, trivial, trivial⟩ rfl
  have h₁₁ := h₁₀.step (a := Event.functor 1) ⟨rfl, trivial, trivial⟩ rfl
  have h₁₂ := h₁₁.step (a := Event.step 1) ⟨rfl, trivial, trivial⟩ rfl
  have h₁₃ := h₁₂.step (a := Event.step 1) ⟨rfl, trivial, trivial⟩ rfl
  have h₁₄ := h₁₃.step (a := Event.finish 1) ⟨rfl, trivial, trivial⟩ rfl
  have h₁₅ := h₁₄.step (a := Event.step 0) ⟨rfl, trivial, trivial⟩ rfl
  have h₁₆ := h₁₅.step (a := Event.step 0) ⟨rfl, trivial, fun hi => absurd hi (by decide)⟩ rfl
  exact ⟨_, rfl, rfl, rfl, destroyed_once h₁₆⟩

/-- The peer closes between `~TcpServer`'s queueing `connectDestroyed` and the I/O
loop's running it. -/
theorem called_after_destruction :
    ¬∀ s : TcpServer Nat, system.Reachable s → s.DestroyedOnce := by
  intro h
  obtain ⟨s, hrun, he, hn⟩ := Lts.exists_fault_of_exec (L := system) (new [] [] 1 : TcpServer Nat)
    [.newConnection, .swap 1, .functor 1, .step 1, .finish 1, .destroy, .step 0, .close 0, .step 0,
      .step 0, .step 1, .step 1, .swap 1, .functor 1, .finish 1, .step 0, .step 0, .swap 0]
    (.functor 0) .destroyed (by decide +kernel)
  exact (h s ⟨_, _, ⟨[], [], 1, rfl⟩, hrun⟩).safe _ he hn

/-- A `connectDestroyed` queued in a pass that is the loop's last is never run. -/
example : ((system.exec (new [] [] 1 : TcpServer Nat)
    [.newConnection, .swap 1, .functor 1, .step 1, .destroy, .step 0, .step 0, .step 0, .finish 1,
      .step 0, .step 0]).map fun s => (s.alive, (s.loop 1).exited, s.marks 0)) =
    some (false, true, [.connectEstablished, .dropped]) := by decide +kernel

end TcpServer

end Muduo
