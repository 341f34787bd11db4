import Muduo.Link.Outliving

/-!
# No more than is needed

The converse of `outlasts_functors`. When an event goes against the side
condition, a functor bound to `this` is left with nothing that is sure to
keep the connection until it runs. Then there is a way on to where one is next
and the connection is gone (`leads_of_not_careful`): the loop leaves the
functions it is in, runs what is left of its pass, and ends the pass, with which
the last pointer bound goes.

The loop must not fault on this way. It could only in `connectEstablished`, and
as long as that waits no caller has been able to queue anything (`Early`).
-/

namespace Muduo

open Lib

namespace Link

variable {Tid : Type} {s s' : Link Tid}

/-- The next functor is bound to `this`, and the connection is gone. -/
def Stranded (s : Link Tid) : Prop := ∃ f fs, s.functors.todo = .raw f :: fs ∧ s.refs = 0

/-- `connectEstablished` has not run. -/
def Waits (s : Link Tid) : Prop := .connectEstablished ∈ s.functors.queued

/-! ## Nothing to keep the connection -/

theorem refs_eq_zero (hcallers : s.callers = []) (hstays : ¬s.Stays) (hstack : s.stack = [])
    (hbound : ¬Bound s.functors.held) : s.refs = 0 := by
  have hslot : s.slot ≠ true := fun hslot => hstays (Or.inl hslot)
  have hremoving : s.removing = 0 :=
    Nat.eq_zero_of_not_pos fun hremoving => hstays (Or.inr (Or.inl hremoving))
  have hheld : s.functors.held.countP (!·.isRaw) = 0 := by
    rw [List.countP_eq_zero]
    intro f hf hraw
    exact hbound ⟨f, hf, by simpa using hraw⟩
  rw [refs, if_neg hslot, hremoving, hstack, hcallers, hheld]
  rfl

/-- Everything held is bound to `this`. -/
theorem stranded_of_not_bound (hcallers : s.callers = []) (hstays : ¬s.Stays)
    (hstack : s.stack = []) (hraw : ∃ f ∈ s.functors.todo, f.isRaw = true)
    (hbound : ¬Bound s.functors.held) : s.Stranded := by
  obtain ⟨f, hf, hraw⟩ := hraw
  have hrefs := refs_eq_zero hcallers hstays hstack hbound
  cases htodo : s.functors.todo with
  | nil =>
      rw [htodo] at hf
      cases hf
  | cons g gs =>
      have hmem : g ∈ s.functors.held :=
        List.mem_append_right _ (Batch.mem_queued_of_todo htodo)
      cases g with
      | raw g => exact ⟨g, gs, htodo, hrefs⟩
      | _ => exact absurd ⟨_, hmem, rfl⟩ hbound

/-- What is queued is bound to `this`, and what else has the connection will have
given it up when that is to run. -/
structure Doomed (s : Link Tid) : Prop where
  callers : s.callers = []
  stays : ¬s.Stays
  waits : ¬s.Waits
  raw : ∃ f ∈ s.functors.pending, f.isRaw = true
  bound : ¬Bound s.functors.pending

theorem Doomed.of_functors (h : Doomed s) (hcallers : s'.callers = s.callers)
    (hstays : s'.Stays → s.Stays) (hwaits : s'.Waits → s.Waits)
    (hpending : s'.functors.pending = s.functors.pending) : Doomed s' :=
  ⟨hcallers.trans h.callers, fun hs => h.stays (hstays hs), fun hs => h.waits (hwaits hs),
    hpending ▸ h.raw, hpending ▸ h.bound⟩

theorem not_covered (h : ¬s.Covered) : ¬s.Stays ∧
    ((∃ f ∈ s.functors.pending, f.isRaw = true) ∧ ¬Bound s.functors.pending ∨
      (∃ f ∈ s.functors.todo, f.isRaw = true) ∧ ¬Bound s.functors.held) := by
  refine ⟨fun hstays => h ⟨fun _ _ _ => Or.inl hstays, fun _ _ _ => Or.inl hstays⟩, ?_⟩
  by_contra hne
  rw [not_or] at hne
  refine h ⟨fun f hf hraw => Or.inr ?_, fun f hf hraw => Or.inr ?_⟩
  · by_contra hbound
    exact hne.1 ⟨⟨f, hf, hraw⟩, hbound⟩
  · by_contra hbound
    exact hne.2 ⟨⟨f, hf, hraw⟩, hbound⟩

theorem not_covered_connectDestroyed (h : ¬s.Covered) : ¬s.connectDestroyed.Covered := by
  intro hc
  refine h ?_
  unfold connectDestroyed at hc
  split at hc
  · refine hc.of_functors rfl (Or.imp id (Or.imp id fun hmem => ?_))
    exact (List.mem_cons.mp hmem).resolve_left (by simp)
  · exact hc.of_functors rfl id

/-- In the loop of the connection the destructor queues nothing. -/
theorem not_covered_destroy {inLoop : Bool} (hmay : s.mayDestroy inLoop = true)
    (hloop : inLoop = true) (h : ¬Covered { s with slot := false }) :
    ¬(s.destroy inLoop).Covered := by
  have hgone : ¬Covered { s with alive := false, slot := false } := fun hc =>
    h (hc.of_functors rfl id)
  unfold Link.destroy
  split
  · split
    · exact not_covered_connectDestroyed hgone
    · rename_i howner
      simp [mayDestroy, howner, hloop] at hmay
    · exact fun hc => hgone (hc.of_functors rfl id)
  · rename_i hslot
    refine fun hc => hgone (hc.of_functors rfl (Or.imp (fun h => ?_) id))
    exact absurd h hslot

/-! ## Before `connectEstablished` -/

/-- It waits in the queue, and at most `connectDestroyed` behind it. -/
structure Early (s : Link Tid) : Prop where
  owner : s.owner = .server false
  life : s.life = .new
  stack : s.stack = []
  removing : s.removing = 0
  calls : s.calls = []
  queued : ∃ fs, s.functors.queued = .connectEstablished :: fs ∧
    ∀ f ∈ fs, f = .connectDestroyed

theorem Early.setFunctors (h : Early s) {fs : Batch Functor}
    (hqueued : fs.queued = s.functors.queued) : Early (s.setFunctors fs) :=
  ⟨h.owner, h.life, h.stack, h.removing, h.calls, hqueued ▸ h.queued⟩

theorem Early.destroy (h : Early s) (inLoop : Bool) : Early (s.destroy inLoop) := by
  unfold Link.destroy
  split
  · split
    · rename_i howner
      rw [h.owner] at howner
      cases howner
    · obtain ⟨fs, hfs, hlast⟩ := h.queued
      refine ⟨h.owner, h.life, h.stack, h.removing, h.calls, fs ++ [.connectDestroyed], ?_, ?_⟩
      · change (s.functors.push _).queued = _
        rw [Batch.queued_push, hfs, List.cons_append]
      · intro f hf
        exact (List.mem_append.mp hf).elim (hlast f) List.mem_singleton.mp
    · rename_i howner
      rw [h.owner] at howner
      cases howner
  · exact ⟨h.owner, h.life, h.stack, h.removing, h.calls, h.queued⟩

/-- The next functor is `connectEstablished`, and there is none after it. -/
theorem Early.functor (h : Early s) {f : Functor} {fs : List Functor}
    (hf : s.functors.todo = f :: fs) :
    f = .connectEstablished ∧ ¬(s.setFunctors s.functors.advance).Waits := by
  obtain ⟨gs, hgs, hlast⟩ := h.queued
  rw [Batch.queued_advance hf, List.cons.injEq] at hgs
  refine ⟨hgs.1, fun hwaits => ?_⟩
  rw [Waits, Link.setFunctors, hgs.2] at hwaits
  cases hlast _ hwaits

theorem Silent.not_waits (h : Silent s s') (hs : ¬s.Waits) : ¬s'.Waits := by
  obtain ⟨fs, hfs, heq⟩ := h.queued
  intro hwaits
  rw [Waits, heq] at hwaits
  rcases List.mem_append.mp hwaits with hmem | hmem
  · exact hs hmem
  · cases hfs _ hmem

theorem not_waits_raw {f : ConnFunctor} (h : ¬s.Waits) : ¬(s.queueInLoop (.raw f)).Waits := by
  intro hwaits
  rw [Waits, queueInLoop, setFunctors, Batch.queued_push] at hwaits
  exact h ((List.mem_append.mp hwaits).resolve_right (by simp))

theorem not_waits_advance (h : ¬s.Waits) {f : Functor} {fs : List Functor}
    (hf : s.functors.todo = f :: fs) : ¬(s.setFunctors s.functors.advance).Waits := by
  intro hwaits
  refine h ?_
  rw [Waits, Batch.queued_advance hf]
  exact List.mem_cons_of_mem _ hwaits

theorem not_waits_connectEstablished (h : ¬s.Waits) (hn : s.connectEstablished = .ok s') :
    ¬s'.Waits := by
  obtain ⟨life, _, hn⟩ := bind_eq_ok hn
  cases hn
  exact h

theorem not_waits_call (h : ¬s.Waits) {k : Kernel} {f : Functor} (hn : s.call k f = .ok s') :
    ¬s'.Waits := by
  cases f with
  | raw f =>
      obtain ⟨_, _, hn⟩ := bind_eq_ok hn
      cases hn
      exact h
  | connectEstablished => exact not_waits_connectEstablished h hn
  | connectDestroyed =>
      cases hn
      exact silent_connectDestroyed.not_waits h
  | setCloseCallback =>
      cases hn
      exact h

theorem not_waits_step (h : ¬s.Waits) (hn : s.step = .ok s') : ¬s'.Waits := by
  unfold Link.step at hn
  split at hn
  case h_4 =>
    refine (silent_closeCallback hn).not_waits ?_
    exact h
  all_goals
    cases hn
    exact h

theorem early_start {owner : Owner} (h : start owner = .ok s) : s.Waits → Early s := by
  unfold start at h
  split at h
  · cases h
    exact fun _ => ⟨rfl, rfl, rfl, rfl, rfl, [], rfl, by simp⟩
  · refine fun hwaits => absurd hwaits (not_waits_connectEstablished ?_ h)
    simp [Waits, new]

variable [DecidableEq Tid] {k : Kernel} {a : Event Tid}

theorem not_waits_next (h : ¬s.Waits) (he : s.enabled a = true) (hn : s.next k a = .ok s') :
    ¬s'.Waits := by
  cases a with
  | close =>
      obtain ⟨life, _, hn⟩ := bind_eq_ok hn
      cases hn
      exact h
  | step => exact not_waits_step h hn
  | swap =>
      simp only [enabled, Bool.and_eq_true] at he
      cases hn
      change _ ∉ s.functors.swap.queued
      rw [Batch.queued_swap he.2]
      exact h
  | functor =>
      simp only [Link.next] at hn
      split at hn
      · cases hn
        exact h
      · rename_i f fs hf
        exact not_waits_call (not_waits_advance h hf) hn
  | finish =>
      simp only [enabled, Bool.and_eq_true, List.isEmpty_iff] at he
      cases hn
      change _ ∉ s.functors.finish.queued
      rw [Batch.queued_finish he.2]
      exact h
  | removeConnectionInLoop => exact (silent_remove hn).not_waits h
  | destroy inLoop =>
      cases hn
      exact silent_destroy.not_waits h
  | queueSend t message =>
      cases hn
      exact not_waits_raw h
  | queueShutdown t =>
      cases hn
      exact not_waits_raw h
  | _ =>
      cases hn
      first
        | exact h
        | split <;> exact h

theorem Early.next (h : Early s) (he : s.enabled a = true) (hn : s.next k a = .ok s') :
    s'.Waits → Early s' := by
  have hlife := h.life
  have hpolled : s.ready = false := by simp [ready, hlife, Lifecycle.isPolled, Lifecycle.new]
  have hstate : s.life.state ≠ .kConnected := by simp [hlife, Lifecycle.new]
  cases a with
  | read => cases hpolled.symm.trans he
  | close => cases hpolled.symm.trans he
  | step => simp [enabled, h.stack] at he
  | swap =>
      simp only [enabled, Bool.and_eq_true] at he
      cases hn
      exact fun _ => h.setFunctors (Batch.queued_swap he.2)
  | functor =>
      simp only [Link.next] at hn
      split at hn
      · cases hn
        exact fun _ => h
      · rename_i f fs hf
        exact fun hwaits => absurd hwaits (not_waits_call (h.functor hf).2 hn)
  | finish =>
      simp only [enabled, Bool.and_eq_true, List.isEmpty_iff] at he
      cases hn
      exact fun _ => h.setFunctors (Batch.queued_finish he.2)
  | send message =>
      simp only [Link.next, if_neg hstate] at hn
      cases hn
      exact fun _ => h
  | shutdown =>
      simp only [Link.next, if_neg hstate] at hn
      cases hn
      exact fun _ => h
  | removeConnectionInLoop => simp [enabled, h.removing] at he
  | destroy inLoop =>
      cases hn
      exact fun _ => h.destroy inLoop
  | share t =>
      cases hn
      exact fun _ => ⟨h.owner, h.life, h.stack, h.removing, h.calls, h.queued⟩
  | drop t =>
      cases hn
      exact fun _ => ⟨h.owner, h.life, h.stack, h.removing, h.calls, h.queued⟩
  | callSend t message =>
      simp only [Link.next, if_neg hstate] at hn
      cases hn
      exact fun _ => h
  | queueSend t message => simp [enabled, h.calls] at he
  | callShutdown t =>
      simp only [Link.next, if_neg hstate] at hn
      cases hn
      exact fun _ => h
  | setDisconnecting t => simp [enabled, h.calls] at he
  | queueShutdown t => simp [enabled, h.calls] at he

theorem early_reachable (hs : (system k).Reachable s) : s.Waits → Early s := by
  have hinv : (system k : Lts (Link Tid) _ _).Invariant fun s => s.Waits → Early s := {
    init := by
      rintro s ⟨owner, h⟩
      exact early_start h
    step := fun s a s' h he hn => by
      by_cases hwaits : s.Waits
      · exact (h hwaits).next he hn
      · exact fun hwaits' => absurd hwaits' (not_waits_next hwaits he hn) }
  exact hinv.reachable hs

/-! ## The way on -/

/-- Some run goes on to where a functor finds the connection gone. -/
def Leads (k : Kernel) (s : Link Tid) : Prop := ∃ as s', (system k).Run s as s' ∧ s'.Stranded

theorem Leads.of_run {as : List (Event Tid)} (hrun : (system k).Run s as s') (h : s'.Leads k) :
    s.Leads k := Lts.CanReach.of_run hrun h

/-- The loop leaves the function it is in. -/
theorem run_leave {p : TcpServer.Point} {ps : List TcpServer.Point} (hs : s.stack = p :: ps)
    (hp : p ≠ .closing) :
    ∃ as life, (system k).Run s as { s with life := life, stack := ps } := by
  have he : s.enabled .step = true := by simp [enabled, hs]
  have hone (life : Lifecycle) (hn : s.step = .ok { s with life := life, stack := ps }) :
      ∃ as life, (system k).Run s as { s with life := life, stack := ps } :=
    ⟨[.step], life, .cons he hn (.nil _)⟩
  cases p with
  | closing => exact absurd rfl hp
  | destroying =>
      have hn : s.step = .ok { s with life := s.life.goDown, stack := .down :: ps } := by
        simp [step, hs, setLife, setStack]
      exact ⟨[.step, .step], _, .cons he hn (.cons rfl rfl (.nil _))⟩
  | down => exact hone s.life.remove (by simp [step, hs, setLife, setStack])
  | _ => exact hone s.life (by simp [step, hs, setStack])

/-- The loop leaves all functions it is in. -/
theorem run_out {ps : List TcpServer.Point} (hs : s.stack = ps) (hps : .closing ∉ ps) :
    ∃ as life, (system k).Run s as { s with life := life, stack := [] } := by
  induction ps generalizing s with
  | nil =>
      refine ⟨[], s.life, ?_⟩
      rw [← hs]
      exact .nil s
  | cons p ps ih =>
      rw [List.mem_cons, not_or] at hps
      obtain ⟨as, life, hrun⟩ := run_leave (k := k) hs (Ne.symm hps.1)
      obtain ⟨bs, life', hrun'⟩ := ih (s := { s with life := life, stack := ps }) rfl hps.2
      exact ⟨as ++ bs, life', hrun.append hrun'⟩

/-- `connectDestroyed` to its end. -/
theorem run_connectDestroyed : ∃ as life,
    (system k).Run s.connectDestroyed as { s with life := life } := by
  unfold connectDestroyed
  split
  · exact run_leave (s := s.enter .destroying) rfl (by simp)
  · exact ⟨[], _, .nil _⟩

/-- The next functor runs, and the loop leaves what it calls. -/
theorem Doomed.functor (h : Doomed s) (hstack : s.stack = []) {f : Functor} {fs : List Functor}
    (hf : s.functors.todo = f :: fs) (hrefs : 0 < s.refs) :
    ∃ as s', (system k).Run s as s' ∧ s'.stack = [] ∧ s'.functors.todo = fs ∧ Doomed s' := by
  have he : s.enabled .functor = true := by simp [enabled, idle, hstack, hf]
  have hn : s.next k .functor = (s.setFunctors s.functors.advance).call k f := by
    simp only [next, hf]
  have htodo : s.functors.advance.todo = fs := Batch.todo_advance hf
  have hadvance : Doomed (s.setFunctors s.functors.advance) :=
    h.of_functors rfl id (fun hwaits => absurd hwaits (not_waits_advance h.waits hf))
      Batch.pending_advance
  cases f with
  | raw g =>
      have hrefs' : 0 < (s.setFunctors s.functors.advance).refs := by
        rw [refs, setFunctors, Batch.held_advance hf]
        exact hrefs
      rw [call, check_of hrefs'] at hn
      refine ⟨[.functor], _, .cons he hn (.nil _), hstack, htodo, ?_⟩
      exact hadvance.of_functors rfl id id rfl
  | connectEstablished => exact absurd (Batch.mem_queued_of_todo hf) h.waits
  | connectDestroyed =>
      obtain ⟨as, life, hrun⟩ :=
        run_connectDestroyed (k := k) (s := s.setFunctors s.functors.advance)
      refine ⟨.functor :: as, _, .cons he hn hrun, hstack, htodo, ?_⟩
      exact hadvance.of_functors rfl id id rfl
  | setCloseCallback =>
      refine ⟨[.functor], _, .cons he hn (.nil _), hstack, htodo, ?_⟩
      exact hadvance.of_functors rfl id id rfl

/-- The pass ends, and the next one begins. -/
theorem Doomed.swap (h : Doomed s) (hstack : s.stack = []) (hf : s.functors.todo = []) :
    s.Leads k := by
  have hstranded : (s.setFunctors s.functors.swap).Stranded := by
    refine stranded_of_not_bound h.callers h.stays hstack h.raw fun hbound => h.bound ?_
    refine hbound.mono fun f hf => ?_
    exact (List.mem_append.mp hf).elim (fun hran => by cases hran) fun hqueued => by
      simpa [setFunctors, Batch.queued] using hqueued
  cases hphase : s.functors.isHandling with
  | true =>
      have he : s.enabled .swap = true := by simp [enabled, idle, hstack, hphase]
      exact ⟨[.swap], _, .cons he rfl (.nil _), hstranded⟩
  | false =>
      have he : s.enabled .finish = true := by simp [enabled, idle, hstack, hphase, hf]
      have he' : (s.setFunctors s.functors.finish).enabled .swap = true := by
        simp [enabled, idle, hstack, setFunctors, Batch.finish, Batch.isHandling]
      exact ⟨[.finish, .swap], _, .cons he rfl (.cons he' rfl (.nil _)), hstranded⟩

/-- The loop gets there by finishing its pass, unless it is there before. -/
theorem Doomed.leads {fs : List Functor} (h : Doomed s) (hstack : s.stack = [])
    (hf : s.functors.todo = fs) : s.Leads k := by
  induction fs generalizing s with
  | nil => exact h.swap hstack hf
  | cons f fs ih =>
      by_cases hrefs : 0 < s.refs
      · obtain ⟨as, s', hrun, hstack', hf', h'⟩ := h.functor (k := k) hstack hf hrefs
        exact .of_run hrun (ih h' hstack' hf')
      · have hzero : s.refs = 0 := Nat.eq_zero_of_not_pos hrefs
        have hbound : ¬Bound s.functors.held := fun hbound => hrefs (refs_pos_of_bound hbound)
        have hraw : f.isRaw = true := by
          by_contra hraw
          have hmem := Batch.mem_queued_of_todo hf
          exact hbound ⟨f, List.mem_append_right _ hmem, by simpa using hraw⟩
        cases f with
        | raw f => exact ⟨[], s, .nil s, f, fs, hf, hzero⟩
        | _ => cases hraw

/-! ## Events against the condition -/

/-- Callers have been able to queue something, so `connectEstablished` has run. -/
theorem not_waits_of_raw (hs : (system k).Reachable s) {f : Functor}
    (hf : f ∈ s.functors.queued) (hraw : f.isRaw = true) : ¬s.Waits := by
  intro hwaits
  obtain ⟨fs, hfs, hlast⟩ := (early_reachable hs hwaits).queued
  rw [hfs] at hf
  rcases List.mem_cons.mp hf with rfl | hf
  · cases hraw
  · rw [hlast f hf] at hraw
    cases hraw

theorem leads_of_not_covered (hs : (system k).Reachable s) (hcallers : s.callers = [])
    (h : ¬s.Covered) : s.Leads k := by
  obtain ⟨hstays, h⟩ := not_covered h
  have hclosing : .closing ∉ s.stack := fun hmem => hstays (Or.inr (Or.inr hmem))
  obtain ⟨as, life, hrun⟩ := run_out (k := k) rfl hclosing
  have hstays' : ¬({ s with life := life, stack := [] } : Link Tid).Stays := fun hs' =>
    hstays (hs'.imp id (Or.imp id fun hmem => by cases hmem))
  refine .of_run hrun ?_
  rcases h with ⟨hraw, hbound⟩ | ⟨hraw, hbound⟩
  · obtain ⟨f, hf, hfraw⟩ := hraw
    have hwaits := not_waits_of_raw hs (List.mem_append_right _ hf) hfraw
    exact Doomed.leads ⟨hcallers, hstays', hwaits, ⟨f, hf, hfraw⟩, hbound⟩ rfl rfl
  · exact ⟨[], _, .nil _, stranded_of_not_bound hcallers hstays' rfl hraw hbound⟩

/-- The side condition asks for no more than is needed: from an event against it
there is a way on to a functor that finds the connection gone. -/
theorem leads_of_not_careful (hs : (system k).Reachable s) (he : s.enabled a = true)
    (hC : ¬s.Careful a) (hn : s.next k a = .ok s') : s'.Leads k := by
  have hs' := hs.step he hn
  cases a with
  | drop t =>
      obtain ⟨hcallers, hc⟩ := Classical.not_imp.mp hC
      cases hn
      refine leads_of_not_covered hs' hcallers fun hc' => hc ?_
      exact ⟨hc'.pending, hc'.todo⟩
  | destroy inLoop =>
      obtain ⟨hloop, hC⟩ := Classical.not_imp.mp hC
      obtain ⟨hcallers, hc⟩ := Classical.not_imp.mp hC
      cases hn
      have hnone : (s.destroy inLoop).callers = [] := silent_destroy.callers.trans hcallers
      exact leads_of_not_covered hs' hnone (not_covered_destroy he hloop hc)
  | _ => exact absurd trivial hC

end Link

end Muduo
