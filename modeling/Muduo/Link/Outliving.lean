import Muduo.Link.Link

/-!
# Functors bound to `this`

`sendInLoop` and `shutdownInLoop` are queued with the address of the
connection, so something else has to keep it until they have run. As long as
the owner has it, or its removal is on its way, something will: its
`connectDestroyed` will be queued behind them, and a pointer bound in a queue
lasts to the end of its pass. A functor queued during the pass of
`connectDestroyed`, or after it, has only the callers' pointers to rely on
(`freed_before_send`). When no caller gives up the last of them with such a
functor in the queue, every functor runs on a connection that is there
(`outlasts_functors`).
-/

namespace Muduo

open Lib

namespace Link

variable {Tid : Type} {s s' : Link Tid}

/-! ## What keeps the connection -/

/-- A pointer is bound in the list. -/
def Bound (fs : List Functor) : Prop := ∃ f ∈ fs, f.isRaw = false

theorem Bound.mono {fs gs : List Functor} (h : Bound fs) (hsub : ∀ f ∈ fs, f ∈ gs) : Bound gs := by
  obtain ⟨f, hf, hbound⟩ := h
  exact ⟨f, hsub f hf, hbound⟩

/-- There will be a `connectDestroyed`: the owner has the connection, or a
`removeConnectionInLoop` is on its way, or `closeCallback_` is to be called. -/
def Stays (s : Link Tid) : Prop :=
  s.slot = true ∨ 0 < s.removing ∨ .closing ∈ s.stack

/-- Whatever is bound to `this` runs before the last pointer is gone that is not a
caller's. -/
structure Covered (s : Link Tid) : Prop where
  pending : ∀ f ∈ s.functors.pending, f.isRaw = true → s.Stays ∨ Bound s.functors.pending
  todo : ∀ f ∈ s.functors.todo, f.isRaw = true → s.Stays ∨ Bound s.functors.held

structure Outlived (s : Link Tid) : Prop where
  covered : s.callers = [] → s.Covered
  callers : ∀ p ∈ s.calls, p.1 ∈ s.callers

theorem refs_pos_of_bound (h : Bound s.functors.held) : 0 < s.refs := by
  obtain ⟨f, hf, hbound⟩ := h
  have hcount : 0 < s.functors.held.countP (!·.isRaw) :=
    List.countP_pos_iff.mpr ⟨f, hf, by simp [hbound]⟩
  unfold refs
  omega

theorem refs_pos_of_stays (h : s.Stays) : 0 < s.refs := by
  unfold refs
  rcases h with hslot | hremoving | hclosing
  · rw [if_pos hslot]
    omega
  · omega
  · have hlength := List.length_pos_of_mem hclosing
    omega

theorem Outlived.refs_pos (h : Outlived s) {f : Functor} {fs : List Functor}
    (hf : s.functors.todo = f :: fs) (hraw : f.isRaw = true) : 0 < s.refs := by
  by_cases hcallers : s.callers = []
  · have hmem : f ∈ s.functors.todo := by simp [hf]
    exact ((h.covered hcallers).todo f hmem hraw).elim refs_pos_of_stays refs_pos_of_bound
  · have hlength := List.length_pos_iff.mpr hcallers
    unfold refs
    omega

/-! ## The loop and the owner -/

theorem Covered.of_functors (h : Covered s) (hfunctors : s'.functors = s.functors)
    (hstays : s.Stays → s'.Stays) : Covered s' := by
  constructor
  all_goals
    rw [hfunctors]
    intro f hf hraw
  case pending => exact (h.pending f hf hraw).imp hstays id
  case todo => exact (h.todo f hf hraw).imp hstays id

/-- The owner goes on having the connection, and the loop is in no less of it. -/
theorem Outlived.of_functors (h : Outlived s) (hcallers : s'.callers = s.callers)
    (hcalls : s'.calls = s.calls) (hfunctors : s'.functors = s.functors)
    (hstays : s.Stays → s'.Stays) : Outlived s' where
  covered hnone := (h.covered (hcallers ▸ hnone)).of_functors hfunctors hstays
  callers p hp := by
    rw [hcalls] at hp
    rw [hcallers]
    exact h.callers p hp

theorem Outlived.setLife (h : Outlived s) (life : Lifecycle) : Outlived (s.setLife life) :=
  h.of_functors rfl rfl rfl id

theorem Outlived.setStack (h : Outlived s) {ps : List TcpServer.Point}
    (hps : .closing ∈ s.stack → .closing ∈ ps) : Outlived (s.setStack ps) :=
  h.of_functors rfl rfl rfl (Or.imp id (Or.imp id hps))

theorem Outlived.enter (h : Outlived s) (p : TcpServer.Point) : Outlived (s.enter p) :=
  h.setStack (List.mem_cons_of_mem p)

theorem Outlived.run (h : Outlived s) (k : Kernel) (f : ConnFunctor) : Outlived (s.run k f) :=
  h.of_functors rfl rfl rfl id

theorem bound_queueInLoop {f : Functor} (hf : f.isRaw = false) :
    Bound (s.queueInLoop f).functors.pending :=
  ⟨f, List.mem_append_right _ (List.mem_singleton.mpr rfl), hf⟩

theorem Silent.bound_pending (h : Silent s s') (hbound : Bound s.functors.pending) :
    Bound s'.functors.pending := by
  obtain ⟨fs, _, heq⟩ := h.pending
  rw [heq]
  exact hbound.mono fun f => List.mem_append_left fs

theorem Silent.bound_held (h : Silent s s') (hbound : Bound s.functors.held) :
    Bound s'.functors.held := by
  obtain ⟨fs, _, heq⟩ := h.queued
  rw [Batch.held, h.ran, heq, ← List.append_assoc]
  exact hbound.mono fun f => List.mem_append_left fs

theorem Silent.covered (h : Silent s s') (hc : Covered s)
    (hstays : s.Stays → s'.Stays ∨ Bound s'.functors.pending) : Covered s' := by
  obtain ⟨fs, hfs, heq⟩ := h.pending
  constructor
  case pending =>
    intro f hf hraw
    rw [heq] at hf
    rcases List.mem_append.mp hf with hf | hf
    · exact (hc.pending f hf hraw).elim hstays fun hbound => Or.inr (h.bound_pending hbound)
    · rw [isRaw_of_isLast (hfs f hf)] at hraw
      cases hraw
  case todo =>
    intro f hf hraw
    rw [h.todo] at hf
    have hheld : Bound s'.functors.pending → Bound s'.functors.held := fun hbound =>
      hbound.mono fun g hg => List.mem_append_right _ (List.mem_append_right _ hg)
    rcases hc.todo f hf hraw with hstay | hbound
    · exact (hstays hstay).imp id hheld
    · exact Or.inr (h.bound_held hbound)

theorem Silent.outlived (h : Silent s s') (ho : Outlived s)
    (hstays : s.Stays → s'.Stays ∨ Bound s'.functors.pending) : Outlived s' where
  covered hcallers := by
    rw [h.callers] at hcallers
    exact h.covered (ho.covered hcallers) hstays
  callers p hp := by
    rw [h.calls] at hp
    rw [h.callers]
    exact ho.callers p hp

/-- The owner gives the connection up, and queues its `connectDestroyed`. -/
theorem bound_remove (h : s.remove = .ok s') : Bound s'.functors.pending := by
  obtain ⟨_, _, h⟩ := bind_eq_ok h
  obtain ⟨_, _, h⟩ := bind_eq_ok h
  cases h
  exact bound_queueInLoop rfl

theorem stays_closeCallback (h : s.closeCallback = .ok s') :
    s'.Stays ∨ Bound s'.functors.pending := by
  unfold closeCallback at h
  split at h
  · exact Or.inr (bound_remove h)
  · obtain ⟨_, _, h⟩ := bind_eq_ok h
    cases h
    exact Or.inl (Or.inr (Or.inl (Nat.succ_pos _)))
  · split at h
    · cases h
      exact Or.inr (bound_queueInLoop rfl)
    · exact Or.inr (bound_remove h)

theorem Outlived.connectDestroyed (h : Outlived s) : Outlived s.connectDestroyed := by
  unfold Link.connectDestroyed
  split
  · exact h.enter _
  · exact h.setLife _

theorem Outlived.connectEstablished (h : Outlived s) (hn : s.connectEstablished = .ok s') :
    Outlived s' := by
  obtain ⟨life, _, hn⟩ := bind_eq_ok hn
  cases hn
  exact (h.setLife life).enter _

theorem Outlived.handleClose (h : Outlived s) (hn : s.handleClose = .ok s') : Outlived s' := by
  obtain ⟨life, _, hn⟩ := bind_eq_ok hn
  cases hn
  exact (h.setLife life).enter _

theorem Outlived.step (h : Outlived s) (hn : s.step = .ok s') : Outlived s' := by
  have hpop {p : TcpServer.Point} {ps : List TcpServer.Point} (hs : s.stack = p :: ps)
      (hp : p ≠ .closing) (hmem : .closing ∈ s.stack) : .closing ∈ ps := by
    rw [hs] at hmem
    exact (List.mem_cons.mp hmem).resolve_left (Ne.symm hp)
  unfold Link.step at hn
  split at hn
  case h_1 =>
    cases hn
    exact h
  case h_4 ps hs =>
    have hstack : Silent s (s.setStack (.closed :: ps)) :=
      .of_functors rfl rfl rfl rfl rfl rfl rfl
    exact (hstack.trans (silent_closeCallback hn)).outlived h fun _ => stays_closeCallback hn
  case h_6 ps hs =>
    cases hn
    refine (h.setLife _).setStack fun hmem => List.mem_cons_of_mem _ (hpop hs ?_ hmem)
    simp
  case h_7 ps hs =>
    cases hn
    exact (h.setLife _).setStack (hpop hs (by simp))
  case h_2 ps hs =>
    cases hn
    exact h.setStack (hpop hs (by simp))
  case h_3 ps hs =>
    cases hn
    exact h.setStack (hpop hs (by simp))
  case h_5 ps hs =>
    cases hn
    exact h.setStack (hpop hs (by simp))

/-! ## The queue -/

theorem Outlived.swap (h : Outlived s) : Outlived (s.setFunctors s.functors.swap) := by
  refine ⟨fun hcallers => ?_, h.callers⟩
  have hc := h.covered hcallers
  constructor
  case pending =>
    intro f hf
    cases hf
  case todo =>
    intro f hf hraw
    refine (hc.pending f hf hraw).imp id fun hbound => hbound.mono fun g hg => ?_
    exact List.mem_append_right _ (List.mem_append_left _ hg)

theorem Outlived.advance (h : Outlived s) {f : Functor} {fs : List Functor}
    (hf : s.functors.todo = f :: fs) : Outlived (s.setFunctors s.functors.advance) := by
  refine ⟨fun hcallers => ?_, h.callers⟩
  have hc := h.covered hcallers
  have hpending : (s.setFunctors s.functors.advance).functors.pending = s.functors.pending :=
    Batch.pending_advance
  have hheld : (s.setFunctors s.functors.advance).functors.held = s.functors.held :=
    Batch.held_advance hf
  have htodo : (s.setFunctors s.functors.advance).functors.todo = fs := Batch.todo_advance hf
  constructor
  case pending =>
    rw [hpending]
    exact hc.pending
  case todo =>
    intro g hg
    rw [htodo] at hg
    rw [hheld]
    exact hc.todo g (by rw [hf]; exact List.mem_cons_of_mem _ hg)

theorem Outlived.finish (h : Outlived s) : Outlived (s.setFunctors s.functors.finish) := by
  refine ⟨fun hcallers => ?_, h.callers⟩
  have hc := h.covered hcallers
  constructor
  case pending => exact hc.pending
  case todo =>
    intro f hf
    cases hf

theorem Outlived.call (h : Outlived s) (k : Kernel) {f : Functor} (hn : s.call k f = .ok s') :
    Outlived s' := by
  cases f with
  | raw f =>
      obtain ⟨_, _, hn⟩ := bind_eq_ok hn
      cases hn
      exact h.run k f
  | connectEstablished => exact h.connectEstablished hn
  | connectDestroyed =>
      cases hn
      exact h.connectDestroyed
  | setCloseCallback =>
      cases hn
      exact h.of_functors rfl rfl rfl id

theorem Outlived.destroy (h : Outlived s) {inLoop : Bool} (hmay : s.mayDestroy inLoop = true)
    (hC : inLoop = true → s.callers = [] → Covered { s with slot := false }) :
    Outlived (s.destroy inLoop) := by
  have hfree (hloop : inLoop = true) : Outlived { s with alive := false, slot := false } :=
    ⟨fun hcallers => (hC hloop hcallers).of_functors rfl id, h.callers⟩
  have hqueued {f : Functor} (hf : f.isLast = true) :
      Outlived ({ s with alive := false, slot := false }.queueInLoop f) := by
    have hslot : Silent s { s with alive := false, slot := false } :=
      .of_functors rfl rfl rfl rfl rfl rfl rfl
    refine (hslot.trans (silent_queueInLoop hf)).outlived h fun _ => Or.inr ?_
    exact bound_queueInLoop (isRaw_of_isLast hf)
  unfold Link.destroy
  split
  · split
    · rename_i howner
      have hloop : inLoop = true := by
        simp only [mayDestroy, howner, Bool.and_eq_true, decide_eq_true_eq] at hmay
        exact hmay.2.symm
      exact (hfree hloop).connectDestroyed
    · exact hqueued rfl
    · split
      · rename_i hloop
        exact (hfree hloop).of_functors rfl rfl rfl id
      · exact hqueued rfl
  · exact h.of_functors rfl rfl rfl id

/-! ## Callers -/

/-- A caller in a call has a pointer. -/
theorem Outlived.of_callers {t : Tid} (ht : t ∈ s'.callers)
    (hcallers : ∀ p ∈ s'.calls, p.1 ∈ s'.callers) : Outlived s' := by
  refine ⟨fun hnone => ?_, hcallers⟩
  rw [hnone] at ht
  cases ht

/-! ## Events -/

variable {a : Event Tid}

theorem outlived_start {owner : Owner} (h : start owner = .ok s) : Outlived s := by
  unfold start at h
  split at h
  · cases h
    refine ⟨fun _ => ⟨fun f hf hraw => ?_, fun f hf => (by cases hf)⟩, fun p hp => (by cases hp)⟩
    rw [List.mem_singleton.mp hf] at hraw
    cases hraw
  · have hnew : Outlived (new owner : Link Tid) :=
      ⟨fun _ => ⟨fun f hf => (by cases hf), fun f hf => (by cases hf)⟩, fun p hp => (by cases hp)⟩
    exact hnew.connectEstablished h

variable [DecidableEq Tid]

/-- The side condition on events: the callers give up the last pointer they have,
and the owner is destroyed in the loop of the connection while they have none,
only when the functors bound to `this` are covered. -/
def Careful (s : Link Tid) : Event Tid → Prop
  | .drop t => s.callers.erase t = [] → s.Covered
  | .destroy inLoop => inLoop = true → s.callers = [] → Covered { s with slot := false }
  | _ => True

theorem free_iff {t : Tid} (h : s.free t = true) :
    t ∈ s.callers ∧ ∀ p ∈ s.calls, p.1 ≠ t := by
  simpa [free] using h

theorem Outlived.begin (h : Outlived s) {t : Tid} {c : Progress} (hfree : s.free t = true)
    (hcallers : s'.callers = s.callers) (hcalls : s'.calls = (t, c) :: s.calls) : Outlived s' := by
  have ht := (free_iff hfree).1
  refine .of_callers (hcallers ▸ ht) fun p hp => ?_
  rw [hcalls] at hp
  rw [hcallers]
  rcases List.mem_cons.mp hp with rfl | hp
  · exact ht
  · exact h.callers p hp

theorem Outlived.drop (h : Outlived s) {t : Tid} (hfree : s.free t = true)
    (hC : s.callers.erase t = [] → s.Covered) :
    Outlived { s with callers := s.callers.erase t } := by
  refine ⟨fun hnone => ?_, fun p hp => ?_⟩
  · have hc := hC hnone
    exact ⟨hc.pending, hc.todo⟩
  · exact (List.mem_erase_of_ne ((free_iff hfree).2 p hp)).mpr (h.callers p hp)

theorem Outlived.next (h : Outlived s) (k : Kernel) (he : s.enabled a = true) (hC : s.Careful a)
    (hn : s.next k a = .ok s') : Outlived s' := by
  cases a with
  | read =>
      cases hn
      exact h.enter _
  | close => exact h.handleClose hn
  | step => exact h.step hn
  | swap =>
      cases hn
      exact h.swap
  | functor =>
      simp only [Link.next] at hn
      split at hn
      · cases hn
        exact h
      · rename_i f fs hf
        exact (h.advance hf).call k hn
  | finish =>
      cases hn
      exact h.finish
  | send message =>
      cases hn
      split
      · have hsent : Outlived { s with sent := s.sent ++ [message] } := h.of_functors rfl rfl rfl id
        exact hsent.run k _
      · exact h
  | shutdown =>
      cases hn
      split
      · exact (h.setLife _).run k _
      · exact h
  | removeConnectionInLoop =>
      have hremoving : Silent s { s with removing := s.removing - 1 } :=
        .of_functors rfl rfl rfl rfl rfl rfl rfl
      exact (hremoving.trans (silent_remove hn)).outlived h fun _ => Or.inr (bound_remove hn)
  | destroy inLoop =>
      cases hn
      exact h.destroy he hC
  | share t =>
      cases hn
      exact .of_callers (List.mem_cons_self ..) fun p hp => List.mem_cons_of_mem _ (h.callers p hp)
  | drop t =>
      cases hn
      exact h.drop he hC
  | callSend t message =>
      cases hn
      split
      · exact h.begin he rfl rfl
      · exact h
  | queueSend t message =>
      cases hn
      exact .of_callers (h.callers _ (of_decide_eq_true he)) fun p hp =>
        h.callers p (List.mem_of_mem_erase hp)
  | callShutdown t =>
      cases hn
      split
      · exact h.begin he rfl rfl
      · exact h
  | setDisconnecting t =>
      have ht := h.callers _ (of_decide_eq_true he)
      cases hn
      refine .of_callers ht fun p hp => ?_
      rcases List.mem_cons.mp hp with rfl | hp
      · exact ht
      · exact h.callers p (List.mem_of_mem_erase hp)
  | queueShutdown t =>
      cases hn
      exact .of_callers (h.callers _ (of_decide_eq_true he)) fun p hp =>
        h.callers p (List.mem_of_mem_erase hp)

/-! ## Whole runs -/

/-- **A functor bound to `this` runs on a connection that is there**, in every run in
which no caller gives up the last pointer with one in the queue that nothing
else covers. -/
theorem outlasts_functors {k : Kernel} (hs : ((system k).guarded Careful).Reachable s)
    {f : ConnFunctor} {fs : List Functor} (hf : s.functors.todo = .raw f :: fs) : 0 < s.refs := by
  have hinv : ((system k : Lts (Link Tid) _ _).guarded Careful).Invariant Outlived := {
    init := by
      rintro s ⟨owner, h⟩
      exact outlived_start h
    step := fun s a s' h he hn => h.next k he.1 he.2 hn }
  exact (hinv.reachable hs).refs_pos hf rfl

/-- A caller drops its pointer right after its `send`, the server having the
connection. -/
theorem outlasts_functors_dropped : ∃ s : Link Nat, s.callers = [] ∧
    s.functors.todo = [.raw (.sendInLoop [65])] ∧ 0 < s.refs := by
  let L : Lts (Link Nat) (Event Nat) Fault := (system .eager).guarded Careful
  have h₀ : L.Reachable _ := .of_init ⟨.server true, rfl⟩
  have h₁ := h₀.step (a := Event.share 0) ⟨rfl, trivial⟩ rfl
  have h₂ := h₁.step (a := Event.callSend 0 [65]) ⟨rfl, trivial⟩ rfl
  have h₃ := h₂.step (a := Event.queueSend 0 [65]) ⟨rfl, trivial⟩ rfl
  have h₄ := h₃.step (a := Event.drop 0)
    ⟨rfl, fun _ => ⟨fun _ _ _ => Or.inl (Or.inl rfl), fun _ _ _ => Or.inl (Or.inl rfl)⟩⟩ rfl
  have h₅ := h₄.step (a := Event.step) ⟨rfl, trivial⟩ rfl
  have h₆ := h₅.step (a := Event.swap) ⟨rfl, trivial⟩ rfl
  exact ⟨_, rfl, rfl, outlasts_functors h₆ (f := .sendInLoop [65]) rfl⟩

/-- A thread in `send` queues `sendInLoop` during the pass of `connectDestroyed`, and
then drops its pointer. -/
theorem freed_before_send : ¬∀ (k : Kernel) (s : Link Nat) (f : ConnFunctor) (fs : List Functor),
    (system k).Reachable s → s.functors.todo = .raw f :: fs → 0 < s.refs := by
  intro h
  have h₀ : (system .eager : Lts (Link Nat) _ _).Reachable _ := .of_init ⟨.server false, rfl⟩
  have h₁ := h₀.step (a := Event.swap) rfl rfl
  have h₂ := h₁.step (a := Event.functor) rfl rfl
  have h₃ := h₂.step (a := Event.share 0) rfl rfl
  have h₄ := h₃.step (a := Event.callSend 0 [65]) rfl rfl
  have h₅ := h₄.step (a := Event.step) rfl rfl
  have h₆ := h₅.step (a := Event.finish) rfl rfl
  have h₇ := h₆.step (a := Event.close) rfl rfl
  have h₈ := h₇.step (a := Event.step) rfl rfl
  have h₉ := h₈.step (a := Event.step) rfl rfl
  have h₁₀ := h₉.step (a := Event.removeConnectionInLoop) rfl rfl
  have h₁₁ := h₁₀.step (a := Event.swap) rfl rfl
  have h₁₂ := h₁₁.step (a := Event.functor) rfl rfl
  have h₁₃ := h₁₂.step (a := Event.queueSend 0 [65]) rfl rfl
  have h₁₄ := h₁₃.step (a := Event.drop 0) rfl rfl
  have h₁₅ := h₁₄.step (a := Event.finish) rfl rfl
  have h₁₆ := h₁₅.step (a := Event.swap) rfl rfl
  exact absurd (h _ _ _ _ h₁₆ rfl) (by decide)

end Link

end Muduo
