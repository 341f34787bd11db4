import Muduo.Link.Link

/-!
# Messages that are overtaken

`send` tests `state_` where it is called, and `sendInLoop` writes when the
loop comes to it without a further test, so a message that has been accepted
may be written after the write side has been shut down, or after the peer has
closed (`overtaken`). It takes a step of the loop to overtake it: what
`shutdown()` queues is behind all that has been queued before. So when the
loop shuts down or closes a connection only with no message on its way, and
another thread queues `shutdownInLoop` only with no thread in `send`, every
message is written in time (`written_in_time`).
-/

namespace Muduo

open Lib

namespace Link

variable {Tid : Type} {s s' : Link Tid}

/-! ## Messages on their way -/

def Functor.message : Functor → Option Bytes
  | raw (.sendInLoop message) => some message
  | _ => none

def Progress.message : Progress → Option Bytes
  | send message => some message
  | _ => none

/-- With a thread in `send`. -/
def sending (s : Link Tid) : List Bytes := s.calls.filterMap (·.2.message)

/-- Accepted, and not written yet. -/
def waiting (s : Link Tid) : List Bytes :=
  s.functors.queued.filterMap Functor.message ++ s.sending

/-- `state_` has become `kDisconnected`. -/
def Ended (s : Link Tid) : Prop := false ∈ s.life.reports

/-- Nothing may be written any more. -/
def Over (s : Link Tid) : Prop := s.socket.writeClosed = true ∨ s.Ended

/-- Nothing is accepted any more. -/
def Past (s : Link Tid) : Prop :=
  s.life.state = .kDisconnecting ∨ s.life.state = .kDisconnected

theorem Past.not_connected (h : s.Past) : s.life.state ≠ .kConnected := by
  intro hstate
  rcases h with heq | heq <;> rw [heq] at hstate <;> cases hstate

structure InOrder (s : Link Tid) : Prop where
  sent : s.sent.Perm (s.socket.writes ++ s.waiting)
  /-- No message is behind a `shutdownInLoop`. -/
  order : s.functors.queued.Pairwise fun f g => f = .raw .shutdownInLoop → g.message = none
  shut : .raw .shutdownInLoop ∈ s.functors.queued → s.Past ∧ s.sending = []
  ended : s.Over → s.Past ∧ s.waiting = []
  called : ∀ t, (t, .shutdownInLoop) ∈ s.calls → s.Past

/-! ## The loop and the owner -/

theorem message_bound {f : Functor} (h : f.isRaw = false) : f.message = none := by
  cases f with
  | raw f => cases h
  | _ => rfl

theorem Silent.waiting (h : Silent s s') : s'.waiting = s.waiting := by
  obtain ⟨fs, hfs, heq⟩ := h.queued
  rw [Link.waiting, Link.waiting, sending, sending, heq, h.calls, List.filterMap_append,
    List.filterMap_eq_nil_iff.mpr fun f hf => message_bound (isRaw_of_isLast (hfs f hf)),
    List.append_nil]

theorem InOrder.silent (h : InOrder s) (hs : Silent s s') : InOrder s' := by
  have hpast : s'.Past ↔ s.Past := by
    unfold Past
    rw [hs.state]
  have hsending : s'.sending = s.sending := by
    unfold sending
    rw [hs.calls]
  obtain ⟨fs, hfs, heq⟩ := hs.queued
  constructor
  case sent =>
    rw [hs.sent, hs.socket, hs.waiting]
    exact h.sent
  case order =>
    rw [heq, List.pairwise_append]
    have hnone (g : Functor) (hg : g ∈ fs) : g.message = none :=
      message_bound (isRaw_of_isLast (hfs g hg))
    refine ⟨h.order, ?_, fun f _ g hg _ => hnone g hg⟩
    exact List.pairwise_of_forall_mem_list fun f _ g hg _ => hnone g hg
  case shut =>
    intro hmem
    rw [heq] at hmem
    rcases List.mem_append.mp hmem with hmem | hmem
    · rw [hpast, hsending]
      exact h.shut hmem
    · cases hfs _ hmem
  case ended =>
    intro hover
    rw [hpast, hs.waiting]
    rw [Over, Ended, hs.socket, hs.reports] at hover
    exact h.ended hover
  case called =>
    intro t hmem
    rw [hs.calls] at hmem
    exact hpast.mpr (h.called t hmem)

/-- The state changes. -/
theorem InOrder.setLife (h : InOrder s) {life : Lifecycle} (hpast : s.Past → (s.setLife life).Past)
    (hended : (s.setLife life).Ended → s.Ended ∨ (s.setLife life).Past ∧ s.waiting = []) :
    InOrder (s.setLife life) where
  sent := h.sent
  order := h.order
  shut hmem := ⟨hpast (h.shut hmem).1, (h.shut hmem).2⟩
  ended hover := by
    rcases hover with hclosed | hover
    · exact ⟨hpast (h.ended (Or.inl hclosed)).1, (h.ended (Or.inl hclosed)).2⟩
    · rcases hended hover with hover | hnow
      · exact ⟨hpast (h.ended (Or.inr hover)).1, (h.ended (Or.inr hover)).2⟩
      · exact hnow
  called t hmem := hpast (h.called t hmem)

theorem InOrder.setStack (h : InOrder s) (ps : List TcpServer.Point) : InOrder (s.setStack ps) :=
  ⟨h.sent, h.order, h.shut, h.ended, h.called⟩

theorem InOrder.setFunctors (h : InOrder s) {fs : Batch Functor}
    (hqueued : fs.queued = s.functors.queued) : InOrder (s.setFunctors fs) := by
  have hwaiting : (s.setFunctors fs).waiting = s.waiting := by
    change fs.queued.filterMap _ ++ s.sending = _
    rw [hqueued]
    rfl
  constructor
  case sent =>
    rw [hwaiting]
    exact h.sent
  case order =>
    change fs.queued.Pairwise _
    rw [hqueued]
    exact h.order
  case shut =>
    change _ ∈ fs.queued → _
    rw [hqueued]
    exact h.shut
  case ended =>
    rw [hwaiting]
    exact h.ended
  case called => exact h.called

theorem InOrder.connectEstablished (h : InOrder s) (hn : s.connectEstablished = .ok s') :
    InOrder s' := by
  obtain ⟨life, hlife, hn⟩ := bind_eq_ok hn
  cases hn
  obtain ⟨hstate, rfl⟩ := Lifecycle.connectEstablished_ok (liftConn_ok hlife)
  refine InOrder.setStack (h.setLife (fun hpast => ?_) fun hmem => Or.inl ?_) _
  · rcases hpast with heq | heq <;> rw [heq] at hstate <;> cases hstate
  · have hreports : false ∈ s.life.reports ++ [true] := hmem
    exact (List.mem_append.mp hreports).resolve_right (by simp)

/-- `state_` becomes `kDisconnected`, with no message on its way. -/
theorem InOrder.disconnect (h : InOrder s) {life : Lifecycle} (hnone : s.waiting = [])
    (hstate : life.state = .kDisconnected) : InOrder (s.setLife life) :=
  h.setLife (fun _ => Or.inr hstate) fun _ => Or.inr ⟨Or.inr hstate, hnone⟩

theorem InOrder.handleClose (h : InOrder s) (hnone : s.waiting = [])
    (hn : s.handleClose = .ok s') : InOrder s' := by
  obtain ⟨life, hlife, hn⟩ := bind_eq_ok hn
  cases hn
  obtain ⟨_, rfl⟩ := Lifecycle.handleClose_ok (liftConn_ok hlife)
  exact (h.disconnect hnone rfl).setStack _

theorem InOrder.step (h : InOrder s)
    (hnone : s.stack.head? = some .destroying → s.waiting = []) (hn : s.step = .ok s') :
    InOrder s' := by
  unfold Link.step at hn
  split at hn
  case h_1 =>
    cases hn
    exact h
  case h_4 => exact (h.setStack _).silent (silent_closeCallback hn)
  case h_6 hs =>
    cases hn
    exact (h.disconnect (hnone (by rw [hs]; rfl)) rfl).setStack _
  case h_7 =>
    cases hn
    have hremove : InOrder (s.setLife s.life.remove) := h.setLife id Or.inl
    exact hremove.setStack _
  all_goals
    cases hn
    exact h.setStack _

/-! ## The queue -/

/-- The next functor is taken out, bound to a pointer. -/
theorem InOrder.advance (h : InOrder s) {f : Functor} {fs : List Functor}
    (hf : s.functors.todo = f :: fs) (hbound : f.isRaw = false) :
    InOrder (s.setFunctors s.functors.advance) := by
  have hq := Batch.queued_advance hf
  have hwaiting : (s.setFunctors s.functors.advance).waiting = s.waiting := by
    change _ ++ s.sending = _ ++ s.sending
    rw [hq, List.filterMap_cons_none (message_bound hbound)]
    rfl
  have horder := h.order
  rw [hq] at horder
  constructor
  case sent =>
    rw [hwaiting]
    exact h.sent
  case order => exact horder.of_cons
  case shut =>
    intro hmem
    refine h.shut ?_
    rw [hq]
    exact List.mem_cons_of_mem _ hmem
  case ended =>
    rw [hwaiting]
    exact h.ended
  case called => exact h.called

theorem writes_sendInLoop (s : Link Tid) (k : Kernel) (message : Bytes) :
    (s.run k (.sendInLoop message)).socket.writes = s.socket.writes ++ [message] ∧
      (s.run k (.sendInLoop message)).socket.writeClosed = s.socket.writeClosed := by
  change (s.socket.write k message).2.writes = _ ∧ (s.socket.write k message).2.writeClosed = _
  unfold Socket.write
  split <;> exact ⟨rfl, rfl⟩

/-- A message is written. -/
theorem InOrder.sendInLoop (h : InOrder s) (k : Kernel) {message : Bytes} {fs : List Functor}
    (hf : s.functors.todo = .raw (.sendInLoop message) :: fs) :
    InOrder ((s.setFunctors s.functors.advance).run k (.sendInLoop message)) := by
  have hq := Batch.queued_advance hf
  obtain ⟨hwrites, hclosed⟩ :=
    writes_sendInLoop (s.setFunctors s.functors.advance) k message
  have hwaiting : s.waiting =
      message :: ((s.setFunctors s.functors.advance).run k (.sendInLoop message)).waiting := by
    rw [waiting, hq]
    rfl
  have horder := h.order
  rw [hq] at horder
  constructor
  case sent =>
    rw [hwrites, List.append_assoc]
    have hsent := h.sent
    rw [hwaiting] at hsent
    exact hsent
  case order => exact horder.of_cons
  case shut =>
    intro hmem
    refine h.shut ?_
    rw [hq]
    exact List.mem_cons_of_mem _ hmem
  case ended =>
    intro hover
    rw [Over, hclosed] at hover
    have hnone := (h.ended hover).2
    rw [hwaiting] at hnone
    cases hnone
  case called => exact h.called

/-- The write side is shut down, all that was queued before being written. -/
theorem InOrder.shutdownInLoop (h : InOrder s) (k : Kernel) {fs : List Functor}
    (hf : s.functors.todo = .raw .shutdownInLoop :: fs) :
    InOrder ((s.setFunctors s.functors.advance).run k .shutdownInLoop) := by
  have hq := Batch.queued_advance hf
  obtain ⟨hpast, hsending⟩ := h.shut (by rw [hq]; exact List.mem_cons_self ..)
  have horder := h.order
  rw [hq, List.pairwise_cons] at horder
  have hnone : s.functors.advance.queued.filterMap Functor.message = [] := by
    rw [List.filterMap_eq_nil_iff]
    exact fun g hg => horder.1 g hg rfl
  have hwaiting : s.waiting = [] := by
    rw [waiting, hq, hsending, List.append_nil, List.filterMap_cons_none rfl]
    exact hnone
  have hwaiting' : ((s.setFunctors s.functors.advance).run k .shutdownInLoop).waiting = [] := by
    change s.functors.advance.queued.filterMap Functor.message ++ s.sending = []
    rw [hnone, hsending]
    rfl
  constructor
  case sent =>
    have hsent := h.sent
    rw [hwaiting] at hsent
    rw [hwaiting']
    exact hsent
  case order => exact horder.2
  case shut => exact fun _ => ⟨hpast, hsending⟩
  case ended => exact fun _ => ⟨hpast, hwaiting'⟩
  case called => exact h.called

/-! ## Calls -/

section Calls

variable {t : Tid}

theorem InOrder.callSend (h : InOrder s) (message : Bytes) (hstate : s.life.state = .kConnected) :
    InOrder { s with
      calls := (t, .send message) :: s.calls, sent := s.sent ++ [message] } where
  sent := by
    have hsent := h.sent.append_right [message]
    refine hsent.trans ?_
    rw [waiting, List.append_assoc, List.append_assoc]
    exact ((List.perm_append_singleton message s.sending).append_left _).append_left _
  order := h.order
  shut hmem := absurd hstate (h.shut hmem).1.not_connected
  ended hover := absurd hstate (h.ended hover).1.not_connected
  called t' hmem := by
    rcases List.mem_cons.mp hmem with heq | hmem
    · cases heq
    · exact h.called t' hmem

theorem InOrder.callShutdown (h : InOrder s) :
    InOrder { s with calls := (t, .shutdown) :: s.calls } where
  sent := h.sent
  order := h.order
  shut := h.shut
  ended := h.ended
  called t' hmem := by
    rcases List.mem_cons.mp hmem with heq | hmem
    · cases heq
    · exact h.called t' hmem

variable [DecidableEq Tid]

/-- A thread goes on in its call. -/
theorem sending_erase {c : Progress} (h : (t, c) ∈ s.calls) :
    s.sending.Perm (c.message.toList ++ (s.calls.erase (t, c)).filterMap (·.2.message)) := by
  refine ((List.perm_cons_erase h).filterMap _).trans ?_
  cases hm : c.message with
  | none => simp [hm]
  | some message => simp [hm]

theorem InOrder.queueSend (h : InOrder s) {message : Bytes}
    (hmem : (t, .send message) ∈ s.calls) :
    InOrder ({ s with calls := s.calls.erase (t, .send message) }.queueInLoop
      (.raw (.sendInLoop message))) := by
  have hsending := sending_erase hmem
  have hsome : message ∈ s.sending := hsending.mem_iff.mpr (List.mem_cons_self ..)
  have hshut : .raw .shutdownInLoop ∉ s.functors.queued := by
    intro hshut
    rw [(h.shut hshut).2] at hsome
    cases hsome
  have hover : ¬s.Over := by
    intro hover
    have hmem : message ∈ s.waiting := List.mem_append_right _ hsome
    rw [(h.ended hover).2] at hmem
    cases hmem
  have hqueued : ({ s with calls := s.calls.erase (t, .send message) }.queueInLoop
      (.raw (.sendInLoop message))).functors.queued =
        s.functors.queued ++ [.raw (.sendInLoop message)] := Batch.queued_push
  constructor
  case sent =>
    refine h.sent.trans (List.Perm.append_left _ ?_)
    rw [waiting, waiting, hqueued, List.filterMap_append, List.append_assoc]
    exact hsending.append_left _
  case order =>
    rw [hqueued, List.pairwise_append]
    refine ⟨h.order, List.pairwise_singleton .., fun f hf g _ heq => ?_⟩
    exact absurd (heq ▸ hf) hshut
  case shut =>
    intro hmem
    rw [hqueued] at hmem
    exact absurd ((List.mem_append.mp hmem).resolve_right (by simp)) hshut
  case ended => exact fun hover' => absurd hover' hover
  case called => exact fun t' hmem => h.called t' (List.mem_of_mem_erase hmem)

theorem InOrder.setDisconnecting (h : InOrder s) (hmem : (t, .shutdown) ∈ s.calls) :
    InOrder { s.setLife s.life.setDisconnecting with
      calls := (t, .shutdownInLoop) :: s.calls.erase (t, .shutdown) } := by
  have hsending : s.sending.Perm (((t, Progress.shutdownInLoop) ::
      s.calls.erase (t, .shutdown)).filterMap (·.2.message)) := by
    rw [List.filterMap_cons_none rfl]
    exact sending_erase hmem
  constructor
  case sent => exact h.sent.trans ((hsending.append_left _).append_left _)
  case order => exact h.order
  case shut =>
    intro hshut
    have hnone := (h.shut hshut).2
    rw [hnone] at hsending
    exact ⟨Or.inl rfl, hsending.nil_eq.symm⟩
  case ended =>
    intro hover
    obtain ⟨_, hnone⟩ := h.ended hover
    have hwaiting := hsending.append_left (s.functors.queued.filterMap Functor.message)
    rw [← waiting, hnone] at hwaiting
    exact ⟨Or.inl rfl, hwaiting.nil_eq.symm⟩
  case called => exact fun _ _ => Or.inl rfl

/-- `shutdownInLoop` is queued, no thread being in `send`. -/
theorem InOrder.queueShutdown (h : InOrder s) (hmem : (t, .shutdownInLoop) ∈ s.calls)
    (hnone : s.sending = []) :
    InOrder ({ s with calls := s.calls.erase (t, .shutdownInLoop) }.queueInLoop
      (.raw .shutdownInLoop)) := by
  have hpast := h.called t hmem
  have hsending := sending_erase hmem
  rw [hnone] at hsending
  have hnone' := hsending.nil_eq.symm
  have hqueued : ({ s with calls := s.calls.erase (t, .shutdownInLoop) }.queueInLoop
      (.raw .shutdownInLoop)).functors.queued = s.functors.queued ++ [.raw .shutdownInLoop] :=
    Batch.queued_push
  have hwaiting : ({ s with calls := s.calls.erase (t, .shutdownInLoop) }.queueInLoop
      (.raw .shutdownInLoop)).waiting = s.waiting := by
    rw [waiting, waiting, hqueued, List.filterMap_append, hnone, List.append_assoc]
    exact congrArg _ hnone'
  constructor
  case sent =>
    rw [hwaiting]
    exact h.sent
  case order =>
    rw [hqueued, List.pairwise_append]
    refine ⟨h.order, List.pairwise_singleton .., fun f _ g hg _ => ?_⟩
    rw [List.mem_singleton.mp hg]
    rfl
  case shut => exact fun _ => ⟨hpast, hnone'⟩
  case ended =>
    intro hover
    rw [hwaiting]
    exact h.ended hover
  case called => exact fun t' hmem => h.called t' (List.mem_of_mem_erase hmem)

end Calls

/-! ## The loop's own calls -/

theorem InOrder.send (h : InOrder s) (k : Kernel) (message : Bytes)
    (hstate : s.life.state = .kConnected) :
    InOrder ({ s with sent := s.sent ++ [message] }.run k (.sendInLoop message)) := by
  obtain ⟨hwrites, hclosed⟩ := writes_sendInLoop { s with sent := s.sent ++ [message] } k message
  constructor
  case sent =>
    rw [hwrites, List.append_assoc]
    refine (h.sent.append_right [message]).trans ?_
    rw [List.append_assoc]
    exact List.perm_append_comm.append_left _
  case order => exact h.order
  case shut => exact h.shut
  case ended =>
    intro hover
    rw [Over, hclosed] at hover
    exact absurd hstate (h.ended hover).1.not_connected
  case called => exact h.called

theorem InOrder.shutdown (h : InOrder s) (k : Kernel) (hnone : s.waiting = []) :
    InOrder ((s.setLife s.life.setDisconnecting).run k .shutdownInLoop) where
  sent := h.sent
  order := h.order
  shut _ := ⟨Or.inl rfl, (List.append_eq_nil_iff.mp hnone).2⟩
  ended _ := ⟨Or.inl rfl, hnone⟩
  called _ _ := Or.inl rfl

theorem InOrder.call (h : InOrder s) (k : Kernel) {f : Functor} {fs : List Functor}
    (hf : s.functors.todo = f :: fs)
    (hn : (s.setFunctors s.functors.advance).call k f = .ok s') : InOrder s' := by
  cases f with
  | raw f =>
      obtain ⟨_, _, hn⟩ := bind_eq_ok hn
      cases hn
      cases f with
      | sendInLoop message => exact h.sendInLoop k hf
      | shutdownInLoop => exact h.shutdownInLoop k hf
  | connectEstablished => exact (h.advance hf rfl).connectEstablished hn
  | connectDestroyed =>
      cases hn
      exact (h.advance hf rfl).silent silent_connectDestroyed
  | setCloseCallback =>
      cases hn
      have h' := h.advance hf rfl
      exact ⟨h'.sent, h'.order, h'.shut, h'.ended, h'.called⟩

/-! ## Events -/

theorem inOrder_new {owner : Owner} : InOrder (new owner : Link Tid) where
  sent := List.Perm.refl _
  order := List.Pairwise.nil
  shut h := by cases h
  ended h := by rcases h with h | h <;> cases h
  called _ h := by cases h

theorem inOrder_start {owner : Owner} (h : start owner = .ok s) : InOrder s := by
  unfold start at h
  split at h
  · cases h
    have hnew : InOrder (new (.server false) : Link Tid) := inOrder_new
    refine ⟨List.Perm.refl _, List.pairwise_singleton .., fun hmem => ?_, hnew.ended, hnew.called⟩
    cases List.mem_singleton.mp hmem
  · exact inOrder_new.connectEstablished h

variable {a : Event Tid}

/-- The event calls `sockets::write`. -/
def Writes (s : Link Tid) : Event Tid → Prop
  | .send _ => s.life.state = .kConnected
  | .functor => ∃ message fs, s.functors.todo = .raw (.sendInLoop message) :: fs
  | _ => False

theorem InOrder.not_over (h : InOrder s) (hw : s.Writes a) : ¬s.Over := by
  intro hover
  obtain ⟨hpast, hnone⟩ := h.ended hover
  cases a with
  | send message => exact hpast.not_connected hw
  | functor =>
      obtain ⟨message, fs, hf⟩ := hw
      have hmem : message ∈ s.waiting := by
        have hqueued := Batch.mem_queued_of_todo hf
        exact List.mem_append_left _ (List.mem_filterMap.mpr ⟨_, hqueued, rfl⟩)
      rw [hnone] at hmem
      cases hmem
  | _ => exact hw

variable [DecidableEq Tid]

/-- The side condition on events: the loop shuts down or closes the connection with
no message on its way, and other threads queue `shutdownInLoop` with no thread
in `send`. -/
def Patient (s : Link Tid) : Event Tid → Prop
  | .shutdown => s.life.state = .kConnected → s.waiting = []
  | .close => s.waiting = []
  | .step => s.stack.head? = some .destroying → s.waiting = []
  | .queueShutdown _ => s.sending = []
  | _ => True

theorem InOrder.next (h : InOrder s) (k : Kernel) (he : s.enabled a = true) (hC : s.Patient a)
    (hn : s.next k a = .ok s') : InOrder s' := by
  cases a with
  | read =>
      cases hn
      exact h.setStack _
  | close => exact h.handleClose hC hn
  | step => exact h.step hC hn
  | swap =>
      simp only [enabled, Bool.and_eq_true] at he
      cases hn
      exact h.setFunctors (Batch.queued_swap he.2)
  | functor =>
      simp only [Link.next] at hn
      split at hn
      · cases hn
        exact h
      · rename_i f fs hf
        exact h.call k hf hn
  | finish =>
      simp only [enabled, Bool.and_eq_true, List.isEmpty_iff] at he
      cases hn
      exact h.setFunctors (Batch.queued_finish he.2)
  | send message =>
      cases hn
      split
      · rename_i hstate
        exact h.send k message hstate
      · exact h
  | shutdown =>
      cases hn
      split
      · rename_i hstate
        exact h.shutdown k (hC hstate)
      · exact h
  | removeConnectionInLoop =>
      have hremoving : Silent s { s with removing := s.removing - 1 } :=
        .of_functors rfl rfl rfl rfl rfl rfl rfl
      exact h.silent (hremoving.trans (silent_remove hn))
  | destroy inLoop =>
      cases hn
      exact h.silent silent_destroy
  | share t =>
      cases hn
      exact ⟨h.sent, h.order, h.shut, h.ended, h.called⟩
  | drop t =>
      cases hn
      exact ⟨h.sent, h.order, h.shut, h.ended, h.called⟩
  | callSend t message =>
      cases hn
      split
      · rename_i hstate
        exact h.callSend message hstate
      · exact h
  | queueSend t message =>
      cases hn
      exact h.queueSend (of_decide_eq_true he)
  | callShutdown t =>
      cases hn
      split
      · exact h.callShutdown
      · exact h
  | setDisconnecting t =>
      cases hn
      exact h.setDisconnecting (of_decide_eq_true he)
  | queueShutdown t =>
      cases hn
      exact h.queueShutdown (of_decide_eq_true he) hC

/-! ## Whole runs -/

/-- Nothing is written once the write side is shut down or the connection has gone
down, and all that was accepted has been by then. -/
structure WrittenInTime (s : Link Tid) : Prop where
  writes : ∀ a, s.enabled a = true → s.Writes a → ¬s.Over
  written : s.Over → s.sent.Perm s.socket.writes

theorem inOrder_reachable {k : Kernel} (hs : ((system k).guarded Patient).Reachable s) :
    InOrder s := by
  have hinv : ((system k : Lts (Link Tid) _ _).guarded Patient).Invariant InOrder := {
    init := by
      rintro s ⟨owner, h⟩
      exact inOrder_start h
    step := fun s a s' h he hn => h.next k he.1 he.2 hn }
  exact hinv.reachable hs

/-- **Every message is written in time**, in every run in which the loop and other
threads are patient. -/
theorem written_in_time {k : Kernel} (hs : ((system k).guarded Patient).Reachable s) :
    s.WrittenInTime := by
  have h := inOrder_reachable hs
  refine ⟨fun a _ hw => h.not_over hw, fun hover => ?_⟩
  have hsent := h.sent
  rw [(h.ended hover).2, List.append_nil] at hsent
  exact hsent

/-- With a message on its way, nothing may be written any more. -/
theorem InOrder.not_in_time (h : InOrder s) (hwaiting : s.waiting ≠ []) (hover : s'.Over)
    (hsent : s'.sent = s.sent) (hwrites : s'.socket.writes = s.socket.writes) :
    ¬s'.WrittenInTime := by
  intro hw
  have hwritten := hw.written hover
  rw [hsent, hwrites] at hwritten
  have hlength := (h.sent.symm.trans hwritten).length_eq
  rw [List.length_append] at hlength
  have hpos := List.length_pos_iff.mpr hwaiting
  omega

/-- The side condition asks the loop for no more than is needed: a step of it against
the condition leaves a message behind at once. -/
theorem not_in_time_of_not {k : Kernel} (hs : ((system k).guarded Patient).Reachable s)
    (hC : ¬s.Patient a) (ha : ∀ t, a ≠ .queueShutdown t) (hn : s.next k a = .ok s') :
    ¬s'.WrittenInTime := by
  have h := inOrder_reachable hs
  cases a with
  | shutdown =>
      obtain ⟨hstate, hwaiting⟩ := Classical.not_imp.mp hC
      simp only [Link.next, if_pos hstate] at hn
      cases hn
      exact h.not_in_time hwaiting (Or.inl rfl) rfl rfl
  | close =>
      obtain ⟨life, hlife, hn⟩ := bind_eq_ok hn
      cases hn
      obtain ⟨_, rfl⟩ := Lifecycle.handleClose_ok (liftConn_ok hlife)
      refine h.not_in_time hC (Or.inr ?_) rfl rfl
      exact List.mem_append_right _ (List.mem_singleton.mpr rfl)
  | step =>
      obtain ⟨hhead, hwaiting⟩ := Classical.not_imp.mp hC
      obtain ⟨ps, hps⟩ := List.head?_eq_some_iff.mp hhead
      simp only [Link.next, Link.step, hps] at hn
      cases hn
      refine h.not_in_time hwaiting (Or.inr ?_) rfl rfl
      exact List.mem_append_right _ (List.mem_singleton.mpr rfl)
  | queueShutdown t => exact absurd rfl (ha t)
  | _ => exact absurd trivial hC

/-- A message from another thread, and then the end of the connection. -/
theorem written_in_time_shutdown : ∃ s : Link Nat, s.Over ∧ s.sent = [[65]] ∧
    s.WrittenInTime := by
  let L : Lts (Link Nat) (Event Nat) Fault := (system .eager).guarded Patient
  have h₀ : L.Reachable _ := .of_init ⟨.server true, rfl⟩
  have h₁ := h₀.step (a := Event.share 0) ⟨rfl, trivial⟩ rfl
  have h₂ := h₁.step (a := Event.callSend 0 [65]) ⟨rfl, trivial⟩ rfl
  have h₃ := h₂.step (a := Event.queueSend 0 [65]) ⟨rfl, trivial⟩ rfl
  have h₄ := h₃.step (a := Event.step) ⟨rfl, fun h => (by cases h)⟩ rfl
  have h₅ := h₄.step (a := Event.swap) ⟨rfl, trivial⟩ rfl
  have h₆ := h₅.step (a := Event.functor) ⟨rfl, trivial⟩ rfl
  have h₇ := h₆.step (a := Event.shutdown) ⟨rfl, fun _ => rfl⟩ rfl
  exact ⟨_, Or.inl rfl, rfl, written_in_time h₇⟩

/-- User code in the loop shuts the connection down with a message of another
thread in the queue. -/
theorem overtaken : ¬∀ (k : Kernel) (s : Link Nat), (system k).Reachable s → s.WrittenInTime := by
  intro h
  have h₀ : (system .eager : Lts (Link Nat) _ _).Reachable _ := .of_init ⟨.server true, rfl⟩
  have h₁ := h₀.step (a := Event.share 0) rfl rfl
  have h₂ := h₁.step (a := Event.callSend 0 [65]) rfl rfl
  have h₃ := h₂.step (a := Event.queueSend 0 [65]) rfl rfl
  have h₄ := h₃.step (a := Event.shutdown) rfl rfl
  have h₅ := h₄.step (a := Event.step) rfl rfl
  have h₆ := h₅.step (a := Event.swap) rfl rfl
  exact (h _ _ h₆).writes .functor rfl ⟨_, _, rfl⟩ (Or.inl rfl)

end Link

end Muduo
