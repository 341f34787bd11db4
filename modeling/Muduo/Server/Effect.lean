import Muduo.Server.TcpServer

/-!
# What a step of the server leaves alone

A function that some loop calls may push functors and enter functions of a
connection; nothing else about the loops changes, nor where a connection
belongs (`Effect`). A loop that goes on in a function of a connection first
leaves it (`effect_step`).
-/

namespace Muduo

open Lib

namespace TcpServer

variable {Tid : Type} {s s' : TcpServer Tid} {l c : Nat}

/-- What only a new connection changes. -/
structure Static (s s' : TcpServer Tid) : Prop where
  created : s'.created = s.created
  numThreads : s'.numThreads = s.numThreads
  next_ : s'.next_ = s.next_
  conn : ∀ c, (s'.conn c).loop = (s.conn c).loop ∧ (s'.conn c).name = (s.conn c).name

theorem Static.refl (s : TcpServer Tid) : Static s s := ⟨rfl, rfl, rfl, fun _ => ⟨rfl, rfl⟩⟩

theorem Static.trans {s'' : TcpServer Tid} (h : Static s s') (h' : Static s' s'') :
    Static s s'' where
  created := h'.created.trans h.created
  numThreads := h'.numThreads.trans h.numThreads
  next_ := h'.next_.trans h.next_
  conn c := ⟨(h'.conn c).1.trans (h.conn c).1, (h'.conn c).2.trans (h.conn c).2⟩

/-- The effect of a function that some loop calls: no loop is in less than
before, nor in more of `~TcpServer`. -/
structure Effect (s s' : TcpServer Tid) : Prop extends Static s s' where
  alive : s'.alive = s.alive
  flags : ∀ l, (s'.loop l).quit = (s.loop l).quit ∧ (s'.loop l).exited = (s.loop l).exited
  stack : ∀ l, ∃ fs, (∀ f ∈ fs, Frame.isDestructor f = false) ∧
    (s'.loop l).stack = fs ++ (s.loop l).stack

theorem Effect.of_loop (hstatic : Static s s') (halive : s'.alive = s.alive)
    (hloop : s'.loop = s.loop) : Effect s s' where
  toStatic := hstatic
  alive := halive
  flags l := by
    rw [hloop]
    exact ⟨rfl, rfl⟩
  stack l := by
    rw [hloop]
    exact ⟨[], by simp, rfl⟩

theorem Effect.refl (s : TcpServer Tid) : Effect s s := .of_loop (.refl s) rfl rfl

theorem Effect.trans {s'' : TcpServer Tid} (h : Effect s s') (h' : Effect s' s'') :
    Effect s s'' where
  toStatic := h.toStatic.trans h'.toStatic
  alive := h'.alive.trans h.alive
  flags l := ⟨(h'.flags l).1.trans (h.flags l).1, (h'.flags l).2.trans (h.flags l).2⟩
  stack l := by
    obtain ⟨fs, hfs, heq⟩ := h.stack l
    obtain ⟨gs, hgs, heq'⟩ := h'.stack l
    refine ⟨gs ++ fs, fun f hf => ?_, ?_⟩
    · rcases List.mem_append.mp hf with hf | hf
      · exact hgs f hf
      · exact hfs f hf
    · rw [heq', heq, List.append_assoc]

theorem effect_setConn {k : Conn} (hloop : k.loop = (s.conn c).loop)
    (hname : k.name = (s.conn c).name) : Effect s (s.setConn c k) := by
  refine .of_loop ⟨rfl, rfl, rfl, fun c' => ?_⟩ rfl rfl
  by_cases h : c' = c
  · rw [h, conn_setConn_self]
    exact ⟨hloop, hname⟩
  · rw [conn_setConn_ne h]
    exact ⟨rfl, rfl⟩

theorem effect_setLife {life : Lifecycle} : Effect s (s.setLife c life) := effect_setConn rfl rfl

theorem effect_record {m : Mark} : Effect s (s.record c l m) := effect_setConn rfl rfl

theorem effect_remove : Effect s (s.remove l c) := effect_setLife.trans effect_record

theorem effect_connections {m : List (Bytes × Nat)} : Effect s { s with connections := m } :=
  .of_loop ⟨rfl, rfl, rfl, fun _ => ⟨rfl, rfl⟩⟩ rfl rfl

/-- A loop changes, in its queue and by the functions `fs` called. -/
theorem effect_setLoop {b : IoLoop} (fs : List Frame) (hquit : b.quit = (s.loop l).quit)
    (hexited : b.exited = (s.loop l).exited) (hstack : b.stack = fs ++ (s.loop l).stack)
    (hfs : ∀ f ∈ fs, Frame.isDestructor f = false) : Effect s (s.setLoop l b) where
  toStatic := ⟨rfl, rfl, rfl, fun _ => ⟨rfl, rfl⟩⟩
  alive := rfl
  flags l' := by
    by_cases h : l' = l
    · subst h
      rw [loop_setLoop_self]
      exact ⟨hquit, hexited⟩
    · rw [loop_setLoop_ne h]
      exact ⟨rfl, rfl⟩
  stack l' := by
    by_cases h : l' = l
    · subst h
      rw [loop_setLoop_self]
      exact ⟨fs, hfs, hstack⟩
    · rw [loop_setLoop_ne h]
      exact ⟨[], by simp, rfl⟩

theorem effect_setFunctors {b : Batch Functor} : Effect s (s.setFunctors l b) :=
  effect_setLoop [] rfl rfl rfl (by simp)

theorem effect_queueInLoop {f : Functor} : Effect s (s.queueInLoop l f) := effect_setFunctors

theorem effect_enter {p : Point} : Effect s (s.enter l (.conn p c)) :=
  effect_setLoop [.conn p c] rfl rfl rfl (by simp [Frame.isDestructor])

theorem effect_call {f : Functor} (h : s.call l f = .ok s') : Effect s s' := by
  unfold call at h
  split at h
  · obtain ⟨_, _, _, rfl⟩ := connectEstablished_ok h
    exact (effect_setLife.trans effect_record).trans effect_enter
  · obtain ⟨_, ⟨_, rfl⟩ | ⟨_, rfl⟩⟩ := connectDestroyed_ok h
    · exact effect_record.trans effect_enter
    · exact effect_record.trans effect_remove
  · obtain ⟨_, _, _, rfl⟩ := removeConnectionInLoop_ok h
    exact (effect_connections.trans effect_record).trans effect_queueInLoop

theorem effect_runInLoop {caller : Nat} {f : Functor} (h : s.runInLoop caller l f = .ok s') :
    Effect s s' := by
  rcases runInLoop_ok h with ⟨_, h⟩ | ⟨_, rfl⟩
  · exact effect_call h
  · exact effect_queueInLoop

/-- A function of the server goes on to its next, `fs` left below. -/
theorem effect_replace {p : Point} {fs : List Frame} :
    Effect (s.setStack l fs) (s.setStack l (.conn p c :: fs)) where
  toStatic := ⟨rfl, rfl, rfl, fun _ => ⟨rfl, rfl⟩⟩
  alive := rfl
  flags l' := by
    by_cases h : l' = l
    · subst h
      rw [setStack, loop_setLoop_self, setStack, loop_setLoop_self]
      exact ⟨rfl, rfl⟩
    · rw [setStack, loop_setLoop_ne h, setStack, loop_setLoop_ne h]
      exact ⟨rfl, rfl⟩
  stack l' := by
    by_cases h : l' = l
    · subst h
      rw [setStack, loop_setLoop_self, setStack, loop_setLoop_self]
      exact ⟨[.conn p c], by simp [Frame.isDestructor], rfl⟩
    · rw [setStack, loop_setLoop_ne h, setStack, loop_setLoop_ne h]
      exact ⟨[], by simp, rfl⟩

/-- In a function of a connection, a loop goes on as if it had returned and
called another. -/
theorem effect_step {p : Point} {fs : List Frame} (hs : (s.loop l).stack = .conn p c :: fs)
    (h : s.step l = .ok s') : Effect (s.setStack l fs) s' := by
  simp only [step, hs] at h
  cases p with
  | established =>
      cases h
      exact .refl _
  | message =>
      cases h
      exact .refl _
  | closing =>
      obtain ⟨_, _, h⟩ := bind_eq_ok h
      exact effect_replace.trans (effect_runInLoop h)
  | closed =>
      cases h
      exact effect_record
  | destroying =>
      cases h
      have hlife : Effect (s.setStack l fs) ((s.setStack l fs).setLife c (s.conn c).life.goDown) :=
        effect_setLife
      exact hlife.trans (effect_replace (s := s.setLife c (s.conn c).life.goDown))
  | down =>
      cases h
      exact effect_remove

/-! ## A loop goes on -/

/-- In which function, and to where. -/
inductive Goes (s : TcpServer Tid) (l : Nat) (s' : TcpServer Tid) : Prop
  | nowhere (stack : (s.loop l).stack = []) (result : s' = s)
  | conn {p : Point} {c : Nat} {fs : List Frame} (stack : (s.loop l).stack = .conn p c :: fs)
      (effect : Effect (s.setStack l fs) s')
  | drop {fs : List Frame} {name : Bytes} {c : Nat} {rest : List (Bytes × Nat)}
      (stack : (s.loop l).stack = .destructor :: fs) (entries : s.connections = (name, c) :: rest)
      (result : s.drop l c rest = .ok s')
  | emptied {fs : List Frame} (stack : (s.loop l).stack = .destructor :: fs)
      (entries : s.connections = []) (result : s' = s.setStack l (.quitting 1 :: fs))
  | quits {i : Nat} {fs : List Frame} (stack : (s.loop l).stack = .quitting i :: fs)
      (bound : i ≤ s.numThreads) (result : s' = (s.quit i).setStack l (.joining i :: fs))
  | ended {i : Nat} {fs : List Frame} (stack : (s.loop l).stack = .quitting i :: fs)
      (bound : s.numThreads < i) (result : s' = { s.setStack l fs with alive := false })
  | joined {i : Nat} {fs : List Frame} (stack : (s.loop l).stack = .joining i :: fs)
      (result : s' = s.setStack l (.quitting (i + 1) :: fs))

theorem goes_of_step (h : s.step l = .ok s') : Goes s l s' := by
  cases hs : (s.loop l).stack with
  | nil =>
      simp only [step, hs] at h
      cases h
      exact .nowhere hs rfl
  | cons f fs =>
      cases f with
      | conn p c => exact .conn hs (effect_step hs h)
      | destructor =>
          simp only [step, hs] at h
          split at h
          · rename_i hm
            exact .drop hs hm h
          · rename_i hm
            cases h
            exact .emptied hs hm rfl
      | quitting i =>
          simp only [step, hs] at h
          split at h
          · rename_i hi
            cases h
            exact .quits hs hi rfl
          · rename_i hi
            cases h
            exact .ended hs (Nat.lt_of_not_le hi) rfl
      | joining i =>
          simp only [step, hs] at h
          cases h
          exact .joined hs rfl

theorem effect_drop {rest : List (Bytes × Nat)} (h : s.drop l c rest = .ok s') : Effect s s' :=
  (effect_connections.trans effect_record).trans (effect_runInLoop h)

theorem static_step (h : s.step l = .ok s') : Static s s' := by
  cases goes_of_step h with
  | nowhere _ hs' => exact hs' ▸ .refl s
  | @conn p c fs _ heffect =>
      have hpop : Static s (s.setStack l fs) := ⟨rfl, rfl, rfl, fun _ => ⟨rfl, rfl⟩⟩
      exact hpop.trans heffect.toStatic
  | drop _ _ h => exact (effect_drop h).toStatic
  | emptied _ _ hs' => exact hs' ▸ ⟨rfl, rfl, rfl, fun _ => ⟨rfl, rfl⟩⟩
  | quits _ _ hs' => exact hs' ▸ ⟨rfl, rfl, rfl, fun _ => ⟨rfl, rfl⟩⟩
  | ended _ _ hs' => exact hs' ▸ ⟨rfl, rfl, rfl, fun _ => ⟨rfl, rfl⟩⟩
  | joined _ hs' => exact hs' ▸ ⟨rfl, rfl, rfl, fun _ => ⟨rfl, rfl⟩⟩

/-! ## A server that is not destroyed -/

structure Standing (s : TcpServer Tid) : Prop where
  alive : s.alive = true
  stack : ∀ l, ∀ f ∈ (s.loop l).stack, f.isDestructor = false

theorem Standing.effect (h : Standing s) (he : Effect s s') : Standing s' where
  alive := he.alive.trans h.alive
  stack l f hf := by
    obtain ⟨fs, hfs, heq⟩ := he.stack l
    rw [heq] at hf
    rcases List.mem_append.mp hf with hf | hf
    · exact hfs f hf
    · exact h.stack l f hf

theorem Standing.setLoop (h : Standing s) {b : IoLoop}
    (hb : ∀ f ∈ b.stack, f ∈ (s.loop l).stack) : Standing (s.setLoop l b) where
  alive := h.alive
  stack l' f hf := by
    by_cases hl : l' = l
    · subst hl
      rw [loop_setLoop_self] at hf
      exact h.stack l' f (hb f hf)
    · rw [loop_setLoop_ne hl] at hf
      exact h.stack l' f hf

/-- The loop is in a function of a connection, if in any. -/
theorem Standing.top (h : Standing s) {f : Frame} {fs : List Frame}
    (hs : (s.loop l).stack = f :: fs) : ∃ p c, f = .conn p c := by
  have hf := h.stack l f (by simp [hs])
  cases f with
  | conn p c => exact ⟨p, c, rfl⟩
  | _ => cases hf

theorem Standing.step (h : Standing s) (hn : s.step l = .ok s') : Standing s' := by
  cases goes_of_step hn with
  | nowhere _ hs' => exact hs' ▸ h
  | conn hs heffect =>
      refine Standing.effect (h.setLoop fun g hg => ?_) heffect
      rw [hs]
      exact List.mem_cons_of_mem _ hg
  | drop hs _ _ => cases h.stack l .destructor (by simp [hs])
  | emptied hs _ _ => cases h.stack l .destructor (by simp [hs])
  | @quits i _ hs _ _ => cases h.stack l (.quitting i) (by simp [hs])
  | @ended i _ hs _ _ => cases h.stack l (.quitting i) (by simp [hs])
  | @joined i _ hs _ => cases h.stack l (.joining i) (by simp [hs])

variable [DecidableEq Tid] {a : Event Tid}

/-- Only a new connection is given a name. -/
theorem static_next (ha : a ≠ .newConnection) (h : s.next a = .ok s') : Static s s' := by
  cases a with
  | newConnection => exact absurd rfl ha
  | read c =>
      cases h
      exact (effect_record.trans effect_enter).toStatic
  | close c =>
      obtain ⟨_, _, rfl⟩ := handleClose_ok h
      exact ((effect_setLife.trans effect_record).trans effect_enter).toStatic
  | step l => exact static_step h
  | swap l =>
      cases h
      exact effect_setFunctors.toStatic
  | functor l =>
      simp only [next] at h
      split at h
      · cases h
        exact .refl s
      · exact (effect_setFunctors.trans (effect_call h)).toStatic
  | finish l =>
      cases h
      exact ⟨rfl, rfl, rfl, fun _ => ⟨rfl, rfl⟩⟩
  | destroy =>
      cases h
      exact ⟨rfl, rfl, rfl, fun _ => ⟨rfl, rfl⟩⟩
  | shutdown c =>
      cases h
      exact effect_setLife.toStatic
  | shutdownTest t c =>
      cases h
      split <;> exact ⟨rfl, rfl, rfl, fun _ => ⟨rfl, rfl⟩⟩
  | shutdownSet t c =>
      cases h
      have hlife : Effect s (s.setLife c (s.conn c).life.setDisconnecting) := effect_setLife
      exact ⟨rfl, rfl, rfl, hlife.conn⟩

theorem Standing.next (h : Standing s) (ha : a ≠ .destroy) (hn : s.next a = .ok s') :
    Standing s' := by
  cases a with
  | newConnection =>
      have hcreate : Standing s.create := ⟨h.alive, h.stack⟩
      exact hcreate.effect (effect_runInLoop hn)
  | read c =>
      cases hn
      exact h.effect (effect_record.trans effect_enter)
  | close c =>
      obtain ⟨_, _, rfl⟩ := handleClose_ok hn
      exact h.effect ((effect_setLife.trans effect_record).trans effect_enter)
  | step l => exact h.step hn
  | swap l =>
      cases hn
      exact h.effect effect_setFunctors
  | functor l =>
      simp only [TcpServer.next] at hn
      split at hn
      · cases hn
        exact h
      · exact h.effect (effect_setFunctors.trans (effect_call hn))
  | finish l =>
      cases hn
      exact h.setLoop fun _ => id
  | destroy => exact absurd rfl ha
  | shutdown c =>
      cases hn
      exact h.effect effect_setLife
  | shutdownTest t c =>
      cases hn
      split <;> exact ⟨h.alive, h.stack⟩
  | shutdownSet t c =>
      cases hn
      exact ⟨h.alive, h.stack⟩

end TcpServer

end Muduo
