import Mathlib.Logic.Relation
import Muduo.Server.Effect

/-!
# A connection's part in the server

What the loops, their queues and `connections_` hold of one connection is
its `Account`, and what can happen to it in one step of the server a `Move`.
Every step of the server is for each connection a few moves (`steps_of_next`),
most often none. So what the moves keep holds of every connection in every
state (`account_invariant`), whatever the others do.

Some moves are made only by a server that is destroyed, or misused, and the
theorems are about runs without them: a move of such a kind (`Irregular`)
says so, and a step that is not of the kind has no such moves.
-/

namespace Muduo

open Lib

namespace TcpServer

/-! ## Accounts and moves -/

structure Account where
  life : Lifecycle
  history : List Mark
  /-- Its functors in the queue of its loop. -/
  functors : List Method
  /-- Its `removeConnectionInLoop`s in the queue of the acceptor's. -/
  removals : Nat
  /-- The functions of it that its loop is in. -/
  stack : List Point
  /-- How often it is in `connections_`. -/
  entries : Nat

/-- A connection just created. -/
def Account.fresh : Account := ⟨.new, [], [.connectEstablished], 0, [], 1⟩

/-- Kinds of steps: a connection takes the name of another; `~TcpServer` drops
connections; `connectDestroyed` finds `kDisconnecting`; `shutdown()` sets
`state_` in another thread; it does when `connectDestroyed` has just done so;
`handleClose` begins. -/
inductive Irregular where
  | overwritten | orphaned | cutShort | setting | late | closing

/-- `connectDestroyed` may run: `connectEstablished` is not before it in the
queue, and its loop is in no function of the connection but user code. -/
structure Destroyable (P : Irregular → Prop) (a : Account) (fs fs' : List Method) : Prop where
  functors : a.functors = fs ++ .connectDestroyed :: fs'
  established : .connectEstablished ∉ fs
  stack : a.stack = [] ∨ P .orphaned ∧ ∀ p ∈ a.stack, p.isUser = true

/-- What happens to a connection. -/
inductive Move (P : Irregular → Prop) (a : Account) : Account → Prop
  | established {fs : List Method} {life : Lifecycle}
      (functors : a.functors = .connectEstablished :: fs) (stack : a.stack = [])
      (result : a.life.connectEstablished = .ok life) :
      Move P a { a with
        life := life, history := a.history ++ [.connectEstablished], functors := fs
        stack := [.established] }
  | read (stack : a.stack = []) (polled : a.life.isPolled = true) :
      Move P a { a with history := a.history ++ [.handleRead], stack := [.message] }
  | close {life : Lifecycle} (kind : P .closing) (stack : a.stack = [])
      (polled : a.life.isPolled = true) (result : a.life.handleClose = .ok life) :
      Move P a { a with
        life := life, history := a.history ++ [.handleClose], stack := [.closing] }
  | returned {p : Point} {ps : List Point} (stack : a.stack = p :: ps)
      (point : p = .established ∨ p = .message) : Move P a { a with stack := ps }
  | removing {ps : List Point} (stack : a.stack = .closing :: ps) :
      Move P a { a with stack := .closed :: ps, removals := a.removals + 1 }
  | removed {n : Nat} (removals : a.removals = n + 1) (entries : ¬P .overwritten → a.entries ≠ 0) :
      Move P a { a with
        history := a.history ++ [.removeConnectionInLoop]
        functors := a.functors ++ [.connectDestroyed], removals := n, entries := 0 }
  | closed {ps : List Point} (stack : a.stack = .closed :: ps) :
      Move P a { a with history := a.history ++ [.closed], stack := ps }
  | dropped {n : Nat} (kind : P .orphaned) (entries : a.entries = n + 1) :
      Move P a { a with
        history := a.history ++ [.dropped]
        functors := a.functors ++ [.connectDestroyed], entries := n }
  | destroying {fs fs' : List Method} (can : Destroyable P a fs fs')
      (state : a.life.state = .kConnected) :
      Move P a { a with
        history := a.history ++ [.connectDestroyed], functors := fs ++ fs'
        stack := .destroying :: a.stack }
  | destroyed {fs fs' : List Method} (can : Destroyable P a fs fs')
      (state : a.life.state ≠ .kConnected)
      (kind : a.life.state = .kDisconnecting → P .cutShort) :
      Move P a { a with
        life := a.life.remove, history := a.history ++ [.connectDestroyed, .destroyed]
        functors := fs ++ fs' }
  | down {ps : List Point} (stack : a.stack = .destroying :: ps)
      (user : ∀ p ∈ ps, p.isUser = true) :
      Move P a { a with life := a.life.goDown, stack := .down :: ps }
  | finished {ps : List Point} (stack : a.stack = .down :: ps) :
      Move P a { a with
        life := a.life.remove, history := a.history ++ [.destroyed], stack := ps }
  | shutdown (given : a.life.reports ≠ []) : Move P a { a with life := a.life.shutdown }
  | disconnecting (kind : P .setting) (given : a.life.reports ≠ [])
      (late : .down ∈ a.stack → P .late) :
      Move P a { a with life := a.life.setDisconnecting }
  | lost {n : Nat} (kind : P .overwritten) (entries : n ≤ a.entries) :
      Move P a { a with entries := n }

abbrev Steps (P : Irregular → Prop) : Account → Account → Prop := Relation.ReflTransGen (Move P)

/-- When `connectDestroyed` runs, `connectEstablished` has, if it was first. -/
theorem Destroyable.past {P : Irregular → Prop} {a : Account} {fs fs' : List Method}
    (h : Destroyable P a fs fs') (hfirst : .connectEstablished ∉ a.functors.tail) :
    .connectEstablished ∉ a.functors ∧ .connectEstablished ∉ fs ++ fs' := by
  rw [h.functors] at hfirst
  have hafter : .connectEstablished ∉ fs' := by
    intro hmem
    cases fs with
    | nil => exact hfirst hmem
    | cons f fs => exact hfirst (List.mem_append_right fs (List.mem_cons_of_mem _ hmem))
  constructor
  · rw [h.functors]
    intro hmem
    rcases List.mem_append.mp hmem with hmem | hmem
    · exact h.established hmem
    · exact hafter ((List.mem_cons.mp hmem).resolve_left (by simp))
  · intro hmem
    exact (List.mem_append.mp hmem).elim h.established hafter

theorem Destroyable.mono {P Q : Irregular → Prop} (hPQ : ∀ k, P k → Q k) {a : Account}
    {fs fs' : List Method} (h : Destroyable P a fs fs') : Destroyable Q a fs fs' :=
  ⟨h.functors, h.established, h.stack.imp id fun hs => ⟨hPQ _ hs.1, hs.2⟩⟩

theorem Move.mono {P Q : Irregular → Prop} (hPQ : ∀ k, P k → Q k) {a b : Account}
    (h : Move P a b) : Move Q a b := by
  cases h with
  | established functors stack result => exact .established functors stack result
  | read stack polled => exact .read stack polled
  | close kind stack polled result => exact .close (hPQ _ kind) stack polled result
  | returned stack point => exact .returned stack point
  | removing stack => exact .removing stack
  | removed removals entries => exact .removed removals fun hk => entries fun hP => hk (hPQ _ hP)
  | closed stack => exact .closed stack
  | dropped kind entries => exact .dropped (hPQ _ kind) entries
  | destroying can state => exact .destroying (can.mono hPQ) state
  | destroyed can state kind => exact .destroyed (can.mono hPQ) state fun hs => hPQ _ (kind hs)
  | down stack user => exact .down stack user
  | finished stack => exact .finished stack
  | shutdown given => exact .shutdown given
  | disconnecting kind given late =>
      exact .disconnecting (hPQ _ kind) given fun hs => hPQ _ (late hs)
  | lost kind entries => exact .lost (hPQ _ kind) entries

/-- What moves keep, runs of them keep. -/
theorem Steps.invariant {P : Irregular → Prop} {I : Account → Prop}
    (hmove : ∀ a b, I a → Move P a b → I b) {a b : Account} (h : Steps P a b) (ha : I a) : I b := by
  induction h with
  | refl => exact ha
  | tail _ hm ih => exact hmove _ _ ih hm

/-! ## The account of a connection -/

def Functor.of (c : Nat) (f : Functor) : Option Method :=
  if f.conn = c ∧ f.method ≠ .removeConnectionInLoop then some f.method else none

def Frame.of (c : Nat) : Frame → Option Point
  | conn p c' => if c' = c then some p else none
  | _ => none

variable {Tid : Type}

def account (s : TcpServer Tid) (c : Nat) : Account where
  life := (s.conn c).life
  history := (s.conn c).history.map Prod.snd
  functors := (s.loop (s.conn c).loop).functors.queued.filterMap (Functor.of c)
  removals := (s.loop 0).functors.queued.count ⟨.removeConnectionInLoop, c⟩
  stack := (s.loop (s.conn c).loop).stack.filterMap (Frame.of c)
  entries := (s.connections.map Prod.snd).count c

variable {s s' : TcpServer Tid} {c c' l : Nat}

/-! ### What changes it -/

/-- What is set of a connection, its loop staying what it is. -/
theorem account_setConn_self {k : Conn} (h : k.loop = (s.conn c).loop) :
    (s.setConn c k).account c =
      { s.account c with life := k.life, history := k.history.map Prod.snd } := by
  simp only [account, conn_setConn_self, h]
  rfl

theorem account_setConn_ne {k : Conn} (h : c' ≠ c) :
    (s.setConn c k).account c' = s.account c' := by
  simp only [account, conn_setConn_ne h]
  rfl

theorem account_setLife_self {life : Lifecycle} :
    (s.setLife c life).account c = { s.account c with life := life } :=
  account_setConn_self rfl

theorem account_setLife_ne {life : Lifecycle} (h : c' ≠ c) :
    (s.setLife c life).account c' = s.account c' := account_setConn_ne h

theorem account_record_self {m : Mark} :
    (s.record c l m).account c =
      { s.account c with history := (s.account c).history ++ [m] } := by
  have h := account_setConn_self (s := s) (c := c)
    (k := { s.conn c with history := (s.conn c).history ++ [(l, m)] }) rfl
  refine h.trans ?_
  simp [account]

theorem account_record_ne {m : Mark} (h : c' ≠ c) :
    (s.record c l m).account c' = s.account c' := account_setConn_ne h

/-- A loop changes, and not in what it has of the connection. -/
theorem account_setLoop {b : IoLoop}
    (hqueue : b.functors.queued.filterMap (Functor.of c) =
      (s.loop l).functors.queued.filterMap (Functor.of c))
    (hremove : b.functors.queued.count ⟨.removeConnectionInLoop, c⟩ =
      (s.loop l).functors.queued.count ⟨.removeConnectionInLoop, c⟩)
    (hstack : b.stack.filterMap (Frame.of c) = (s.loop l).stack.filterMap (Frame.of c)) :
    (s.setLoop l b).account c = s.account c := by
  have hloop (l' : Nat) :
      ((s.setLoop l b).loop l').functors.queued.filterMap (Functor.of c) =
        (s.loop l').functors.queued.filterMap (Functor.of c) ∧
      ((s.setLoop l b).loop l').functors.queued.count ⟨.removeConnectionInLoop, c⟩ =
        (s.loop l').functors.queued.count ⟨.removeConnectionInLoop, c⟩ ∧
      ((s.setLoop l b).loop l').stack.filterMap (Frame.of c) =
        (s.loop l').stack.filterMap (Frame.of c) := by
    by_cases hl : l' = l
    · subst hl
      rw [loop_setLoop_self]
      exact ⟨hqueue, hremove, hstack⟩
    · rw [loop_setLoop_ne hl]
      exact ⟨rfl, rfl, rfl⟩
  unfold account
  rw [(hloop 0).2.1, show (s.setLoop l b).conn = s.conn from rfl, (hloop _).1, (hloop _).2.2]
  rfl

theorem account_setFunctors {b : Batch Functor} (h : b.queued = (s.loop l).functors.queued) :
    (s.setFunctors l b).account c = s.account c := by
  refine account_setLoop ?_ ?_ rfl
  · rw [h]
  · rw [h]

theorem account_setStack {fs : List Frame}
    (h : fs.filterMap (Frame.of c) = (s.loop l).stack.filterMap (Frame.of c)) :
    (s.setStack l fs).account c = s.account c := account_setLoop rfl rfl h

theorem account_setStack_self {fs : List Frame} (h : l = (s.conn c).loop) :
    (s.setStack l fs).account c = { s.account c with stack := fs.filterMap (Frame.of c) } := by
  subst h
  have hloop (l' : Nat) :
      ((s.setStack (s.conn c).loop fs).loop l').functors = (s.loop l').functors := by
    by_cases hl : l' = (s.conn c).loop
    · subst hl
      rw [setStack, loop_setLoop_self]
    · rw [setStack, loop_setLoop_ne hl]
  unfold account
  rw [hloop, show (s.setStack _ fs).conn = s.conn from rfl, hloop, setStack, loop_setLoop_self]
  rfl

theorem Frame.of_conn_self {p : Point} : (Frame.conn p c).of c = some p := if_pos rfl

theorem Frame.of_conn_ne {p : Point} (h : c' ≠ c) : (Frame.conn p c).of c' = none :=
  if_neg (Ne.symm h)

theorem account_enter_self {p : Point} (h : l = (s.conn c).loop) :
    (s.enter l (.conn p c)).account c =
      { s.account c with stack := p :: (s.account c).stack } := by
  rw [enter, account_setStack_self h, List.filterMap_cons_some Frame.of_conn_self, h]
  rfl

theorem account_enter {f : Frame} (h : f.of c = none) : (s.enter l f).account c = s.account c :=
  account_setStack (List.filterMap_cons_none h)

theorem Functor.of_self {m : Method} (h : m ≠ .removeConnectionInLoop) :
    (Functor.mk m c).of c = some m := if_pos ⟨rfl, h⟩

theorem Functor.of_remove : (Functor.mk .removeConnectionInLoop c).of c' = none :=
  if_neg fun h => h.2 rfl

theorem Functor.of_ne {f : Functor} (h : c ≠ f.conn) : f.of c = none :=
  if_neg fun hc => h hc.1.symm

theorem Functor.ne_of_ne {f : Functor} (h : c ≠ f.conn) : f ≠ ⟨.removeConnectionInLoop, c⟩ :=
  fun heq => h (congrArg Functor.conn heq).symm

theorem account_queueInLoop_ne {f : Functor} (h : c ≠ f.conn) :
    (s.queueInLoop l f).account c = s.account c := by
  refine account_setLoop ?_ ?_ rfl
  · rw [Batch.queued_push, List.filterMap_append, List.filterMap_cons_none (Functor.of_ne h)]
    exact List.append_nil _
  · rw [Batch.queued_push, List.count_append, List.count_singleton]
    simp [Functor.ne_of_ne h]

/-- A functor of the connection is queued in its loop. -/
theorem account_queueInLoop_self {m : Method} (hm : m ≠ .removeConnectionInLoop)
    (h : l = (s.conn c).loop) :
    (s.queueInLoop l ⟨m, c⟩).account c =
      { s.account c with functors := (s.account c).functors ++ [m] } := by
  subst h
  have hremove (l' : Nat) :
      ((s.queueInLoop (s.conn c).loop ⟨m, c⟩).loop l').functors.queued.count
          ⟨.removeConnectionInLoop, c⟩ =
        (s.loop l').functors.queued.count ⟨.removeConnectionInLoop, c⟩ ∧
      ((s.queueInLoop (s.conn c).loop ⟨m, c⟩).loop l').stack = (s.loop l').stack := by
    by_cases hl : l' = (s.conn c).loop
    · subst hl
      rw [queueInLoop, setFunctors, loop_setLoop_self, Batch.queued_push, List.count_append]
      simp [hm]
    · rw [queueInLoop, setFunctors, loop_setLoop_ne hl]
      exact ⟨rfl, rfl⟩
  unfold account
  rw [(hremove 0).1, show (s.queueInLoop _ _).conn = s.conn from rfl, (hremove _).2, queueInLoop,
    setFunctors, loop_setLoop_self, Batch.queued_push, List.filterMap_append,
    List.filterMap_cons_some (Functor.of_self hm)]
  rfl

/-- A `removeConnectionInLoop` is queued in the acceptor's loop. -/
theorem account_queueInLoop_remove :
    (s.queueInLoop 0 ⟨.removeConnectionInLoop, c⟩).account c =
      { s.account c with removals := (s.account c).removals + 1 } := by
  have hother (l' : Nat) :
      ((s.queueInLoop 0 ⟨.removeConnectionInLoop, c⟩).loop l').functors.queued.filterMap
          (Functor.of c) = (s.loop l').functors.queued.filterMap (Functor.of c) ∧
      ((s.queueInLoop 0 ⟨.removeConnectionInLoop, c⟩).loop l').stack = (s.loop l').stack := by
    by_cases hl : l' = 0
    · subst hl
      rw [queueInLoop, setFunctors, loop_setLoop_self, Batch.queued_push, List.filterMap_append,
        List.filterMap_cons_none Functor.of_remove]
      exact ⟨List.append_nil _, rfl⟩
    · rw [queueInLoop, setFunctors, loop_setLoop_ne hl]
      exact ⟨rfl, rfl⟩
  unfold account
  rw [show (s.queueInLoop _ _).conn = s.conn from rfl, (hother _).1, (hother _).2, queueInLoop,
    setFunctors, loop_setLoop_self, Batch.queued_push, List.count_append, List.count_singleton_self]
  rfl

/-- A functor of another connection is taken out. -/
theorem account_advance_ne {f : Functor} {fs : List Functor} (h : c ≠ f.conn)
    (hf : (s.loop l).functors.todo = f :: fs) :
    (s.setFunctors l (s.loop l).functors.advance).account c = s.account c := by
  have hq := Batch.queued_advance hf
  refine account_setLoop ?_ ?_ rfl
  · rw [hq, List.filterMap_cons_none (Functor.of_ne h)]
  · rw [hq, List.count_cons_of_ne (Functor.ne_of_ne h)]

theorem account_advance_self {m : Method} {fs : List Functor} (hm : m ≠ .removeConnectionInLoop)
    (h : l = (s.conn c).loop) (hf : (s.loop l).functors.todo = ⟨m, c⟩ :: fs) :
    ∃ ms, (s.account c).functors = m :: ms ∧
      (s.setFunctors l (s.loop l).functors.advance).account c =
        { s.account c with functors := ms } := by
  subst h
  have hq := Batch.queued_advance hf
  have hother (l' : Nat) :
      ((s.setFunctors (s.conn c).loop (s.loop (s.conn c).loop).functors.advance).loop
          l').functors.queued.count ⟨.removeConnectionInLoop, c⟩ =
        (s.loop l').functors.queued.count ⟨.removeConnectionInLoop, c⟩ ∧
      ((s.setFunctors (s.conn c).loop (s.loop (s.conn c).loop).functors.advance).loop l').stack =
        (s.loop l').stack := by
    by_cases hl : l' = (s.conn c).loop
    · subst hl
      rw [setFunctors, loop_setLoop_self, hq, List.count_cons_of_ne (by simpa using hm)]
      exact ⟨rfl, rfl⟩
    · rw [setFunctors, loop_setLoop_ne hl]
      exact ⟨rfl, rfl⟩
  refine ⟨(s.loop (s.conn c).loop).functors.advance.queued.filterMap (Functor.of c), ?_, ?_⟩
  · unfold account
    rw [hq, List.filterMap_cons_some (Functor.of_self hm)]
  · unfold account
    rw [(hother 0).1, show (s.setFunctors _ _).conn = s.conn from rfl, (hother _).2, setFunctors,
      loop_setLoop_self]
    rfl

theorem account_advance_remove {fs : List Functor}
    (hf : (s.loop 0).functors.todo = ⟨.removeConnectionInLoop, c⟩ :: fs) :
    ∃ n, (s.account c).removals = n + 1 ∧
      (s.setFunctors 0 (s.loop 0).functors.advance).account c =
        { s.account c with removals := n } := by
  have hq := Batch.queued_advance hf
  have hother (l' : Nat) :
      ((s.setFunctors 0 (s.loop 0).functors.advance).loop l').functors.queued.filterMap
          (Functor.of c) = (s.loop l').functors.queued.filterMap (Functor.of c) ∧
      ((s.setFunctors 0 (s.loop 0).functors.advance).loop l').stack = (s.loop l').stack := by
    by_cases hl : l' = 0
    · subst hl
      rw [setFunctors, loop_setLoop_self, hq, List.filterMap_cons_none Functor.of_remove]
      exact ⟨rfl, rfl⟩
    · rw [setFunctors, loop_setLoop_ne hl]
      exact ⟨rfl, rfl⟩
  refine ⟨(s.loop 0).functors.advance.queued.count ⟨.removeConnectionInLoop, c⟩, ?_, ?_⟩
  · unfold account
    rw [hq, List.count_cons_self]
  · unfold account
    rw [show (s.setFunctors _ _).conn = s.conn from rfl, (hother _).1, (hother _).2, setFunctors,
      loop_setLoop_self]
    rfl

theorem account_connections {m : List (Bytes × Nat)} :
    account { s with connections := m } c =
      { s.account c with entries := (m.map Prod.snd).count c } := rfl

end TcpServer

end Muduo
