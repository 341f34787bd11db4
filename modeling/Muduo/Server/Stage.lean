import Muduo.Server.Bookkeeping

/-!
# The stages of the server's destructor

`~TcpServer` drops the connections one by one, handing each its
`connectDestroyed`, and then has the I/O loops end, one by one. A loop that
has been asked to quit runs one more pass if it is between two, else only
the one it is in; so if no `connectDestroyed` waits for the next pass then,
none is lost (`Ends`).
-/

namespace Muduo

open Lib

namespace TcpServer

/-! ## Stages -/

/-- How far `~TcpServer` is: in its body; about to quit the `i`th loop; waiting
for its thread; done. -/
inductive Stage where
  | up | body | quitting (i : Nat) | joining (i : Nat) | ended
deriving DecidableEq

namespace Stage

/-- All the connections have been dropped. -/
def isPast : Stage → Bool
  | up => false
  | body => false
  | _ => true

/-- The thread of loop `l` has ended. -/
def HasJoined (numThreads l : Nat) : Stage → Prop
  | quitting i => l < i
  | joining i => l < i
  | ended => l ≤ numThreads
  | _ => False

end Stage

def Frame.stage : Frame → Option Stage
  | conn _ _ => none
  | destructor => some .body
  | quitting i => some (.quitting i)
  | joining i => some (.joining i)

variable {Tid : Type} {s s' : TcpServer Tid} {l c : Nat}

def stage (s : TcpServer Tid) : Stage :=
  if s.alive then ((s.loop 0).stack.findSome? Frame.stage).getD .up else .ended

theorem findSome?_stage {fs : List Frame} (h : ∀ f ∈ fs, f.isDestructor = false) :
    fs.findSome? Frame.stage = none := by
  rw [List.findSome?_eq_none_iff]
  intro f hf
  have hconn := h f hf
  cases f with
  | conn p c => rfl
  | _ => cases hconn

theorem stage_of_stack (fs : List Frame) (hfs : ∀ f ∈ fs, f.isDestructor = false)
    (halive : s'.alive = s.alive) (hstack : (s'.loop 0).stack = fs ++ (s.loop 0).stack) :
    s'.stage = s.stage := by
  rw [stage, stage, halive, hstack, List.findSome?_append, findSome?_stage hfs, Option.none_or]

theorem Effect.stage (h : Effect s s') : s'.stage = s.stage := by
  obtain ⟨fs, hfs, heq⟩ := h.stack 0
  exact stage_of_stack fs hfs h.alive heq

/-- A function of a connection is left. -/
theorem stage_leave {p : Point} {fs : List Frame} (hs : (s.loop l).stack = .conn p c :: fs) :
    (s.setStack l fs).stage = s.stage := by
  symm
  by_cases hl : l = 0
  · subst hl
    refine stage_of_stack [.conn p c] (by simp [Frame.isDestructor]) rfl ?_
    rw [setStack, loop_setLoop_self, hs]
    rfl
  · refine stage_of_stack [] (by simp) rfl ?_
    rw [setStack, loop_setLoop_ne (Ne.symm hl)]
    rfl

theorem stage_setLoop {b : IoLoop} (h : b.stack = (s.loop l).stack) :
    (s.setLoop l b).stage = s.stage := by
  refine stage_of_stack [] (by simp) rfl ?_
  by_cases hl : 0 = l
  · subst hl
    rw [loop_setLoop_self, h, List.nil_append]
  · rw [loop_setLoop_ne hl, List.nil_append]

/-- On top of the acceptor's stack, part of the destructor is its stage. -/
theorem stage_eq {f : Frame} {fs : List Frame} {st : Stage} (hf : f.stage = some st)
    (halive : s.alive = true) (hs : (s.loop 0).stack = f :: fs) : s.stage = st := by
  rw [stage, if_pos halive, hs, List.findSome?_cons_of_isSome (by simp [hf]), hf]
  rfl

theorem stage_setStack {f : Frame} {fs : List Frame} {st : Stage} (hf : f.stage = some st)
    (halive : s.alive = true) : (s.setStack 0 (f :: fs)).stage = st :=
  stage_eq (s := s.setStack 0 (f :: fs)) hf halive (by rw [setStack, loop_setLoop_self])

theorem stage_standing (h : s.Standing) : s.stage = .up := by
  rw [stage, if_pos h.alive, findSome?_stage (h.stack 0)]
  rfl

theorem standing_of_stage (hp : s.Placed) (h : s.stage = .up) : s.Standing := by
  unfold stage at h
  split at h
  · rename_i halive
    refine ⟨halive, fun l f hf => ?_⟩
    cases f with
    | conn p c => rfl
    | _ =>
        -- it is in loop 0, and `findSome?` would have found it
        have hsits := (hp.loops l).stack _ hf
        rw [show l = 0 from hsits] at hf
        cases hfind : (s.loop 0).stack.findSome? Frame.stage with
        | none => cases List.findSome?_eq_none_iff.mp hfind _ hf
        | some st =>
            obtain ⟨g, _, hg⟩ := List.exists_of_findSome?_eq_some hfind
            rw [hfind] at h
            obtain rfl : st = .up := h
            cases g <;> cases hg
  · cases h

/-! ## The loops finish -/

/-- A loop that has been asked to quit loses no `connectDestroyed`: those of the
next pass are all that it has. -/
structure LoopEnds (st : Stage) (b : IoLoop) : Prop where
  quit : b.quit = true → st.isPast = true
  exited : b.exited = true → b.quit = true
  kept : b.quit = true →
    b.functors.isHandling = true ∨ ∀ f ∈ b.functors.pending, f.method ≠ .connectDestroyed
  gone : b.exited = true → ∀ f ∈ b.functors.queued, f.method ≠ .connectDestroyed

structure Ends (s : TcpServer Tid) : Prop where
  loops : ∀ l, LoopEnds s.stage (s.loop l)
  /-- `~TcpServer` is called once. -/
  once : (s.loop 0).stack.countP Frame.isDestructor ≤ if s.alive then 1 else 0
  emptied : s.stage.isPast = true → s.connections = []
  joined : ∀ l, 1 ≤ l → s.stage.HasJoined s.numThreads l → (s.loop l).exited = true

theorem LoopEnds.of_not_quit {st : Stage} {b : IoLoop} (hquit : b.quit = false)
    (hexited : b.exited = false) : LoopEnds st b where
  quit h := by
    rw [hquit] at h
    cases h
  exited h := by
    rw [hexited] at h
    cases h
  kept h := by
    rw [hquit] at h
    cases h
  gone h := by
    rw [hexited] at h
    cases h

theorem ends_new {name hostport : Bytes} {numThreads : Nat} :
    Ends (new name hostport numThreads : TcpServer Tid) where
  loops _ := .of_not_quit rfl rfl
  once := Nat.zero_le _
  emptied h := by cases h
  joined _ _ h := by cases h

/-- Before the end of the body no loop is asked to quit. -/
theorem Ends.not_quit (h : Ends s) (hst : s.stage.isPast = false) (l : Nat) :
    (s.loop l).quit = false ∧ (s.loop l).exited = false := by
  have hquit : (s.loop l).quit = false := by
    by_contra hq
    have hpast := (h.loops l).quit (by simpa using hq)
    rw [hst] at hpast
    cases hpast
  refine ⟨hquit, ?_⟩
  by_contra he
  have hq := (h.loops l).exited (by simpa using he)
  rw [hquit] at hq
  cases hq

/-- What a step does to a loop, past the body: it may take functors out of the
queue. -/
structure Shrinks (b b' : IoLoop) : Prop where
  quit : b'.quit = b.quit
  exited : b'.exited = b.exited
  kept : b'.functors.isHandling = b.functors.isHandling
  pending : b'.functors.pending = b.functors.pending
  queued : ∀ f ∈ b'.functors.queued, f ∈ b.functors.queued

theorem LoopEnds.shrink {st : Stage} {b b' : IoLoop} (h : LoopEnds st b) (hs : Shrinks b b') :
    LoopEnds st b' where
  quit hq := h.quit (hs.quit ▸ hq)
  exited he := by
    rw [hs.quit]
    exact h.exited (hs.exited ▸ he)
  kept hq := by
    rw [hs.kept, hs.pending]
    exact h.kept (hs.quit ▸ hq)
  gone he f hf := h.gone (hs.exited ▸ he) f (hs.queued f hf)

/-- A step within a stage. -/
theorem Ends.goOn (h : Ends s) (hstage : s'.stage = s.stage)
    (halive : s'.alive = s.alive) (hnum : s'.numThreads = s.numThreads)
    (hstack : (s'.loop 0).stack.countP Frame.isDestructor ≤
      (s.loop 0).stack.countP Frame.isDestructor)
    (hflags : ∀ l, (s'.loop l).quit = (s.loop l).quit ∧ (s'.loop l).exited = (s.loop l).exited)
    (hpast : s.stage.isPast = true →
      s'.connections = s.connections ∧ ∀ l, Shrinks (s.loop l) (s'.loop l)) : Ends s' where
  loops l := by
    rw [hstage]
    cases hst : s.stage.isPast with
    | true => exact (h.loops l).shrink ((hpast hst).2 l)
    | false =>
        obtain ⟨hquit, hexited⟩ := h.not_quit hst l
        exact .of_not_quit ((hflags l).1.trans hquit) ((hflags l).2.trans hexited)
  once := by
    rw [halive]
    exact Nat.le_trans hstack h.once
  emptied hst := by
    rw [hstage] at hst
    rw [(hpast hst).1]
    exact h.emptied hst
  joined l hl hj := by
    rw [hstage, hnum] at hj
    rw [(hflags l).2]
    exact h.joined l hl hj

theorem countP_destructor {fs gs : List Frame} (h : ∀ f ∈ fs, f.isDestructor = false) :
    (fs ++ gs).countP Frame.isDestructor = gs.countP Frame.isDestructor := by
  rw [List.countP_append, List.countP_eq_zero.mpr fun f hf => by simp [h f hf], Nat.zero_add]

theorem Ends.effect (h : Ends s) (he : Effect s s')
    (hpast : s.stage.isPast = true →
      s'.connections = s.connections ∧ ∀ l, Shrinks (s.loop l) (s'.loop l)) : Ends s' := by
  refine h.goOn he.stage he.alive he.numThreads ?_ he.flags hpast
  obtain ⟨fs, hfs, heq⟩ := he.stack 0
  rw [heq, countP_destructor hfs]

/-- The stack aside, the loops stay what they are. -/
theorem loop_setStack {fs : List Frame} (l' : Nat) :
    ((s.setStack l fs).loop l').quit = (s.loop l').quit ∧
      ((s.setStack l fs).loop l').exited = (s.loop l').exited ∧
      ((s.setStack l fs).loop l').functors = (s.loop l').functors := by
  by_cases h : l' = l
  · subst h
    rw [setStack, loop_setLoop_self]
    exact ⟨rfl, rfl, rfl⟩
  · rw [setStack, loop_setLoop_ne h]
    exact ⟨rfl, rfl, rfl⟩

/-- The queues and `connections_` stay what they are. -/
structure SameQueues (s s' : TcpServer Tid) : Prop where
  connections : s'.connections = s.connections
  functors : ∀ l, (s'.loop l).functors = (s.loop l).functors

theorem SameQueues.setStack {fs : List Frame} : SameQueues s (s.setStack l fs) :=
  ⟨rfl, fun l' => (loop_setStack l').2.2⟩

theorem SameQueues.trans {s'' : TcpServer Tid} (h : SameQueues s s') (h' : SameQueues s' s'') :
    SameQueues s s'' :=
  ⟨h'.connections.trans h.connections, fun l => (h'.functors l).trans (h.functors l)⟩

/-- Nothing is done but to a connection. -/
theorem SameQueues.of_loop (hconnections : s'.connections = s.connections)
    (hloop : s'.loop = s.loop) : SameQueues s s' := ⟨hconnections, fun l => by rw [hloop]⟩

theorem SameQueues.enter {f : Frame} (h : SameQueues s s') : SameQueues s (s'.enter l f) :=
  h.trans .setStack

theorem sameQueues_call {f : Functor} (hf : f.method ≠ .removeConnectionInLoop)
    (h : s.call l f = .ok s') : SameQueues s s' := by
  unfold call at h
  split at h
  · obtain ⟨_, life, _, rfl⟩ := connectEstablished_ok h
    have hrecord : SameQueues s
      ((s.setLife f.conn life).record f.conn l .connectEstablished) := .of_loop rfl rfl
    exact hrecord.enter
  · obtain ⟨_, ⟨_, rfl⟩ | ⟨_, rfl⟩⟩ := connectDestroyed_ok h
    · have hrecord : SameQueues s (s.record f.conn l .connectDestroyed) := .of_loop rfl rfl
      exact hrecord.enter
    · exact .of_loop rfl rfl
  · rename_i hm
    exact absurd hm hf

theorem sameQueues_step {p : Point} {fs : List Frame} (hs : (s.loop l).stack = .conn p c :: fs)
    (hp : p ≠ .closing) (h : s.step l = .ok s') : SameQueues s s' := by
  simp only [step, hs] at h
  cases p with
  | established =>
      cases h
      exact .setStack
  | message =>
      cases h
      exact .setStack
  | closing => exact absurd rfl hp
  | closed =>
      cases h
      have hleave : SameQueues s (s.setStack l fs) := .setStack
      exact hleave.trans (.of_loop rfl rfl)
  | destroying =>
      cases h
      have hlife : SameQueues s (s.setLife c (s.conn c).life.goDown) := .of_loop rfl rfl
      exact hlife.trans .setStack
  | down =>
      cases h
      have hleave : SameQueues s (s.setStack l fs) := .setStack
      exact hleave.trans (.of_loop rfl rfl)

theorem SameQueues.shrinks (h : SameQueues s s') (he : Effect s s') (l : Nat) :
    Shrinks (s.loop l) (s'.loop l) where
  quit := (he.flags l).1
  exited := (he.flags l).2
  kept := by rw [h.functors]
  pending := by rw [h.functors]
  queued f hf := by rwa [h.functors] at hf

theorem Ends.same (h : Ends s) (he : Effect s s') (hq : SameQueues s s') : Ends s' :=
  h.effect he fun _ => ⟨hq.connections, hq.shrinks he⟩

/-- A loop changes, in its queue or in its flags. -/
theorem Ends.setLoop (h : Ends s) {b : IoLoop} (hb : LoopEnds s.stage b)
    (hstack : b.stack = (s.loop l).stack) (hexited : (s.loop l).exited = true → b.exited = true) :
    Ends (s.setLoop l b) := by
  have hstack' : ((s.setLoop l b).loop 0).stack = (s.loop 0).stack := by
    by_cases hl : 0 = l
    · subst hl
      rw [loop_setLoop_self, hstack]
    · rw [loop_setLoop_ne hl]
  have hstage : (s.setLoop l b).stage = s.stage := stage_setLoop hstack
  constructor
  case loops =>
    intro l'
    rw [hstage]
    by_cases hl : l' = l
    · subst hl
      rwa [loop_setLoop_self]
    · rw [loop_setLoop_ne hl]
      exact h.loops l'
  case once =>
    rw [hstack']
    exact h.once
  case emptied =>
    rw [hstage]
    exact h.emptied
  case joined =>
    intro l' hl' hj
    rw [hstage] at hj
    by_cases hl : l' = l
    · subst hl
      rw [loop_setLoop_self]
      exact hexited (h.joined l' hl' hj)
    · rw [loop_setLoop_ne hl]
      exact h.joined l' hl' hj

theorem Ends.leave (h : Ends s) {p : Point} {fs : List Frame}
    (hs : (s.loop l).stack = .conn p c :: fs) : Ends (s.setStack l fs) := by
  refine h.goOn (stage_leave hs) rfl rfl ?_
    (fun l' => ⟨(loop_setStack l').1, (loop_setStack l').2.1⟩) fun _ => ⟨rfl, fun l' => ?_⟩
  · by_cases hl : 0 = l
    · subst hl
      rw [TcpServer.setStack, loop_setLoop_self, hs]
      exact (List.sublist_cons_self ..).countP_le
    · rw [TcpServer.setStack, loop_setLoop_ne hl]
  · have hkept : ((s.setStack l fs).loop l').quit = (s.loop l').quit ∧
        ((s.setStack l fs).loop l').exited = (s.loop l').exited ∧
        ((s.setStack l fs).loop l').functors = (s.loop l').functors := loop_setStack l'
    obtain ⟨hquit, hexited, hq⟩ := hkept
    exact ⟨hquit, hexited, by rw [hq], by rw [hq], fun f hf => by rwa [hq] at hf⟩

/-- In the destructor the server is alive, and no other function of it is. -/
theorem Ends.destructor_top (h : Ends s) {f : Frame} {fs : List Frame}
    (hs : (s.loop 0).stack = f :: fs) (hf : f.isDestructor = true) :
    s.alive = true ∧ fs.countP Frame.isDestructor = 0 := by
  have honce := h.once
  rw [hs, List.countP_cons_of_pos hf] at honce
  split at honce
  · rename_i halive
    exact ⟨halive, by omega⟩
  · omega

/-- The side condition on events: no `handleClose` is under way when `~TcpServer`
begins, and none begins from then on; a loop that is asked to quit is not in a
pass with a `connectDestroyed` queued for the next. -/
def Calm (s : TcpServer Tid) (a : Event Tid) : Prop :=
  s.Named a ∧
    match a with
    | .destroy => ∀ e ∈ s.connections,
        (s.conn e.2).life.state = .kConnecting ∨ (s.conn e.2).life.interest = true
    | .close _ => s.destructing = false
    | .step l =>
        match (s.loop l).stack with
        | .quitting i :: _ =>
            i ≤ s.numThreads → (s.loop i).functors.isHandling = true ∨
              ∀ f ∈ (s.loop i).functors.pending, f.method ≠ .connectDestroyed
        | _ => True
    | _ => True

/-- No `handleClose` is under way once `~TcpServer` has begun. -/
def Quiet (s : TcpServer Tid) : Prop :=
  s.stage ≠ .up → ∀ c < s.created, (s.account c).stack.count .closing = 0 ∧
    (s.account c).removals = 0

/-- The destructor goes on, the loops being what they were. -/
theorem Ends.turn (h : Ends s) (st' : Stage) (hst' : s'.stage = st')
    (hconnections : s'.connections = s.connections) (hnum : s'.numThreads = s.numThreads)
    (hloop : ∀ l, (s'.loop l).quit = (s.loop l).quit ∧ (s'.loop l).exited = (s.loop l).exited ∧
      (s'.loop l).functors = (s.loop l).functors)
    (honce : (s'.loop 0).stack.countP Frame.isDestructor ≤ if s'.alive then 1 else 0)
    (hemptied : st'.isPast = true → s.connections = [])
    (hpast : s.stage.isPast = true → st'.isPast = true)
    (hjoined : ∀ l, 1 ≤ l → st'.HasJoined s.numThreads l →
      s.stage.HasJoined s.numThreads l ∨ (s.loop l).exited = true) : Ends s' := by
  subst hst'
  constructor
  case loops =>
    intro l
    obtain ⟨hquit, hexited, hfunctors⟩ := hloop l
    have hl := h.loops l
    refine ⟨fun hq => hpast (hl.quit (hquit ▸ hq)), ?_, ?_, ?_⟩
    · rw [hquit, hexited]
      exact hl.exited
    · rw [hquit, hfunctors]
      exact hl.kept
    · rw [hexited, hfunctors]
      exact hl.gone
  case once => exact honce
  case emptied => exact fun hst => hconnections.trans (hemptied hst)
  case joined =>
    intro l hl hj
    rw [hnum] at hj
    rw [(hloop l).2.1]
    rcases hjoined l hl hj with hj | hexited
    · exact h.joined l hl hj
    · exact hexited

/-- From one part of the destructor to the next. -/
theorem Ends.advance (h : Ends s) (st st' : Stage) {f g : Frame} {fs : List Frame}
    (hs : (s.loop 0).stack = f :: fs) (hf : f.stage = some st) (hg : g.stage = some st')
    (hemptied : st'.isPast = true → s.connections = [])
    (hpast : st.isPast = true → st'.isPast = true)
    (hjoined : ∀ l, 1 ≤ l → st'.HasJoined s.numThreads l →
      st.HasJoined s.numThreads l ∨ (s.loop l).exited = true) :
    Ends (s.setStack 0 (g :: fs)) := by
  have hfd : f.isDestructor = true := by cases f <;> first | rfl | cases hf
  have hgd : g.isDestructor = true := by cases g <;> first | rfl | cases hg
  obtain ⟨halive, hcount⟩ := h.destructor_top hs hfd
  obtain rfl : s.stage = st := stage_eq hf halive hs
  refine h.turn _ (stage_setStack hg halive) rfl rfl loop_setStack ?_ hemptied hpast hjoined
  rw [TcpServer.setStack, loop_setLoop_self]
  change (g :: fs).countP Frame.isDestructor ≤ if s.alive then 1 else 0
  rw [List.countP_cons_of_pos hgd, hcount, if_pos halive]

/-- The end of it. -/
theorem Ends.ended (h : Ends s) {i : Nat} {fs : List Frame}
    (hs : (s.loop 0).stack = .quitting i :: fs) (hi : s.numThreads < i) :
    Ends { s.setStack 0 fs with alive := false } := by
  obtain ⟨halive, hcount⟩ := h.destructor_top hs rfl
  have hst : s.stage = .quitting i := stage_eq rfl halive hs
  refine h.turn .ended rfl rfl rfl loop_setStack ?_ (fun _ => h.emptied (by rw [hst]; rfl))
    (fun _ => rfl) fun l _ hj => Or.inl ?_
  · change ((s.setStack 0 fs).loop 0).stack.countP Frame.isDestructor ≤ 0
    rw [TcpServer.setStack, loop_setLoop_self]
    exact hcount.le
  · rw [hst]
    exact Nat.lt_of_le_of_lt hj hi

theorem Ends.quit (h : Ends s) {i : Nat} (hpast : s.stage.isPast = true)
    (hC : (s.loop i).functors.isHandling = true ∨
      ∀ f ∈ (s.loop i).functors.pending, f.method ≠ .connectDestroyed) : Ends (s.quit i) :=
  h.setLoop ⟨fun _ => hpast, fun _ => rfl, fun _ => hC, (h.loops i).gone⟩ rfl id

theorem Ends.step (h : Ends s) (hp : s.Placed) (hn : s.step l = .ok s')
    (hblocked : s.blocked l = false)
    (hquits : ∀ i fs, (s.loop l).stack = .quitting i :: fs → i ≤ s.numThreads →
      (s.loop i).functors.isHandling = true ∨
        ∀ f ∈ (s.loop i).functors.pending, f.method ≠ .connectDestroyed)
    (hquiet : ∀ c fs, (s.loop l).stack = .conn .closing c :: fs → s.stage.isPast = false) :
    Ends s' := by
  cases goes_of_step hn with
  | nowhere _ hs' => exact hs' ▸ h
  | @conn p c fs hs heffect =>
      refine (h.leave hs).effect heffect fun hpast => ?_
      rw [stage_leave hs] at hpast
      have hp : p ≠ .closing := by
        rintro rfl
        rw [hquiet c fs hs] at hpast
        cases hpast
      have hsame := sameQueues_step hs hp hn
      have hq : SameQueues (s.setStack l fs) s' :=
        ⟨hsame.connections, fun l' => (hsame.functors l').trans (loop_setStack l').2.2.symm⟩
      exact ⟨hq.connections, hq.shrinks heffect⟩
  | @drop fs name c rest hs hm hdrop =>
      obtain rfl : l = 0 := (hp.top hs).1
      obtain ⟨halive, _⟩ := h.destructor_top hs rfl
      refine h.effect (effect_drop hdrop) fun hpast => ?_
      rw [stage_eq rfl halive hs] at hpast
      cases hpast
  | @emptied fs hs hm hs' =>
      obtain rfl : l = 0 := (hp.top hs).1
      subst hs'
      refine h.advance .body (.quitting 1) hs rfl rfl (fun _ => hm)
        (fun hst => by cases hst) fun l hl hj => ?_
      exact absurd hj (Nat.not_lt.mpr hl)
  | @quits i fs hs hi hs' =>
      obtain rfl : l = 0 := (hp.top hs).1
      subst hs'
      obtain ⟨halive, _⟩ := h.destructor_top hs rfl
      have hst : s.stage = .quitting i := stage_eq rfl halive hs
      have hpast : s.stage.isPast = true := by rw [hst]; rfl
      have hquit := h.quit hpast (hquits i fs hs hi)
      have hstack : ((s.quit i).loop 0).stack = .quitting i :: fs := by
        by_cases hl : 0 = i
        · subst hl
          rw [TcpServer.quit, loop_setLoop_self, hs]
        · rw [TcpServer.quit, loop_setLoop_ne hl, hs]
      exact hquit.advance (.quitting i) (.joining i) hstack rfl rfl
        (fun _ => h.emptied hpast) (fun _ => rfl) fun _ _ hj => Or.inl hj
  | @ended i fs hs hi hs' =>
      obtain rfl : l = 0 := (hp.top hs).1
      exact hs' ▸ h.ended hs hi
  | @joined i fs hs hs' =>
      obtain rfl : l = 0 := (hp.top hs).1
      subst hs'
      obtain ⟨halive, _⟩ := h.destructor_top hs rfl
      have hst : s.stage = .joining i := stage_eq rfl halive hs
      have hexited : (s.loop i).exited = true := by simpa [blocked, hs] using hblocked
      refine h.advance (.joining i) (.quitting (i + 1)) hs rfl rfl
        (fun _ => h.emptied (by rw [hst]; rfl)) (fun _ => rfl) fun l _ hj => ?_
      rcases Nat.lt_or_eq_of_le (Nat.le_of_lt_succ hj) with hlt | rfl
      · exact Or.inl hlt
      · exact Or.inr hexited

theorem standing_of_not_destructing (hp : s.Placed) (h : s.destructing = false) :
    s.Standing ∧ (s.loop 0).stack.countP Frame.isDestructor = 0 := by
  simp only [destructing, Bool.or_eq_false_iff, Bool.not_eq_false', List.any_eq_false] at h
  refine ⟨⟨h.1, fun l f hf => ?_⟩, List.countP_eq_zero.mpr h.2⟩
  cases f with
  | conn p c => rfl
  | _ => exact absurd rfl (h.2 _ ((hp.loops l).stack _ hf ▸ hf))

theorem Quiet.not_closing (h : s.Quiet) (hp : s.Placed) {fs : List Frame}
    (hs : (s.loop l).stack = .conn .closing c :: fs) : s.stage = .up := by
  by_contra hup
  have hsits : s.Sits l (.conn .closing c) := (hp.top hs).1
  have hnone := (h hup c hsits.1).1
  rw [(stack_top hp hs).2.1, List.count_cons_self] at hnone
  cases hnone

theorem Quiet.not_removing (h : s.Quiet) (hp : s.Placed) {fs : List Functor}
    (hf : (s.loop l).functors.todo = ⟨.removeConnectionInLoop, c⟩ :: fs) : s.stage = .up := by
  by_contra hup
  have hmem := Batch.mem_queued_of_todo hf
  obtain ⟨hc, hl⟩ := (hp.loops l).functors _ hmem
  obtain rfl : l = 0 := hl
  have hnone := (h hup c hc).2
  exact List.count_eq_zero.mp hnone hmem

/-- A functor runs. -/
theorem Ends.functor (h : Ends s) (hp : s.Placed) (hquiet : s.Quiet) {f : Functor}
    {fs : List Functor} (hf : (s.loop l).functors.todo = f :: fs)
    (hn : (s.setFunctors l (s.loop l).functors.advance).call l f = .ok s') : Ends s' := by
  have hl := h.loops l
  have hpop : Ends (s.setFunctors l (s.loop l).functors.advance) := by
    refine h.setLoop ⟨hl.quit, hl.exited, fun hq => ?_, fun hexited g hg => ?_⟩ rfl id
    · refine (hl.kept hq).imp (fun hhandling => ?_) fun hnone => ?_
      · rw [Batch.todo_handling hhandling] at hf
        cases hf
      · rwa [Batch.pending_advance]
    · refine hl.gone hexited g ?_
      rw [Batch.queued_advance hf]
      exact List.mem_cons_of_mem _ hg
  refine hpop.effect (effect_call hn) fun hpast => ?_
  have hm : f.method ≠ .removeConnectionInLoop := by
    intro hm
    obtain ⟨m, c⟩ := f
    subst hm
    rw [effect_setFunctors.stage, hquiet.not_removing hp hf] at hpast
    cases hpast
  have hq := sameQueues_call hm hn
  exact ⟨hq.connections, hq.shrinks (effect_call hn)⟩

variable [DecidableEq Tid] {a : Event Tid}

/-- Only a server that is up accepts. -/
theorem stage_newConnection (he : s.enabled .newConnection = true) : s.stage = .up := by
  simp only [enabled, Bool.and_eq_true] at he
  rw [stage, if_pos he.1.1, idle_stack he.1.2]
  rfl

/-- **One event**, past which the loops still end as they should. -/
theorem Ends.next (h : Ends s) (hp : s.Placed) (hquiet : s.Quiet) (he : s.enabled a = true)
    (hC : s.Calm a) (hn : s.next a = .ok s') : Ends s' := by
  cases a with
  | newConnection =>
      have hst := stage_newConnection he
      have hpast : s.create.stage.isPast ≠ true := by
        rw [show s.create.stage = s.stage from rfl, hst]
        simp [Stage.isPast]
      have hcreate : Ends s.create := ⟨h.loops, h.once, fun h => absurd h hpast, h.joined⟩
      exact hcreate.effect (effect_runInLoop hn) fun h => absurd h hpast
  | read c =>
      cases hn
      have hrecord : SameQueues s (s.record c (s.conn c).loop .handleRead) := .of_loop rfl rfl
      exact h.same (effect_record.trans effect_enter) hrecord.enter
  | close c =>
      obtain ⟨life, _, rfl⟩ := handleClose_ok hn
      have hrecord : SameQueues s
        ((s.setLife c life).record c (s.conn c).loop .handleClose) := .of_loop rfl rfl
      exact h.same ((effect_setLife.trans effect_record).trans effect_enter) hrecord.enter
  | step l =>
      simp only [enabled, Bool.and_eq_true, Bool.not_eq_true'] at he
      refine h.step hp hn he.2 (fun i fs hs hi => ?_) fun c fs hs => ?_
      · have hstep := hC.2
        simp only [hs] at hstep
        exact hstep hi
      · rw [hquiet.not_closing hp hs]
        rfl
  | swap l =>
      simp only [enabled, idle, Bool.and_eq_true, Bool.not_eq_true'] at he
      cases hn
      have hl := h.loops l
      refine h.setLoop ⟨hl.quit, hl.exited, fun _ => Or.inr (by simp), fun hexited => ?_⟩ rfl id
      rw [show (s.loop l).exited = false from he.1.1.2] at hexited
      cases hexited
  | functor l =>
      simp only [next] at hn
      split at hn
      · cases hn
        exact h
      · rename_i hf
        exact h.functor hp hquiet hf hn
  | finish l =>
      simp only [enabled, idle, Bool.and_eq_true, Bool.not_eq_true', List.isEmpty_iff] at he
      cases hn
      have hl := h.loops l
      refine h.setLoop ⟨hl.quit, id, fun _ => Or.inl rfl, fun hquit f hf => ?_⟩ rfl
        fun hexited => ?_
      · have hnone := (hl.kept hquit).resolve_left (by simp [he.1.2])
        rw [Batch.queued_finish he.2, Batch.queued, he.2, List.nil_append] at hf
        exact hnone f hf
      · rw [he.1.1.1.2] at hexited
        cases hexited
  | destroy =>
      simp only [enabled, Bool.and_eq_true, Bool.not_eq_true'] at he
      cases hn
      obtain ⟨hstanding, hcount⟩ := standing_of_not_destructing hp he.2
      have hst := stage_standing hstanding
      refine h.turn .body (stage_setStack rfl hstanding.alive) rfl rfl loop_setStack ?_
        (fun hpast => by cases hpast) (fun hpast => by rw [hst] at hpast; cases hpast)
        fun l _ hj => hj.elim
      rw [enter, setStack, loop_setLoop_self]
      change (Frame.destructor :: (s.loop 0).stack).countP Frame.isDestructor ≤
        if s.alive then 1 else 0
      rw [List.countP_cons_of_pos rfl, hcount, if_pos hstanding.alive]
  | shutdown c =>
      cases hn
      exact h.same effect_setLife (.of_loop rfl rfl)
  | shutdownTest t c =>
      cases hn
      split
      · exact ⟨h.loops, h.once, h.emptied, h.joined⟩
      · exact h
  | shutdownSet t c =>
      cases hn
      exact ⟨h.loops, h.once, h.emptied, h.joined⟩

end TcpServer

end Muduo
