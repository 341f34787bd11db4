import Muduo.Server.Account

/-!
# Where the server keeps what it has of a connection

A functor of a connection waits in the queue of its loop, a
`removeConnectionInLoop` in the acceptor's; a function of it is on the stack
of its loop (`Placed`). With that, every step of the server is a few moves of
each connection (`steps_of_next`).
-/

namespace Muduo

open Lib

namespace TcpServer

variable {Tid : Type} {s s' : TcpServer Tid}

/-! ## Places -/

/-- The loop a functor is queued in. -/
def home (s : TcpServer Tid) (f : Functor) : Nat :=
  match f.method with
  | .removeConnectionInLoop => 0
  | _ => (s.conn f.conn).loop

/-- Loop `l` may be in `f`. -/
def Sits (s : TcpServer Tid) (l : Nat) : Frame → Prop
  | .conn _ c => c < s.created ∧ l = (s.conn c).loop
  | _ => l = 0

/-- Other functions may be on top of it. -/
def Frame.isOpen (f : Frame) : Bool := f.isUser || f.isDestructor

structure LoopPlaced (s : TcpServer Tid) (l : Nat) (b : IoLoop) : Prop where
  functors : ∀ f ∈ b.functors.queued, f.conn < s.created ∧ l = s.home f
  /-- In its own loop the server does not queue it. -/
  established : ∀ f ∈ b.functors.queued, f.method = .connectEstablished → l ≠ 0
  stack : ∀ f ∈ b.stack, s.Sits l f
  below : ∀ f ∈ b.stack.tail, f.isOpen = true

structure Placed (s : TcpServer Tid) : Prop where
  loops : ∀ l, s.LoopPlaced l (s.loop l)
  entries : ∀ e ∈ s.connections, e.1 = (s.conn e.2).name ∧ e.2 < s.created
  shutting : ∀ x ∈ s.shutting, s.given x.2 = true

theorem given_iff {c : Nat} :
    s.given c = true ↔ c < s.created ∧ (s.conn c).life.reports ≠ [] := by
  simp [given]

theorem placed_new {name hostport : Bytes} {numThreads : Nat} :
    Placed (new name hostport numThreads : TcpServer Tid) where
  loops l := ⟨fun f hf => (by cases hf), fun f hf => (by cases hf), fun f hf => (by cases hf),
    fun f hf => (by cases hf)⟩
  entries e he := by cases he
  shutting x hx := by cases hx

theorem LoopPlaced.congr {l : Nat} {b : IoLoop} (h : s.LoopPlaced l b)
    (hcreated : s.created ≤ s'.created)
    (hloop : ∀ c < s.created, (s'.conn c).loop = (s.conn c).loop) : s'.LoopPlaced l b where
  functors f hf := by
    obtain ⟨hc, hl⟩ := h.functors f hf
    refine ⟨Nat.lt_of_lt_of_le hc hcreated, hl.trans ?_⟩
    unfold home
    split
    · rfl
    · exact (hloop _ hc).symm
  established := h.established
  stack f hf := by
    have hs := h.stack f hf
    cases f with
    | conn p c => exact ⟨Nat.lt_of_lt_of_le hs.1 hcreated, hs.2.trans (hloop c hs.1).symm⟩
    | _ => exact hs
  below := h.below

theorem Placed.setLoop (h : Placed s) {l : Nat} {b : IoLoop} (hb : s.LoopPlaced l b) :
    Placed (s.setLoop l b) where
  loops l' := by
    by_cases hl : l' = l
    · subst hl
      rw [loop_setLoop_self]
      exact hb.congr (Nat.le_refl _) fun _ _ => rfl
    · rw [loop_setLoop_ne hl]
      exact (h.loops l').congr (Nat.le_refl _) fun _ _ => rfl
  entries := h.entries
  shutting := h.shutting

theorem Placed.setStack (h : Placed s) {l : Nat} {fs : List Frame}
    (hstack : ∀ f ∈ fs, s.Sits l f) (hbelow : ∀ f ∈ fs.tail, f.isOpen = true) :
    Placed (s.setStack l fs) :=
  h.setLoop { h.loops l with stack := hstack, below := hbelow }

/-- The function on top returns, or another takes its place. -/
theorem Placed.leave (h : Placed s) {l : Nat} {f : Frame} {fs : List Frame}
    (hs : (s.loop l).stack = f :: fs) : Placed (s.setStack l fs) := by
  refine h.setStack (fun g hg => (h.loops l).stack g ?_) fun g hg => (h.loops l).below g ?_
  · rw [hs]
    exact List.mem_cons_of_mem _ hg
  · rw [hs]
    exact List.mem_of_mem_tail hg

theorem Placed.replace (h : Placed s) {l : Nat} {f g : Frame} {fs : List Frame}
    (hs : (s.loop l).stack = f :: fs) (hg : s.Sits l g) : Placed (s.setStack l (g :: fs)) := by
  refine h.setStack (fun k hk => ?_) fun k hk => (h.loops l).below k ?_
  · rcases List.mem_cons.mp hk with rfl | hk
    · exact hg
    · exact (h.loops l).stack k (hs ▸ List.mem_cons_of_mem _ hk)
  · rw [hs]
    exact hk

/-- A function is called, in user code if in any. -/
theorem Placed.enter (h : Placed s) {l : Nat} {f : Frame} (hf : s.Sits l f)
    (hopen : ∀ g ∈ (s.loop l).stack, g.isOpen = true) : Placed (s.enter l f) := by
  refine h.setStack (fun k hk => ?_) hopen
  rcases List.mem_cons.mp hk with rfl | hk
  · exact hf
  · exact (h.loops l).stack k hk

theorem Placed.setFunctors (h : Placed s) {l : Nat} {b : Batch Functor}
    (hb : ∀ f ∈ b.queued, f ∈ (s.loop l).functors.queued) : Placed (s.setFunctors l b) :=
  h.setLoop { h.loops l with
    functors := fun f hf => (h.loops l).functors f (hb f hf)
    established := fun f hf => (h.loops l).established f (hb f hf) }

theorem Placed.queueInLoop (h : Placed s) {l : Nat} {f : Functor} (hc : f.conn < s.created)
    (hl : l = s.home f) (hest : f.method = .connectEstablished → l ≠ 0) :
    Placed (s.queueInLoop l f) := by
  have hmem {g : Functor} (hg : g ∈ ((s.loop l).functors.push f).queued) :
      g ∈ (s.loop l).functors.queued ∨ g = f := by
    rw [Batch.queued_push] at hg
    exact (List.mem_append.mp hg).imp id List.mem_singleton.mp
  refine h.setLoop { h.loops l with functors := fun g hg => ?_, established := fun g hg => ?_ }
  · rcases hmem hg with hg | rfl
    · exact (h.loops l).functors g hg
    · exact ⟨hc, hl⟩
  · rcases hmem hg with hg | rfl
    · exact (h.loops l).established g hg
    · exact hest

theorem Placed.setConn (h : Placed s) {c : Nat} {k : Conn} (hloop : k.loop = (s.conn c).loop)
    (hname : k.name = (s.conn c).name)
    (hreports : (s.conn c).life.reports ≠ [] → k.life.reports ≠ []) : Placed (s.setConn c k) where
  loops l := (h.loops l).congr (Nat.le_refl _) fun c' _ => by
    by_cases hc : c' = c
    · rw [hc, conn_setConn_self, hloop]
    · rw [conn_setConn_ne hc]
  entries e he := by
    refine ⟨(h.entries e he).1.trans ?_, (h.entries e he).2⟩
    by_cases hc : e.2 = c
    · rw [hc, conn_setConn_self, hname]
    · rw [conn_setConn_ne hc]
  shutting x hx := by
    obtain ⟨hlt, hr⟩ := given_iff.mp (h.shutting x hx)
    refine given_iff.mpr ⟨hlt, ?_⟩
    by_cases hc : x.2 = c
    · rw [hc, conn_setConn_self]
      exact hreports (hc ▸ hr)
    · rwa [conn_setConn_ne hc]

theorem Placed.setLife (h : Placed s) {c : Nat} {life : Lifecycle}
    (hreports : (s.conn c).life.reports ≠ [] → life.reports ≠ []) : Placed (s.setLife c life) :=
  h.setConn rfl rfl hreports

theorem Placed.record (h : Placed s) {c l : Nat} {m : Mark} : Placed (s.record c l m) :=
  h.setConn rfl rfl id

theorem Placed.remove (h : Placed s) {c l : Nat} : Placed (s.remove l c) := by
  have hl : Placed (s.setLife c (s.conn c).life.remove) := h.setLife id
  exact hl.record

theorem Placed.connections (h : Placed s) {m : List (Bytes × Nat)}
    (hm : ∀ e ∈ m, e ∈ s.connections) : Placed { s with connections := m } :=
  { h with
    loops := fun l => (h.loops l).congr (Nat.le_refl _) fun _ _ => rfl
    entries := fun e he => h.entries e (hm e he) }

theorem mem_assign {m : List (Bytes × Nat)} {name : Bytes} {c : Nat} {e : Bytes × Nat}
    (h : e ∈ assign m name c) : e = (name, c) ∨ e ∈ m ∧ e.1 ≠ name := by
  have hp := (List.perm_orderedInsert (fun a b : Bytes × Nat => a.1 < b.1) (name, c)
    (m.filter (·.1 ≠ name))).mem_iff.mp h
  refine (List.mem_cons.mp hp).imp id fun he => ?_
  rw [List.mem_filter, decide_eq_true_eq] at he
  exact he

theorem Placed.create (h : Placed s) : Placed s.create := by
  refine ⟨fun l => ?_, fun e he => ?_, fun x hx => ?_⟩
  · exact (h.loops l).congr (Nat.le_succ _) fun c hc => by rw [conn_create_ne hc]
  · rcases mem_assign he with rfl | ⟨he, _⟩
    · exact ⟨by rw [conn_create_self], Nat.lt_succ_self _⟩
    · obtain ⟨hn, hc⟩ := h.entries e he
      exact ⟨by rw [hn, conn_create_ne hc], Nat.lt_succ_of_lt hc⟩
  · obtain ⟨hc, hr⟩ := given_iff.mp (h.shutting x hx)
    refine given_iff.mpr ⟨Nat.lt_succ_of_lt hc, ?_⟩
    rwa [conn_create_ne hc]

/-! ## The functions keep it -/

variable {l c : Nat}

theorem Placed.connectEstablished (h : Placed s) (hc : c < s.created)
    (hopen : ∀ g ∈ (s.loop l).stack, g.isOpen = true) (hn : s.connectEstablished l c = .ok s') :
    Placed s' := by
  obtain ⟨hl, life, hlife, rfl⟩ := connectEstablished_ok hn
  have hr : (s.conn c).life.reports ≠ [] → life.reports ≠ [] := fun _ => by
    rw [(Lifecycle.connectEstablished_ok hlife).2]
    simp
  have h' : Placed ((s.setLife c life).record c l .connectEstablished) := (h.setLife hr).record
  refine h'.enter ⟨hc, ?_⟩ hopen
  rw [loop_record, TcpServer.setLife, conn_setConn_self, hl]

theorem Placed.connectDestroyed (h : Placed s) (hc : c < s.created)
    (hopen : ∀ g ∈ (s.loop l).stack, g.isOpen = true) (hn : s.connectDestroyed l c = .ok s') :
    Placed s' := by
  have h' : Placed (s.record c l .connectDestroyed) := h.record
  obtain ⟨hl, ⟨_, rfl⟩ | ⟨_, rfl⟩⟩ := connectDestroyed_ok hn
  · refine h'.enter ⟨hc, ?_⟩ hopen
    rw [loop_record, hl]
  · exact h'.remove

theorem Placed.removeConnectionInLoop (h : Placed s) (hc : c < s.created)
    (hn : s.removeConnectionInLoop l c = .ok s') : Placed s' := by
  obtain ⟨_, _, _, rfl⟩ := removeConnectionInLoop_ok hn
  have h' : Placed { s with connections := s.connections.filter (·.1 ≠ (s.conn c).name) } :=
    h.connections fun e he => List.mem_of_mem_filter he
  exact (h'.record (m := .removeConnectionInLoop)).queueInLoop hc loop_record.symm (by simp)

theorem Placed.call (h : Placed s) {f : Functor} (hc : f.conn < s.created)
    (hopen : ∀ g ∈ (s.loop l).stack, g.isOpen = true) (hn : s.call l f = .ok s') : Placed s' := by
  unfold TcpServer.call at hn
  split at hn
  · exact h.connectEstablished hc hopen hn
  · exact h.connectDestroyed hc hopen hn
  · exact h.removeConnectionInLoop hc hn

theorem idle_stack (h : s.idle l = true) : (s.loop l).stack = [] := by
  simp only [idle, Bool.and_eq_true, List.isEmpty_iff] at h
  exact h.2

theorem Placed.newConnection (h : Placed s) (hidle : s.idle 0 = true)
    (hn : s.newConnection = .ok s') : Placed s' := by
  have hopen : s.getNextLoop.1 = 0 → ∀ g ∈ (s.loop s.getNextLoop.1).stack, g.isOpen = true := by
    intro h0 g hg
    rw [h0, idle_stack hidle] at hg
    cases hg
  have hc : (⟨.connectEstablished, s.created⟩ : Functor).conn < s.create.created :=
    Nat.lt_succ_self _
  rcases runInLoop_ok hn with ⟨h0, hn⟩ | ⟨hne, rfl⟩
  · exact h.create.call hc (hopen h0.symm) hn
  · exact h.create.queueInLoop hc (by simp [home, conn_create_self]) fun _ => hne.symm

/-- Where loop `l` goes on. -/
theorem Placed.top (h : Placed s) {f : Frame} {fs : List Frame}
    (hs : (s.loop l).stack = f :: fs) : s.Sits l f ∧ ∀ g ∈ fs, g.isOpen = true := by
  have hb := h.loops l
  refine ⟨hb.stack f (by simp [hs]), fun g hg => hb.below g ?_⟩
  rw [hs]
  exact hg

theorem Placed.step (h : Placed s) (hn : s.step l = .ok s') : Placed s' := by
  unfold TcpServer.step at hn
  split at hn
  · cases hn
    exact h
  · rename_i hs
    cases hn
    exact h.leave hs
  · rename_i hs
    cases hn
    exact h.leave hs
  · rename_i c fs hs
    obtain ⟨_, _, hn⟩ := bind_eq_ok hn
    have hc := (h.top hs).1
    have h' : Placed (s.setStack l (.conn .closed c :: fs)) := h.replace hs hc
    rcases runInLoop_ok hn with ⟨_, hn⟩ | ⟨_, rfl⟩
    · exact h'.removeConnectionInLoop hc.1 hn
    · exact h'.queueInLoop hc.1 rfl (by simp)
  · rename_i hs
    cases hn
    exact (h.leave hs).record
  · rename_i c fs hs
    cases hn
    have h' : Placed (s.setLife c (s.conn c).life.goDown) := h.setLife fun _ => by
      simp [Lifecycle.goDown_eq]
    refine h'.replace hs ?_
    refine ⟨(h.top hs).1.1, (h.top hs).1.2.trans ?_⟩
    rw [TcpServer.setLife, conn_setConn_self]
  · rename_i hs
    cases hn
    exact (h.leave hs).remove
  · rename_i fs hs
    split at hn
    · rename_i name c rest hm
      have hmem : (name, c) ∈ s.connections := hm ▸ List.mem_cons_self ..
      have h' : Placed { s with connections := rest } :=
        h.connections fun e he => hm ▸ List.mem_cons_of_mem _ he
      have h'' : Placed ({ s with connections := rest }.record c l .dropped) := h'.record
      rcases runInLoop_ok hn with ⟨heq, hn⟩ | ⟨_, rfl⟩
      · refine h''.call (h.entries _ hmem).2 (fun g hg => ?_) hn
        change g ∈ (s.loop _).stack at hg
        rw [← heq, hs] at hg
        rcases List.mem_cons.mp hg with rfl | hg
        · rfl
        · exact (h.top hs).2 g hg
      · exact h''.queueInLoop (h.entries _ hmem).2 loop_record.symm (by simp)
    · cases hn
      exact h.replace hs (h.top hs).1
  · rename_i i fs hs
    split at hn
    · cases hn
      have h' : Placed (s.quit i) := h.setLoop { h.loops i with }
      refine h'.setStack (fun g hg => ?_) (h.top hs).2
      rcases List.mem_cons.mp hg with rfl | hg
      · exact (h.top hs).1
      · exact (h.loops l).stack g (hs ▸ List.mem_cons_of_mem _ hg)
    · cases hn
      exact { h.leave hs with
        loops := fun l' => ((h.leave hs).loops l').congr (Nat.le_refl _) fun _ _ => rfl }
  · rename_i hs
    cases hn
    exact h.replace hs (h.top hs).1

theorem ready_idle {c : Nat} (h : s.ready c = true) :
    c < s.created ∧ (s.loop (s.conn c).loop).stack = [] ∧ (s.conn c).life.isPolled = true := by
  simp only [ready, Bool.and_eq_true, decide_eq_true_eq] at h
  exact ⟨h.1.1.1, idle_stack h.1.1.2, h.2⟩

theorem inUser_isOpen (h : s.inUser l = true) {f : Frame} (hl : s.LoopPlaced l (s.loop l))
    (hf : f ∈ (s.loop l).stack) : f.isOpen = true := by
  unfold inUser at h
  split at h
  · rename_i hs
    rw [hs] at hf
    cases hf
  · rename_i g gs hs
    rw [hs] at hf
    rcases List.mem_cons.mp hf with rfl | hf
    · rw [Frame.isOpen, h, Bool.true_or]
    · refine hl.below f ?_
      rw [hs]
      exact hf

variable [DecidableEq Tid] {a : Event Tid}

/-- **One event** leaves all in its place. -/
theorem Placed.next (h : Placed s) (he : s.enabled a = true) (hn : s.next a = .ok s') :
    Placed s' := by
  cases a with
  | newConnection =>
      simp only [enabled, Bool.and_eq_true] at he
      exact h.newConnection he.1.2 hn
  | read c =>
      cases hn
      obtain ⟨hc, hs, _⟩ := ready_idle he
      refine h.record.enter ⟨hc, loop_record.symm⟩ fun g hg => ?_
      change g ∈ (s.loop _).stack at hg
      rw [hs] at hg
      cases hg
  | close c =>
      obtain ⟨hc, hs, _⟩ := ready_idle he
      obtain ⟨life, hlife, rfl⟩ := handleClose_ok hn
      have hr : (s.conn c).life.reports ≠ [] → life.reports ≠ [] := fun _ => by
        rw [(Lifecycle.handleClose_ok hlife).2]
        simp
      refine (h.setLife hr).record.enter ⟨hc, ?_⟩ fun g hg => ?_
      · rw [loop_record, TcpServer.setLife, conn_setConn_self]
      · change g ∈ (s.loop _).stack at hg
        rw [hs] at hg
        cases hg
  | step l => exact h.step hn
  | swap l =>
      simp only [enabled, Bool.and_eq_true] at he
      cases hn
      exact h.setFunctors fun f hf => by rwa [Batch.queued_swap he.2] at hf
  | functor l =>
      simp only [enabled, Bool.and_eq_true] at he
      simp only [next] at hn
      split at hn
      · cases hn
        exact h
      · rename_i f fs hf
        have hmem : f ∈ (s.loop l).functors.queued := Batch.mem_queued_of_todo hf
        have h' : Placed (s.setFunctors l (s.loop l).functors.advance) := h.setFunctors
          fun g hg => by
            rw [Batch.queued_advance hf]
            exact List.mem_cons_of_mem _ hg
        refine h'.call ((h.loops l).functors f hmem).1 (fun g hg => ?_) hn
        rw [TcpServer.setFunctors, loop_setLoop_self] at hg
        rw [show (s.loop l).stack = [] from idle_stack he.1] at hg
        cases hg
  | finish l =>
      simp only [enabled, Bool.and_eq_true, List.isEmpty_iff] at he
      cases hn
      refine h.setLoop { h.loops l with functors := fun f hf => ?_, established := fun f hf => ?_ }
      · exact (h.loops l).functors f (Batch.queued_finish he.2 ▸ hf)
      · exact (h.loops l).established f (Batch.queued_finish he.2 ▸ hf)
  | destroy =>
      simp only [enabled, Bool.and_eq_true] at he
      cases hn
      exact h.enter rfl fun g hg => inUser_isOpen he.1 (h.loops 0) hg
  | shutdown c =>
      cases hn
      exact h.setLife fun hr => by rwa [Lifecycle.reports_shutdown]
  | shutdownTest t c =>
      simp only [enabled, Bool.and_eq_true] at he
      cases hn
      split
      · exact { h with
          loops := fun l => (h.loops l).congr (Nat.le_refl _) fun _ _ => rfl
          shutting := fun x hx => by
            rcases List.mem_cons.mp hx with rfl | hx
            · exact he.1
            · exact h.shutting x hx }
      · exact h
  | shutdownSet t c =>
      cases hn
      have h' : Placed (s.setLife c (s.conn c).life.setDisconnecting) := h.setLife id
      exact { h' with
        loops := fun l => (h'.loops l).congr (Nat.le_refl _) fun _ _ => rfl
        shutting := fun x hx => h'.shutting x (List.mem_of_mem_erase hx) }

theorem placed_invariant : (system : Lts (TcpServer Tid) _ _).Invariant Placed where
  init := by
    rintro s ⟨name, hostport, numThreads, rfl⟩
    exact placed_new
  step s a s' h he hn := h.next he hn

theorem placed_reachable (hs : system.Reachable s) : Placed s := placed_invariant.reachable hs

end TcpServer

end Muduo
