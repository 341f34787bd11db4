import Muduo.Server.Books

/-!
# The order of a connection's life

In a server that is not destroyed, and with distinct names, the life of a
connection goes one way (`Ordered`): `connectEstablished`, its handlers,
`handleClose` to its end, `removeConnectionInLoop`, `connectDestroyed`. In
any server it happens in the connection's loop (`InLoop`).
-/

namespace Muduo

open Lib

namespace TcpServer

/-! ## The order of things -/

/-- `m'` happens only after `m`. -/
def Precedes (m m' : Mark) (ms : List Mark) : Prop :=
  ∀ xs ys, ms = xs ++ m' :: ys → m ∈ xs

theorem precedes_nil {m m' : Mark} : Precedes m m' [] := by
  intro xs ys h
  cases xs <;> cases h

theorem Precedes.snoc {m m' x : Mark} {ms : List Mark} (h : Precedes m m' ms)
    (hx : x = m' → m ∈ ms) : Precedes m m' (ms ++ [x]) := by
  intro xs ys heq
  rcases List.eq_nil_or_concat ys with rfl | ⟨zs, z, rfl⟩
  · obtain ⟨rfl, hlast⟩ := List.append_inj' heq rfl
    exact hx (List.cons.inj hlast).1
  · rw [List.concat_eq_append, ← List.cons_append, ← List.append_assoc] at heq
    exact h xs zs (List.append_inj' heq rfl).1

structure Ordered (a : Account) : Prop where
  books : Books a
  dropped : a.history.count .dropped = 0
  read : Precedes .connectEstablished .handleRead a.history
  close : Precedes .connectEstablished .handleClose a.history
  destroy : Precedes .closed .connectDestroyed a.history
  /-- Until `handleClose` has returned, `connectDestroyed` waits. -/
  closed : .closed ∈ a.stack → .connectDestroyed ∉ a.history
  /-- The connection is down when `connectDestroyed` runs. -/
  stack : ∀ p ∈ a.stack, p ≠ .destroying ∧ p ≠ .down

theorem ordered_fresh : Ordered .fresh where
  books := books_fresh
  dropped := rfl
  read := precedes_nil
  close := precedes_nil
  destroy := precedes_nil
  closed h := by cases h
  stack p hp := by cases hp

variable {a b : Account} {K : Irregular → Prop}

/-- A mark that none of the orders is about. -/
theorem Ordered.goOn (h : Ordered a) (hbooks : Books b) {m : Mark}
    (hhistory : b.history = a.history ++ [m]) (hdropped : m ≠ .dropped)
    (hread : m = .handleRead → .connectEstablished ∈ a.history)
    (hclose : m = .handleClose → .connectEstablished ∈ a.history)
    (hdestroy : m ≠ .connectDestroyed) (hstack : ∀ p ∈ b.stack, p ≠ .destroying ∧ p ≠ .down)
    (hclosed : .closed ∈ b.stack → .connectDestroyed ∉ a.history) : Ordered b where
  books := hbooks
  dropped := by
    rw [hhistory, List.count_append, h.dropped, List.count_singleton]
    simp [hdropped]
  read := hhistory ▸ h.read.snoc hread
  close := hhistory ▸ h.close.snoc hclose
  destroy := hhistory ▸ h.destroy.snoc fun heq => absurd heq hdestroy
  closed hmem hd := by
    rw [hhistory] at hd
    rcases List.mem_append.mp hd with hd | hd
    · exact hclosed hmem hd
    · exact hdestroy (List.mem_singleton.mp hd).symm
  stack := hstack

/-- When `connectDestroyed` may run, `handleClose` has returned. -/
theorem Ordered.closed_of_destroyable (h : Ordered a) (horph : ¬K .orphaned)
    {fs fs' : List Method} (hcan : Destroyable K a fs fs') :
    a.stack = [] ∧ .closed ∈ a.history ∧ a.life.state ≠ .kConnected := by
  have hstack : a.stack = [] := hcan.stack.resolve_right fun ho => horph ho.1
  have hdropped := h.dropped
  obtain ⟨_, hclosing, hclosed, hdestroyed, _, _⟩ := h.books.counts
  rw [hcan.functors] at hdestroyed
  rw [hstack] at hclosing hclosed
  simp only [List.count_append, List.count_cons_self, List.count_nil] at hclosing hclosed hdestroyed
  have hpos : 0 < a.history.count .handleClose := by omega
  refine ⟨hstack, List.count_pos_iff.mp (by omega), fun hs => ?_⟩
  rw [h.books.down (Or.inl hs)] at hpos
  cases hpos

/-- **Every move keeps the order**, in a server that is not destroyed. -/
theorem Ordered.move (h : Ordered a) (hover : ¬K .overwritten) (horph : ¬K .orphaned)
    (hm : Move K a b) : Ordered b := by
  have hbooks := h.books.move hover hm
  cases hm with
  | established functors stack result =>
      exact h.goOn hbooks rfl (by simp) (by simp) (by simp) (by simp) (by simp) (by simp)
  | read stack polled =>
      have hest := (h.books.polled polled).2.1
      exact h.goOn hbooks rfl (by simp) (fun _ => hest) (by simp) (by simp) (by simp) (by simp)
  | close kind stack polled result =>
      have hest := (h.books.polled polled).2.1
      exact h.goOn hbooks rfl (by simp) (by simp) (fun _ => hest) (by simp) (by simp) (by simp)
  | returned stack point =>
      have hmem {q : Point} (hq : q ∈ _) : q ∈ a.stack := stack ▸ List.mem_cons_of_mem _ hq
      exact { h with
        books := hbooks
        closed := fun hc => h.closed (hmem hc)
        stack := fun q hq => h.stack q (hmem hq) }
  | @removing ps stack =>
      -- `handleClose` is not over, so nothing has removed the connection
      have hnone : .connectDestroyed ∉ a.history := by
        obtain ⟨_, hclosing, _, hdestroyed, _, honce⟩ := h.books.counts
        rw [stack, List.count_cons_self] at hclosing
        have hdropped := h.dropped
        exact List.count_eq_zero.mp (by omega)
      exact { h with
        books := hbooks
        closed := fun _ => hnone
        stack := fun q hq => by
          rcases List.mem_cons.mp hq with rfl | hq
          · simp
          · exact h.stack q (stack ▸ List.mem_cons_of_mem _ hq) }
  | removed removals entries =>
      exact h.goOn hbooks rfl (by simp) (by simp) (by simp) (by simp) h.stack h.closed
  | closed stack =>
      have hmem {q : Point} (hq : q ∈ _) : q ∈ a.stack := stack ▸ List.mem_cons_of_mem _ hq
      exact h.goOn hbooks rfl (by simp) (by simp) (by simp) (by simp)
        (fun q hq => h.stack q (hmem hq)) fun hc => h.closed (hmem hc)
  | dropped kind entries => exact absurd kind horph
  | destroying can state =>
      exact absurd state (h.closed_of_destroyable horph can).2.2
  | destroyed can state kind =>
      obtain ⟨hstack, hclosed, _⟩ := h.closed_of_destroyable horph can
      have hdropped := h.dropped
      have happ : a.history ++ [.connectDestroyed, .destroyed] =
          a.history ++ [.connectDestroyed] ++ [.destroyed] := by simp
      exact {
        books := hbooks
        dropped := by simpa using hdropped
        read := happ ▸ (h.read.snoc (by simp)).snoc (by simp)
        close := happ ▸ (h.close.snoc (by simp)).snoc (by simp)
        destroy := happ ▸ (h.destroy.snoc fun _ => hclosed).snoc (by simp)
        closed := fun hc => by
          rw [hstack] at hc
          cases hc
        stack := h.stack }
  | down stack user => exact absurd rfl (h.stack .destroying (by simp [stack])).1
  | finished stack => exact absurd rfl (h.stack .down (by simp [stack])).2
  | shutdown given => exact { h with books := hbooks }
  | disconnecting _ _ _ => exact { h with books := hbooks }
  | lost kind entries => exact absurd kind hover

/-! ### What it gives -/

/-- In every function of a connection its books show an owner. -/
theorem Ordered.owner (h : Ordered a) {p : Point} (hp : p ∈ a.stack) :
    0 < a.entries ∨ .connectDestroyed ∈ a.functors := by
  have hdropped := h.dropped
  obtain ⟨_, hclosing, _, hdestroyed, hentries, honce⟩ := h.books.counts
  cases p with
  | established =>
      have hnone := h.books.user (Or.inl hp)
      exact Or.inl (by omega)
  | message =>
      have hnone := h.books.user (Or.inr hp)
      exact Or.inl (by omega)
  | closing =>
      have hpos := List.count_pos_iff.mpr hp
      exact Or.inl (by omega)
  | closed =>
      have hnone := List.count_eq_zero.mpr (h.closed hp)
      by_cases hremoved : a.history.count .removeConnectionInLoop = 0
      · exact Or.inl (by omega)
      · exact Or.inr (List.count_pos_iff.mp (by omega))
  | destroying => exact absurd rfl (h.stack _ hp).1
  | down => exact absurd rfl (h.stack _ hp).2

/-- A channel that waits for something: the connection is still there. -/
theorem entries_of_polled (h : Ordered a) (hpolled : a.life.isPolled = true) : a.entries = 1 := by
  have hnone := (h.books.polled hpolled).2.2
  have hdropped := h.dropped
  obtain ⟨_, hclosing, _, _, hentries, _⟩ := h.books.counts
  omega

/-- A `removeConnectionInLoop` that is to come finds its connection. -/
theorem entries_of_closing (h : Ordered a) (hcoming : .closing ∈ a.stack ∨ 0 < a.removals) :
    a.entries = 1 := by
  have hdropped := h.dropped
  obtain ⟨_, hclosing, _, _, hentries, honce⟩ := h.books.counts
  rcases hcoming with hmem | hpos
  · have hpos := List.count_pos_iff.mpr hmem
    omega
  · omega

/-! ## Loops -/

variable {Tid : Type} {s s' : TcpServer Tid} {l c : Nat}

/-- The loop a thing happens in, `loop` being that of the connection. -/
def Mark.home (loop : Nat) : Mark → Nat
  | removeConnectionInLoop => 0
  | dropped => 0
  | _ => loop

/-- What has happened to the connections happened in their loops. -/
def InLoop (s : TcpServer Tid) : Prop :=
  ∀ c < s.created, ∀ e ∈ (s.conn c).history, e.1 = e.2.home (s.conn c).loop

theorem InLoop.setConn (h : s.InLoop) {k : Conn} (es : List (Nat × Mark))
    (hloop : k.loop = (s.conn c).loop) (hhistory : k.history = (s.conn c).history ++ es)
    (hes : ∀ e ∈ es, e.1 = e.2.home (s.conn c).loop) : (s.setConn c k).InLoop := by
  intro c' hc' e he
  by_cases hne : c' = c
  · rw [hne, conn_setConn_self] at he ⊢
    rw [hhistory] at he
    rw [hloop]
    rcases List.mem_append.mp he with he | he
    · exact h c (hne ▸ hc') e he
    · exact hes e he
  · rw [conn_setConn_ne hne] at he ⊢
    exact h c' hc' e he

theorem InLoop.setLife (h : s.InLoop) {life : Lifecycle} : (s.setLife c life).InLoop :=
  h.setConn [] rfl (List.append_nil _).symm (by simp)

theorem InLoop.record (h : s.InLoop) {m : Mark} (hl : l = m.home (s.conn c).loop) :
    (s.record c l m).InLoop := h.setConn [(l, m)] rfl rfl (by simpa using hl)

theorem InLoop.remove (h : s.InLoop) (hl : l = (s.conn c).loop) : (s.remove l c).InLoop := by
  have hlife : (s.setLife c (s.conn c).life.remove).InLoop := h.setLife
  refine hlife.record ?_
  rw [TcpServer.setLife, conn_setConn_self]
  exact hl

theorem InLoop.call (h : s.InLoop) {f : Functor} (hn : s.call l f = .ok s') : s'.InLoop := by
  unfold TcpServer.call at hn
  split at hn
  · obtain ⟨hl, life, _, rfl⟩ := connectEstablished_ok hn
    have hlife : (s.setLife f.conn life).InLoop := h.setLife
    refine hlife.record ?_
    rw [TcpServer.setLife, conn_setConn_self]
    exact hl
  · obtain ⟨hl, ⟨_, rfl⟩ | ⟨_, rfl⟩⟩ := connectDestroyed_ok hn
    · exact h.record (m := .connectDestroyed) hl
    · exact (h.record (m := .connectDestroyed) hl).remove (hl.trans loop_record.symm)
  · obtain ⟨_, hl, _, rfl⟩ := removeConnectionInLoop_ok hn
    have hconns : InLoop { s with
      connections := s.connections.filter (·.1 ≠ (s.conn f.conn).name) } := h
    exact hconns.record (m := .removeConnectionInLoop) hl

theorem InLoop.runInLoop (h : s.InLoop) {caller : Nat} {f : Functor}
    (hn : s.runInLoop caller l f = .ok s') : s'.InLoop := by
  rcases runInLoop_ok hn with ⟨_, hn⟩ | ⟨_, rfl⟩
  · exact h.call hn
  · exact h

theorem InLoop.step (h : s.InLoop) (hp : s.Placed) (hn : s.step l = .ok s') : s'.InLoop := by
  unfold TcpServer.step at hn
  split at hn
  · cases hn
    exact h
  · cases hn
    exact h
  · cases hn
    exact h
  · rename_i c fs _
    obtain ⟨_, _, hn⟩ := bind_eq_ok hn
    have hstack : (s.setStack l (.conn .closed c :: fs)).InLoop := h
    exact hstack.runInLoop hn
  · rename_i c fs hs
    cases hn
    have hstack : (s.setStack l fs).InLoop := h
    exact hstack.record (m := .closed) (hp.top hs).1.2
  · rename_i c fs _
    cases hn
    have hlife : (s.setLife c (s.conn c).life.goDown).InLoop := h.setLife
    exact hlife
  · rename_i c fs hs
    cases hn
    have hstack : (s.setStack l fs).InLoop := h
    exact hstack.remove (hp.top hs).1.2
  · rename_i hs
    split at hn
    · rename_i c rest _
      have hconns : InLoop { s with connections := rest } := h
      exact (hconns.record (m := .dropped) (hp.top hs).1).runInLoop hn
    · cases hn
      exact h
  · split at hn <;> cases hn <;> exact h
  · cases hn
    exact h

theorem InLoop.create (h : s.InLoop) : s.create.InLoop := by
  intro c hc e he
  rcases Nat.lt_or_eq_of_le (Nat.le_of_lt_succ hc) with hc | rfl
  · rw [conn_create_ne hc] at he ⊢
    exact h c hc e he
  · rw [conn_create_self] at he
    cases he

variable [DecidableEq Tid] {a : Event Tid}

theorem InLoop.next (h : s.InLoop) (hp : s.Placed) (hn : s.next a = .ok s') : s'.InLoop := by
  cases a with
  | newConnection => exact h.create.runInLoop hn
  | read c =>
      cases hn
      exact h.record (m := .handleRead) rfl
  | close c =>
      obtain ⟨life, _, rfl⟩ := handleClose_ok hn
      have hlife : (s.setLife c life).InLoop := h.setLife
      refine hlife.record (m := .handleClose) ?_
      rw [TcpServer.setLife, conn_setConn_self]
      rfl
  | step l => exact h.step hp hn
  | swap l =>
      cases hn
      exact h
  | functor l =>
      simp only [TcpServer.next] at hn
      split at hn
      · cases hn
        exact h
      · have hpop : (s.setFunctors l (s.loop l).functors.advance).InLoop := h
        exact hpop.call hn
  | finish l =>
      cases hn
      exact h
  | destroy =>
      cases hn
      exact h
  | shutdown c =>
      cases hn
      exact h.setLife
  | shutdownTest t c =>
      cases hn
      split <;> exact h
  | shutdownSet t c =>
      cases hn
      have hlife : (s.setLife c (s.conn c).life.setDisconnecting).InLoop := h.setLife
      exact hlife

theorem inLoop_reachable (hs : system.Reachable s) : s.InLoop := by
  have hplaced : (system : Lts (TcpServer Tid) _ _).Invariant Placed := placed_invariant
  have hinv := hplaced.and (J := InLoop)
    (by
      rintro s ⟨name, hostport, numThreads, rfl⟩ c hc
      cases hc)
    fun s a s' hp h _ hn => h.next hp hn
  exact (hinv.reachable hs).2

end TcpServer

end Muduo
