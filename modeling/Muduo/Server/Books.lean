import Muduo.Server.Steps

/-!
# The books of a connection

What a connection has been through, where it is now and what is still to
come for it balance (`Counts`): every functor queued has run or waits, every
`handleClose` leads to one `removeConnectionInLoop`, every way out of
`connections_` to one `connectDestroyed`. With what its state says of all
this (`Books`), the moves keep the balance as long as no connection takes
the name of another; `~TcpServer` may drop connections meanwhile.
-/

namespace Muduo

open Lib

namespace TcpServer

variable {a b : Account} {K : Irregular → Prop}

/-! ## The balance -/

structure Counts (a : Account) : Prop where
  established : a.functors.count .connectEstablished + a.history.count .connectEstablished = 1
  closing : a.history.count .handleClose =
    a.stack.count .closing + a.removals + a.history.count .removeConnectionInLoop
  closed : a.history.count .handleClose =
    a.stack.count .closing + a.stack.count .closed + a.history.count .closed
  destroyed : a.history.count .removeConnectionInLoop + a.history.count .dropped =
    a.functors.count .connectDestroyed + a.history.count .connectDestroyed
  entries : a.entries + a.history.count .removeConnectionInLoop + a.history.count .dropped = 1
  once : a.history.count .handleClose ≤ 1

theorem counts_fresh : Counts .fresh := by
  constructor <;> simp [Account.fresh]

theorem Counts.move (h : Counts a)
    (hclose : a.life.isPolled = true → a.history.count .handleClose = 0)
    (hover : ¬K .overwritten) (hm : Move K a b) : Counts b := by
  obtain ⟨life, history, functors, removals, stack, entries⟩ := a
  obtain ⟨hestablished, hclosing, hclosed, hdestroyed, hentries, honce⟩ := h
  cases hm with
  | established hf hs _ =>
      obtain rfl : functors = _ := hf
      obtain rfl : stack = _ := hs
      constructor <;> simp at * <;> omega
  | read hs _ =>
      obtain rfl : stack = _ := hs
      constructor <;> simp at * <;> omega
  | close _ hs hp _ =>
      obtain rfl : stack = _ := hs
      have hnone := hclose hp
      constructor <;> simp at * <;> omega
  | returned hs hpoint =>
      obtain rfl : stack = _ := hs
      rcases hpoint with rfl | rfl <;> constructor <;> simp at * <;> omega
  | removing hs =>
      obtain rfl : stack = _ := hs
      constructor <;> simp at * <;> omega
  | removed hr hentry =>
      obtain rfl : removals = _ := hr
      have hne := hentry hover
      constructor <;> simp at * <;> omega
  | closed hs =>
      obtain rfl : stack = _ := hs
      constructor <;> simp at * <;> omega
  | dropped _ he =>
      obtain rfl : entries = _ := he
      constructor <;> simp at * <;> omega
  | destroying can _ =>
      obtain rfl : functors = _ := can.functors
      constructor <;> simp at * <;> omega
  | destroyed can _ _ =>
      obtain rfl : functors = _ := can.functors
      constructor <;> simp at * <;> omega
  | down hs _ =>
      obtain rfl : stack = _ := hs
      constructor <;> simp at * <;> omega
  | finished hs =>
      obtain rfl : stack = _ := hs
      constructor <;> simp at * <;> omega
  | shutdown _ => exact ⟨hestablished, hclosing, hclosed, hdestroyed, hentries, honce⟩
  | disconnecting _ _ _ => exact ⟨hestablished, hclosing, hclosed, hdestroyed, hentries, honce⟩
  | lost hover' _ => exact absurd hover' hover

/-! ## What the state says of it -/

/-- The connection is up. -/
def Account.IsUp (a : Account) : Prop :=
  a.life.state = .kConnected ∨ a.life.state = .kDisconnecting

structure Books (a : Account) : Prop where
  counts : Counts a
  /-- Until `connectEstablished` has run, nothing has happened. -/
  new : .connectEstablished ∈ a.functors → a.life = .new ∧ a.history.count .handleClose = 0
  /-- It is the first thing in the queue. -/
  first : .connectEstablished ∉ a.functors.tail
  interest : a.life.interest = true →
    a.IsUp ∧ .connectEstablished ∈ a.history ∧ a.history.count .handleClose = 0
  down : a.life.state = .kConnected ∨ a.life.state = .kConnecting →
    a.history.count .handleClose = 0
  destroying : .destroying ∈ a.stack ∨ .down ∈ a.stack → .connectEstablished ∉ a.functors
  user : .established ∈ a.stack ∨ .message ∈ a.stack → a.history.count .handleClose = 0

theorem books_fresh : Books .fresh where
  counts := counts_fresh
  new _ := ⟨rfl, rfl⟩
  first h := by cases h
  interest h := by cases h
  down _ := rfl
  destroying h := by rcases h with h | h <;> cases h
  user h := by rcases h with h | h <;> cases h

theorem Books.polled (h : Books a) (hp : a.life.isPolled = true) :
    a.IsUp ∧ .connectEstablished ∈ a.history ∧ a.history.count .handleClose = 0 := by
  simp only [Lifecycle.isPolled, Bool.and_eq_true] at hp
  exact h.interest hp.2

/-- Only the mark itself adds to its count. -/
theorem count_snoc {ms : List Mark} {m x : Mark} (hm : m ≠ x) :
    (ms ++ [m]).count x = ms.count x := by
  simp [hm]

/-- The state changes where nothing else does, `connectEstablished` being
behind it. -/
theorem Books.setLife (h : Books a) {life : Lifecycle}
    (hpast : .connectEstablished ∉ a.functors)
    (hinterest : life.interest = true → a.life.interest = true ∧
      (a.IsUp → life.state = .kConnected ∨ life.state = .kDisconnecting))
    (hdown : life.state = .kConnected ∨ life.state = .kConnecting →
      a.life.state = .kConnected ∨ a.life.state = .kConnecting) :
    Books { a with life := life } :=
  { h with
    counts := { h.counts with }
    new := fun hmem => absurd hmem hpast
    interest := fun hi => by
      obtain ⟨hi', hup⟩ := hinterest hi
      obtain ⟨hstate, hrest⟩ := h.interest hi'
      exact ⟨hup hstate, hrest⟩
    down := fun hs => h.down (hdown hs) }

/-- Once user code has been given it, a connection is established. -/
theorem Books.past_of_given (h : Books a) (hr : a.life.reports ≠ []) :
    .connectEstablished ∉ a.functors := by
  intro hmem
  rw [(h.new hmem).1] at hr
  exact hr rfl

theorem Books.shutdown (h : Books a) (hr : a.life.reports ≠ []) :
    Books { a with life := a.life.shutdown } := by
  refine h.setLife (h.past_of_given hr) (fun hi => ?_) fun hs => ?_
  · rw [Lifecycle.interest_shutdown] at hi
    refine ⟨hi, fun hup => ?_⟩
    rcases a.life.state_shutdown with heq | ⟨_, heq⟩
    · rw [heq]
      exact hup
    · exact Or.inr heq
  · rcases a.life.state_shutdown with heq | ⟨hup, _⟩
    · exact heq ▸ hs
    · exact Or.inl hup

theorem Books.disconnecting (h : Books a) (hr : a.life.reports ≠ []) :
    Books { a with life := a.life.setDisconnecting } :=
  h.setLife (h.past_of_given hr) (fun hi => ⟨hi, fun _ => Or.inr rfl⟩) fun hs => by
    rcases hs with hs | hs <;> cases hs

theorem Books.first_append (h : Books a) :
    .connectEstablished ∉ (a.functors ++ [Method.connectDestroyed]).tail := by
  intro hmem
  have hfirst := h.first
  cases hf : a.functors with
  | nil =>
      rw [hf] at hmem
      cases hmem
  | cons f fs =>
      rw [hf] at hmem hfirst
      rcases List.mem_append.mp hmem with hmem | hmem
      · exact hfirst hmem
      · cases List.mem_singleton.mp hmem

/-- The connection goes on, its state and its `handleClose` being what they
were. -/
theorem Books.goOn (h : Books a) (hcounts : Counts b) (hlife : b.life = a.life)
    (hclose : b.history.count .handleClose = a.history.count .handleClose)
    (hhistory : ∀ m ∈ a.history, m ∈ b.history)
    (hfunctors : .connectEstablished ∈ b.functors → .connectEstablished ∈ a.functors)
    (hfirst : .connectEstablished ∉ b.functors.tail)
    (hdestroying : .destroying ∈ b.stack ∨ .down ∈ b.stack →
      .destroying ∈ a.stack ∨ .down ∈ a.stack ∨ .connectEstablished ∉ b.functors)
    (huser : .established ∈ b.stack ∨ .message ∈ b.stack →
      .established ∈ a.stack ∨ .message ∈ a.stack ∨ a.history.count .handleClose = 0) :
    Books b where
  counts := hcounts
  new hmem := by
    rw [hlife, hclose]
    exact h.new (hfunctors hmem)
  first := hfirst
  interest hi := by
    rw [hlife] at hi
    obtain ⟨hup, hest, hnone⟩ := h.interest hi
    rw [Account.IsUp, hlife, hclose]
    exact ⟨hup, hhistory _ hest, hnone⟩
  down hs := by
    rw [hlife] at hs
    rw [hclose]
    exact h.down hs
  destroying hd hmem := by
    rcases hdestroying hd with hd | hd | hpast
    · exact h.destroying (Or.inl hd) (hfunctors hmem)
    · exact h.destroying (Or.inr hd) (hfunctors hmem)
    · exact hpast hmem
  user hu := by
    rw [hclose]
    rcases huser hu with hu | hu | hnone
    · exact h.user (Or.inl hu)
    · exact h.user (Or.inr hu)
    · exact hnone

/-- A functor of the connection is queued. -/
theorem Books.queue (h : Books a) {m : Mark} {n n' : Nat} (hm : m ≠ .handleClose)
    (hcounts : Counts { a with
      history := a.history ++ [m], functors := a.functors ++ [.connectDestroyed]
      removals := n, entries := n' }) :
    Books { a with
      history := a.history ++ [m], functors := a.functors ++ [.connectDestroyed]
      removals := n, entries := n' } := by
  refine h.goOn hcounts rfl (count_snoc hm) (fun _ => List.mem_append_left _) (fun hmem => ?_)
    h.first_append (fun hd => hd.imp id Or.inl) (fun hu => hu.imp id Or.inl)
  rcases List.mem_append.mp hmem with hmem | hmem
  · exact hmem
  · cases List.mem_singleton.mp hmem

/-- The function on top returns. -/
theorem Books.leave (h : Books a) (ms : List Mark) {p : Point} {ps : List Point}
    (hstack : a.stack = p :: ps) (hms : ms.count .handleClose = 0)
    (hcounts : Counts { a with history := a.history ++ ms, stack := ps }) :
    Books { a with history := a.history ++ ms, stack := ps } := by
  have hmem {q : Point} (hq : q ∈ ps) : q ∈ a.stack := hstack ▸ List.mem_cons_of_mem _ hq
  refine h.goOn hcounts rfl ?_ (fun _ => List.mem_append_left _) id h.first
    (fun hd => ?_) (fun hu => ?_)
  · rw [List.count_append, hms]
    rfl
  · exact hd.imp hmem fun hd => Or.inl (hmem hd)
  · exact hu.imp hmem fun hu => Or.inl (hmem hu)

/-- `connectDestroyed` begins. -/
theorem Books.destroy (h : Books a) {fs fs' : List Method} (hcan : Destroyable K a fs fs')
    {ms : List Mark} (ps : List Point) (hms : ms.count .handleClose = 0)
    (hps : ∀ p ∈ ps, p = .destroying)
    (hcounts : Counts { a with
      history := a.history ++ ms, functors := fs ++ fs', stack := ps ++ a.stack }) :
    Books { a with
      history := a.history ++ ms, functors := fs ++ fs', stack := ps ++ a.stack } := by
  have hpast := (hcan.past h.first).2
  refine h.goOn hcounts rfl ?_ (fun _ => List.mem_append_left _) (fun hmem => absurd hmem hpast)
    (fun hmem => hpast (List.mem_of_mem_tail hmem)) (fun _ => Or.inr (Or.inr hpast)) (fun hu => ?_)
  · rw [List.count_append, hms]
    rfl
  · refine hu.imp (fun hu => ?_) fun hu => Or.inl ?_
    · rcases List.mem_append.mp hu with hu | hu
      · cases hps _ hu
      · exact hu
    · rcases List.mem_append.mp hu with hu | hu
      · cases hps _ hu
      · exact hu

/-- **Every move keeps the books**, unless a name is taken over. -/
theorem Books.move (h : Books a) (hover : ¬K .overwritten) (hm : Move K a b) : Books b := by
  have hcounts : Counts b := h.counts.move (fun hp => (h.polled hp).2.2) hover hm
  cases hm with
  | @established fs life functors stack result =>
      obtain ⟨hstate, rfl⟩ := Lifecycle.connectEstablished_ok result
      have hfirst := h.first
      have hnone := (h.new (by simp [functors])).2
      rw [functors, List.tail_cons] at hfirst
      have hcount := (count_snoc (m := .connectEstablished) (by simp)).trans hnone
      exact {
        counts := hcounts
        new := fun hmem => absurd hmem hfirst
        first := fun hmem => hfirst (List.mem_of_mem_tail hmem)
        interest := fun _ => ⟨Or.inl rfl, by simp, hcount⟩
        down := fun _ => hcount
        destroying := fun _ => hfirst
        user := fun _ => hcount }
  | read stack polled =>
      have hnone := (h.polled polled).2.2
      refine h.goOn hcounts rfl (count_snoc (by simp)) (fun _ => List.mem_append_left _) id
        h.first (fun hd => ?_) fun _ => Or.inr (Or.inr hnone)
      rcases hd with hd | hd <;> cases List.mem_singleton.mp hd
  | @close life kind stack polled result =>
      obtain ⟨_, rfl⟩ := Lifecycle.handleClose_ok result
      have hest := (h.polled polled).2.1
      have hpast : .connectEstablished ∉ a.functors := by
        intro hmem
        have hcount := h.counts.established
        have hpos := List.count_pos_iff.mpr hest
        have hpos' := List.count_pos_iff.mpr hmem
        omega
      exact {
        counts := hcounts
        new := fun hmem => absurd hmem hpast
        first := h.first
        interest := fun hi => by cases hi
        down := fun hs => by rcases hs with hs | hs <;> cases hs
        destroying := fun _ => hpast
        user := fun hu => by rcases hu with hu | hu <;> cases List.mem_singleton.mp hu }
  | returned stack point =>
      have hleave := h.leave [] stack rfl (by rwa [List.append_nil])
      rwa [List.append_nil] at hleave
  | @removing ps stack =>
      have hmem {q : Point} (hq : q ∈ .closed :: ps) : q = .closed ∨ q ∈ a.stack := by
        rw [stack]
        exact (List.mem_cons.mp hq).imp id (List.mem_cons_of_mem _)
      refine h.goOn hcounts rfl rfl (fun _ => id) id h.first (fun hd => ?_) fun hu => ?_
      · exact hd.imp (fun hd => (hmem hd).resolve_left (by simp)) fun hd =>
          Or.inl ((hmem hd).resolve_left (by simp))
      · exact hu.imp (fun hu => (hmem hu).resolve_left (by simp)) fun hu =>
          Or.inl ((hmem hu).resolve_left (by simp))
  | removed removals entries => exact h.queue (by simp) hcounts
  | closed stack => exact h.leave _ stack (by simp) hcounts
  | dropped kind entries => exact h.queue (by simp) hcounts
  | destroying can state =>
      exact h.destroy can [.destroying] (by simp) (by simp) hcounts
  | destroyed can state kind =>
      have hpast := (can.past h.first).2
      have hdestroy := h.destroy can [] (by simp) (by simp) { hcounts with }
      exact hdestroy.setLife hpast (fun hi => ⟨hi, id⟩) id
  | @down ps stack user =>
      have hpast := h.destroying (Or.inl (by simp [stack]))
      have hmem {q : Point} (hq : q ∈ .down :: ps) : q = .down ∨ q ∈ a.stack := by
        rw [stack]
        exact (List.mem_cons.mp hq).imp id (List.mem_cons_of_mem _)
      have hdown : Books { a with stack := .down :: ps } := by
        refine h.goOn { hcounts with } rfl rfl (fun _ => id) id h.first
          (fun _ => Or.inr (Or.inr hpast)) fun hu => ?_
        exact hu.imp (fun hu => (hmem hu).resolve_left (by simp)) fun hu =>
          Or.inl ((hmem hu).resolve_left (by simp))
      exact hdown.setLife hpast (fun hi => by cases hi) fun hs => by
        rcases hs with hs | hs <;> cases hs
  | finished stack =>
      have hpast := h.destroying (Or.inr (by simp [stack]))
      have hleave := h.leave _ stack (by simp) { hcounts with }
      exact hleave.setLife hpast (fun hi => ⟨hi, id⟩) id
  | shutdown given => exact h.shutdown given
  | disconnecting _ given _ => exact h.disconnecting given
  | lost kind entries => exact absurd kind hover

/-- The books of every connection are kept, in every run with distinct names. -/
theorem books_reachable {Tid : Type} [DecidableEq Tid] {s : TcpServer Tid}
    {C : TcpServer Tid → Event Tid → Prop} (hC : ∀ s a, C s a → s.Named a)
    (hs : (system.guarded C).Reachable s) {c : Nat} (hc : c < s.created) : Books (s.account c) := by
  refine account_invariant (K := fun k => k ≠ .overwritten) books_fresh
    (fun a b h hm => h.move (fun hk => hk rfl) hm) (fun s a hs hCa k hk heq => ?_) hs hc
  subst heq
  exact not_overwritten (distinct_reachable hC hs) (hC s a hCa) hk

end TcpServer

end Muduo
