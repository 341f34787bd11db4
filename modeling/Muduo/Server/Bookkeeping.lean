import Muduo.Server.Order

/-!
# The bookkeeping of a live server

While the server is not destroyed and no two connections have one name,
`connections_` has the connections not removed yet, no assertion fails, and
a connection is kept, when `connections_` does so no longer, by the functor
that is to run next or has just run (`bookkept`).
-/

namespace Muduo

open Lib

namespace TcpServer

variable {Tid : Type} {s s' : TcpServer Tid} {l c : Nat}

/-! ## Owners -/

/-- Something other than the stack keeps the connection: `connections_`, or a
functor of a queue or of the pass under way. -/
def Owned (s : TcpServer Tid) (c : Nat) : Prop :=
  c ∈ s.connections.map Prod.snd ∨ ∃ l, ∃ f ∈ (s.loop l).functors.held, f.conn = c

/-- The connection a function of which the event begins or goes on with. A new
one is in `connections_` before any is called. -/
def runs (s : TcpServer Tid) : Event Tid → Option Nat
  | .read c => some c
  | .close c => some c
  | .step l =>
      match (s.loop l).stack with
      | .conn _ c :: _ => some c
      | _ => none
  | .functor l => (s.loop l).functors.todo.head?.map Functor.conn
  | _ => none

theorem owned_of_entries (h : 0 < (s.account c).entries) : s.Owned c :=
  Or.inl (List.count_pos_iff.mp h)

theorem owned_of_functor {m : Method} (h : m ∈ (s.account c).functors) : s.Owned c := by
  obtain ⟨f, hf, hof⟩ := List.mem_filterMap.mp h
  refine Or.inr ⟨_, f, List.mem_append_right _ hf, ?_⟩
  unfold Functor.of at hof
  split at hof
  · rename_i hconn
    exact hconn.1
  · cases hof

theorem owned_of_frame (h : Ordered (s.account c)) (hp : s.Placed) {p : Point}
    (hf : .conn p c ∈ (s.loop l).stack) : s.Owned c := by
  have hl : l = (s.conn c).loop := ((hp.loops l).stack _ hf).2
  have hmem : p ∈ (s.account c).stack :=
    List.mem_filterMap.mpr ⟨_, hl ▸ hf, Frame.of_conn_self⟩
  rcases h.owner hmem with hentry | hfunctor
  · exact owned_of_entries hentry
  · exact owned_of_functor hfunctor

/-! ## Assertions -/

/-- A connection in `connections_` is the one entry of its name. -/
theorem length_filter_name (hp : s.Placed) (hd : s.Distinct) (hc : c < s.created)
    (hentry : (s.account c).entries = 1) :
    (s.connections.filter (·.1 = (s.conn c).name)).length = 1 := by
  have hcount : (s.connections.map Prod.snd).count c = 1 := hentry
  rw [← List.countP_eq_length_filter, ← hcount, List.count_eq_countP, List.countP_map]
  refine List.countP_congr fun e he => ?_
  obtain ⟨hname, hlt⟩ := hp.entries e he
  simp only [decide_eq_true_eq, Function.comp_apply, beq_iff_eq]
  constructor
  · exact fun heq => hd e.2 c hlt hc (hname.symm.trans heq)
  · rintro rfl
    exact hname

theorem removeConnectionInLoop_succeeds (halive : s.alive = true)
    (hlength : (s.connections.filter (·.1 = (s.conn c).name)).length = 1) :
    ∃ s', s.removeConnectionInLoop 0 c = .ok s' := by
  unfold removeConnectionInLoop
  rw [check_of halive, ok_bind, check_of rfl, ok_bind]
  dsimp only
  rw [check_of hlength, ok_bind]
  exact ⟨_, rfl⟩

theorem removeConnection_succeeds (halive : s.alive = true)
    (hlength : (s.connections.filter (·.1 = (s.conn c).name)).length = 1) :
    ∃ s', s.removeConnection l c = .ok s' := by
  unfold removeConnection runInLoop
  rw [check_of halive, ok_bind]
  split
  · exact removeConnectionInLoop_succeeds halive hlength
  · exact ⟨_, rfl⟩

theorem connectEstablished_succeeds (hl : l = (s.conn c).loop)
    (hlife : (s.conn c).life.state = .kConnecting) : ∃ s', s.connectEstablished l c = .ok s' := by
  unfold connectEstablished
  rw [check_of hl, ok_bind, Lifecycle.connectEstablished, check_of hlife]
  exact ⟨_, rfl⟩

theorem connectDestroyed_succeeds (hl : l = (s.conn c).loop) :
    ∃ s', s.connectDestroyed l c = .ok s' := by
  unfold connectDestroyed
  rw [check_of hl, ok_bind]
  dsimp only
  split <;> exact ⟨_, rfl⟩

theorem handleClose_succeeds (h : Ordered (s.account c))
    (hpolled : (s.conn c).life.isPolled = true) : ∃ s', s.handleClose l c = .ok s' := by
  have hup : (s.conn c).life.state = .kConnected ∨ (s.conn c).life.state = .kDisconnecting :=
    (h.books.polled hpolled).1
  unfold handleClose
  rw [Lifecycle.handleClose, check_of hup]
  exact ⟨_, rfl⟩

theorem step_succeeds (h : ∀ c < s.created, Ordered (s.account c)) (hp : s.Placed)
    (hd : s.Distinct) (hstanding : s.Standing) : ∃ s', s.step l = .ok s' := by
  cases hs : (s.loop l).stack with
  | nil => exact ⟨s, by simp only [step, hs]⟩
  | cons f fs =>
      obtain ⟨p, c, rfl⟩ := hstanding.top hs
      obtain ⟨hc, hl⟩ : s.Sits l (.conn p c) := (hp.top hs).1
      simp only [step, hs]
      cases p with
      | closing =>
          have hmem : .closing ∈ (s.account c).stack := by
            rw [(stack_top hp hs).2.1]
            exact List.mem_cons_self ..
          have hentry := entries_of_closing (h c hc) (Or.inl hmem)
          have hlength := length_filter_name hp hd hc hentry
          exact removeConnection_succeeds (s := s.setStack l _) hstanding.alive hlength
      | _ => exact ⟨_, rfl⟩

theorem functor_succeeds (h : ∀ c < s.created, Ordered (s.account c)) (hp : s.Placed)
    (hd : s.Distinct) (hstanding : s.Standing) {f : Functor} {fs : List Functor}
    (hf : (s.loop l).functors.todo = f :: fs) :
    ∃ s', (s.setFunctors l (s.loop l).functors.advance).call l f = .ok s' := by
  have hmem := Batch.mem_queued_of_todo hf
  obtain ⟨m, c⟩ := f
  obtain ⟨hc, hl⟩ := (hp.loops l).functors _ hmem
  cases m with
  | connectEstablished =>
      have hl : l = (s.conn c).loop := hl
      have hest : .connectEstablished ∈ (s.account c).functors :=
        List.mem_filterMap.mpr ⟨_, hl ▸ hmem, Functor.of_self (by simp)⟩
      have hnew : (s.conn c).life = .new := ((h c hc).books.new hest).1
      refine connectEstablished_succeeds (s := s.setFunctors l _) hl ?_
      exact congrArg Lifecycle.state hnew
  | connectDestroyed => exact connectDestroyed_succeeds (s := s.setFunctors l _) hl
  | removeConnectionInLoop =>
      obtain rfl : l = 0 := hl
      have hpos : 0 < (s.account c).removals := List.count_pos_iff.mpr hmem
      have hentry := entries_of_closing (h c hc) (Or.inr hpos)
      have hlength := length_filter_name hp hd hc hentry
      exact removeConnectionInLoop_succeeds (s := s.setFunctors 0 _) hstanding.alive hlength

/-! ## `connections_` -/

/-- What has happened to a connection, in order. -/
def marks (s : TcpServer Tid) (c : Nat) : List Mark := (s.conn c).history.map Prod.snd

theorem entries_eq (h : ∀ c < s.created, Ordered (s.account c)) (hp : s.Placed) (c : Nat) :
    (s.connections.map Prod.snd).count c =
      if c < s.created ∧ .removeConnectionInLoop ∉ s.marks c then 1 else 0 := by
  by_cases hc : c < s.created
  · have hdropped := (h c hc).dropped
    have hentries : (s.connections.map Prod.snd).count c +
      (s.marks c).count .removeConnectionInLoop + (s.marks c).count .dropped = 1 :=
        (h c hc).books.counts.entries
    change (s.marks c).count .dropped = 0 at hdropped
    by_cases hmem : .removeConnectionInLoop ∈ s.marks c
    · have hpos := List.count_pos_iff.mpr hmem
      rw [if_neg fun hand => hand.2 hmem]
      omega
    · have hzero := List.count_eq_zero.mpr hmem
      rw [if_pos ⟨hc, hmem⟩]
      omega
  · rw [if_neg fun hand => hc hand.1, List.count_eq_zero]
    intro hmem
    obtain ⟨e, he, rfl⟩ := List.mem_map.mp hmem
    exact hc (hp.entries e he).2

/-! ## Whole runs -/

variable [DecidableEq Tid] {a : Event Tid}

/-- The side condition on events: connection names are distinct, and the server
is not destroyed. -/
def Live (s : TcpServer Tid) (a : Event Tid) : Prop := s.Named a ∧ a ≠ .destroy

theorem standing_reachable (hs : (system.guarded Live).Reachable s) : Standing s := by
  have hinv : ((system : Lts (TcpServer Tid) _ _).guarded Live).Invariant Standing := {
    init := by
      rintro s ⟨name, hostport, numThreads, rfl⟩
      exact ⟨rfl, fun l f hf => by cases hf⟩
    step := fun s a s' h he hn => h.next he.2.2 hn }
  exact hinv.reachable hs

theorem ordered_reachable (hs : (system.guarded Live).Reachable s) (hc : c < s.created) :
    Ordered (s.account c) := by
  refine account_invariant (K := fun k => k ≠ .overwritten ∧ k ≠ .orphaned) ordered_fresh
    (fun a b h hm => h.move (fun hk => hk.1 rfl) (fun hk => hk.2 rfl) hm)
    (fun s a hs hCa k hk => ⟨?_, ?_⟩) hs hc
  · rintro rfl
    have hdistinct := distinct_reachable (fun _ _ (h : Live _ _) => h.1) hs
    exact not_overwritten hdistinct hCa.1 hk
  · rintro rfl
    cases (standing_reachable hs).stack 0 _ hk

/-- The connections: in `connections_` exactly until their
`removeConnectionInLoop`, each through its functions once, in order and in its
own loop, and with an owner whenever one of them runs; and the assertions
hold. -/
structure Bookkept (s : TcpServer Tid) : Prop where
  entries : ∀ c, (s.connections.map Prod.snd).count c =
    if c < s.created ∧ .removeConnectionInLoop ∉ s.marks c then 1 else 0
  established : ∀ c < s.created, (s.marks c).count .connectEstablished ≤ 1
  destroyed : ∀ c < s.created, (s.marks c).count .connectDestroyed ≤ 1
  first : ∀ c < s.created, Precedes .connectEstablished .handleRead (s.marks c) ∧
    Precedes .connectEstablished .handleClose (s.marks c)
  last : ∀ c < s.created, Precedes .closed .connectDestroyed (s.marks c)
  inLoop : s.InLoop
  calls : ∀ l p c, .conn p c ∈ (s.loop l).stack → s.Owned c
  runs : ∀ a c, s.enabled a = true → s.runs a = some c → s.Owned c
  succeeds : ∀ a, s.enabled a = true → s.Live a → ∃ s', s.next a = .ok s'

theorem owned_of_runs (h : ∀ c < s.created, Ordered (s.account c)) (hp : s.Placed)
    (he : s.enabled a = true) (hruns : s.runs a = some c) : s.Owned c := by
  cases a with
  | read c' =>
      obtain rfl := Option.some.inj hruns
      obtain ⟨hc, _, hpolled⟩ := ready_idle he
      exact owned_of_entries (by rw [entries_of_polled (h _ hc) hpolled]; exact Nat.one_pos)
  | close c' =>
      obtain rfl := Option.some.inj hruns
      obtain ⟨hc, _, hpolled⟩ := ready_idle he
      exact owned_of_entries (by rw [entries_of_polled (h _ hc) hpolled]; exact Nat.one_pos)
  | step l =>
      simp only [runs] at hruns
      split at hruns
      · rename_i p c' fs hs
        obtain rfl := Option.some.inj hruns
        have hmem : .conn p c' ∈ (s.loop l).stack := by simp [hs]
        exact owned_of_frame (h _ ((hp.loops l).stack _ hmem).1) hp hmem
      · cases hruns
  | functor l =>
      simp only [runs] at hruns
      cases hf : (s.loop l).functors.todo with
      | nil =>
          rw [hf] at hruns
          cases hruns
      | cons f fs =>
          rw [hf] at hruns
          obtain rfl := Option.some.inj hruns
          refine Or.inr ⟨l, f, ?_, rfl⟩
          exact List.mem_append_right _ (Batch.mem_queued_of_todo hf)
  | _ => cases hruns

theorem next_succeeds (h : ∀ c < s.created, Ordered (s.account c)) (hp : s.Placed)
    (hd : s.Distinct) (hstanding : s.Standing) (he : s.enabled a = true) :
    ∃ s', s.next a = .ok s' := by
  cases a with
  | newConnection =>
      change ∃ s', s.create.runInLoop 0 s.getNextLoop.1 _ = .ok s'
      unfold runInLoop
      split
      · rename_i hl
        refine connectEstablished_succeeds ?_ ?_
        · rw [conn_create_self, ← hl]
        · rw [conn_create_self]
          rfl
      · exact ⟨_, rfl⟩
  | close c =>
      obtain ⟨hc, _, hpolled⟩ := ready_idle he
      exact handleClose_succeeds (h c hc) hpolled
  | step l => exact step_succeeds h hp hd hstanding
  | functor l =>
      simp only [next]
      split
      · exact ⟨s, rfl⟩
      · rename_i f fs hf
        exact functor_succeeds h hp hd hstanding hf
  | _ => exact ⟨_, rfl⟩

/-- **The bookkeeping is right**, in every state of a server that is not
destroyed, the connections having distinct names. -/
theorem bookkept (hs : (system.guarded Live).Reachable s) : s.Bookkept := by
  have hp := placed_reachable hs.of_guarded
  have hd := distinct_reachable (fun _ _ (h : Live _ _) => h.1) hs
  have h (c : Nat) (hc : c < s.created) : Ordered (s.account c) := ordered_reachable hs hc
  constructor
  case entries => exact entries_eq h hp
  case established =>
    intro c hc
    have hcount := (h c hc).books.counts.established
    exact Nat.le_of_add_left_le hcount.le
  case destroyed =>
    intro c hc
    have hcount := (h c hc).books.counts.destroyed
    have hentries := (h c hc).books.counts.entries
    change _ = _ + (s.marks c).count .connectDestroyed at hcount
    omega
  case first => exact fun c hc => ⟨(h c hc).read, (h c hc).close⟩
  case last => exact fun c hc => (h c hc).destroy
  case inLoop => exact inLoop_reachable hs.of_guarded
  case calls =>
    intro l p c hmem
    exact owned_of_frame (h c ((hp.loops l).stack _ hmem).1) hp hmem
  case runs => exact fun a c he hruns => owned_of_runs h hp he hruns
  case succeeds => exact fun a he _ => next_succeeds h hp hd (standing_reachable hs) he

/-- One connection, from `newConnection` to `removeConnectionInLoop`. -/
theorem bookkept_removed : ∃ s : TcpServer Nat,
    s.marks 0 = [.connectEstablished, .handleClose, .removeConnectionInLoop] ∧ s.Bookkept := by
  let L : Lts (TcpServer Nat) (Event Nat) Fault := system.guarded Live
  have h₀ : L.Reachable (new [] [] 1) := .of_init ⟨[], [], 1, rfl⟩
  have h₁ := h₀.step (a := Event.newConnection) ⟨rfl, fun c hc => (by cases hc), by simp⟩ rfl
  have h₂ := h₁.step (a := Event.swap 1) ⟨rfl, trivial, by simp⟩ rfl
  have h₃ := h₂.step (a := Event.functor 1) ⟨rfl, trivial, by simp⟩ rfl
  have h₄ := h₃.step (a := Event.step 1) ⟨rfl, trivial, by simp⟩ rfl
  have h₅ := h₄.step (a := Event.finish 1) ⟨rfl, trivial, by simp⟩ rfl
  have h₆ := h₅.step (a := Event.close 0) ⟨rfl, trivial, by simp⟩ rfl
  have h₇ := h₆.step (a := Event.step 1) ⟨rfl, trivial, by simp⟩ rfl
  have h₈ := h₇.step (a := Event.swap 0) ⟨rfl, trivial, by simp⟩ rfl
  have h₉ := h₈.step (a := Event.functor 0) ⟨rfl, trivial, by simp⟩ rfl
  exact ⟨_, rfl, bookkept h₉⟩

end TcpServer

end Muduo
