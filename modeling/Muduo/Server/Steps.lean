import Muduo.Server.Placed

/-!
# The server's steps, connection by connection

`steps_of_next`: what one event of the server does to the account of any
connection is a sequence of moves, of no kind but those of the event. For
most connections it is the empty one.
-/

namespace Muduo

open Lib

namespace TcpServer

variable {Tid : Type} {s s' : TcpServer Tid} {P : Irregular → Prop} {l c c' : Nat}

/-! ## Kinds of events -/

/-- Connection names are pairwise distinct. -/
def Distinct (s : TcpServer Tid) : Prop :=
  ∀ c c', c < s.created → c' < s.created → (s.conn c).name = (s.conn c').name → c = c'

/-- The connection whose `connectDestroyed` the event begins. -/
def destroys (s : TcpServer Tid) : Event Tid → Option Nat
  | .functor l =>
      match (s.loop l).functors.todo with
      | ⟨.connectDestroyed, c⟩ :: _ => some c
      | _ => none
  | .step l =>
      match (s.loop l).stack, s.connections with
      | .destructor :: _, (_, c) :: _ => if l = (s.conn c).loop then some c else none
      | _, _ => none
  | _ => none

/-- The kinds of an event. -/
def irregular (s : TcpServer Tid) (a : Event Tid) : Irregular → Prop
  | .overwritten => ¬s.Distinct ∨
      a = .newConnection ∧ ∃ c < s.created, (s.conn c).name = s.connName
  | .orphaned => .destructor ∈ (s.loop 0).stack
  | .cutShort => ∃ c, s.destroys a = some c ∧ (s.conn c).life.state = .kDisconnecting
  | .setting => ∃ t c, a = .shutdownSet t c
  | .late => ∃ t c, a = .shutdownSet t c ∧ .down ∈ (s.account c).stack
  | .closing => ∃ c, a = .close c

/-- Where the account of a connection starts in a step. -/
def origin (s : TcpServer Tid) (c : Nat) : Account :=
  if c < s.created then s.account c else .fresh

/-! ## The functions -/

/-- Only the account of `c` changes. -/
def Only (c : Nat) (s s' : TcpServer Tid) : Prop := ∀ c', c' ≠ c → s'.account c' = s.account c'

theorem Only.trans {s'' : TcpServer Tid} (h : Only c s s') (h' : Only c s' s'') : Only c s s'' :=
  fun c' hc => (h' c' hc).trans (h c' hc)

theorem only_setLife {life : Lifecycle} : Only c s (s.setLife c life) :=
  fun _ h => account_setLife_ne h

theorem only_record {m : Mark} : Only c s (s.record c l m) := fun _ h => account_record_ne h

theorem only_enter {p : Point} : Only c s (s.enter l (.conn p c)) :=
  fun _ h => account_enter (Frame.of_conn_ne h)

theorem only_remove : Only c s (s.remove l c) := only_setLife.trans only_record

theorem account_remove : (s.remove l c).account c =
    { s.account c with
      life := (s.account c).life.remove, history := (s.account c).history ++ [.destroyed] } := by
  rw [remove, account_record_self, account_setLife_self]
  rfl

/-- `connectEstablished` runs, its functor just taken out. -/
theorem connectEstablished_move (hn : s.connectEstablished l c = .ok s')
    (hs : (s.account c).stack = []) :
    Only c s s' ∧
      Move P { s.account c with functors := .connectEstablished :: (s.account c).functors }
        (s'.account c) := by
  obtain ⟨hl, life, hlife, rfl⟩ := connectEstablished_ok hn
  refine ⟨(only_setLife.trans only_record).trans only_enter, ?_⟩
  have hloop : l = (((s.setLife c life).record c l .connectEstablished).conn c).loop := by
    rw [loop_record, setLife, conn_setConn_self, hl]
  rw [account_enter_self hloop, account_record_self, account_setLife_self]
  dsimp only
  rw [hs]
  exact .established rfl rfl hlife

/-- `connectDestroyed` runs. -/
theorem connectDestroyed_move (hn : s.connectDestroyed l c = .ok s') (ms ms' : List Method)
    (hf : (s.account c).functors = ms ++ ms') (hest : .connectEstablished ∉ ms)
    (hs : (s.account c).stack = [] ∨ P .orphaned ∧ ∀ p ∈ (s.account c).stack, p.isUser = true)
    (hkind : (s.conn c).life.state = .kDisconnecting → P .cutShort) :
    Only c s s' ∧
      Move P { s.account c with functors := ms ++ .connectDestroyed :: ms' } (s'.account c) := by
  obtain ⟨hl, ⟨hstate, rfl⟩ | ⟨hstate, rfl⟩⟩ := connectDestroyed_ok hn
  · refine ⟨only_record.trans only_enter, ?_⟩
    rw [account_enter_self (hl.trans loop_record.symm), account_record_self]
    dsimp only
    rw [hf]
    exact .destroying ⟨rfl, hest, hs⟩ hstate
  · refine ⟨only_record.trans only_remove, ?_⟩
    rw [account_remove, account_record_self]
    dsimp only
    rw [hf, List.append_assoc]
    exact .destroyed ⟨rfl, hest, hs⟩ hstate hkind

theorem count_filter_name (h : s.Placed) {name : Bytes}
    (hname : c < s.created → (s.conn c).name ≠ name) :
    ((s.connections.filter (·.1 ≠ name)).map Prod.snd).count c =
      (s.connections.map Prod.snd).count c := by
  rw [List.count_eq_countP, List.countP_map, List.countP_filter, List.count_eq_countP,
    List.countP_map]
  refine List.countP_congr fun e he => ?_
  simp only [Function.comp_apply, beq_iff_eq, Bool.and_eq_true, decide_eq_true_eq]
  refine and_iff_left_of_imp ?_
  rintro rfl
  rw [(h.entries e he).1]
  exact hname (h.entries e he).2

theorem count_filter_le {name : Bytes} :
    ((s.connections.filter (·.1 ≠ name)).map Prod.snd).count c ≤
      (s.connections.map Prod.snd).count c :=
  (List.filter_sublist.map _).count_le _

/-- `removeConnectionInLoop` runs, its functor just taken out. -/
theorem removeConnectionInLoop_move (h : s.Placed) (hc : c < s.created)
    (hn : s.removeConnectionInLoop l c = .ok s') (hkind : ¬s.Distinct → P .overwritten) :
    Move P { s.account c with removals := (s.account c).removals + 1 } (s'.account c) ∧
      ∀ c', c' < s.created → c' ≠ c → Steps P (s.account c') (s'.account c') := by
  obtain ⟨_, _, hlength, rfl⟩ := removeConnectionInLoop_ok hn
  constructor
  · have hgone : ((s.connections.filter (·.1 ≠ (s.conn c).name)).map Prod.snd).count c = 0 := by
      rw [List.count_eq_zero]
      intro hmem
      obtain ⟨e, he, rfl⟩ := List.mem_map.mp hmem
      rw [List.mem_filter, decide_eq_true_eq] at he
      exact he.2 (h.entries e he.1).1
    rw [account_queueInLoop_self (by simp) loop_record.symm, account_record_self,
      account_connections (m := s.connections.filter _), hgone]
    refine .removed rfl fun hP hzero => ?_
    -- the entry found under the name is that of the connection
    obtain ⟨e, hmem⟩ := List.exists_mem_of_length_pos (Nat.lt_of_lt_of_eq Nat.one_pos hlength.symm)
    rw [List.mem_filter, decide_eq_true_eq] at hmem
    obtain ⟨hname, he⟩ := h.entries e hmem.1
    have hdistinct : s.Distinct := by
      by_contra hd
      exact hP (hkind hd)
    obtain rfl := hdistinct e.2 c he hc (hname.symm.trans hmem.2)
    exact List.count_eq_zero.mp hzero (List.mem_map_of_mem hmem.1)
  · intro c' hc' hne
    rw [account_queueInLoop_ne hne, account_record_ne hne,
      account_connections (m := s.connections.filter _)]
    by_cases hname : (s.conn c').name = (s.conn c).name
    · have hd : ¬s.Distinct := fun hd => hne (hd c' c hc' hc hname)
      exact .single (.lost (hkind hd) count_filter_le)
    · rw [count_filter_name h fun _ => hname]
      exact .refl

/-! ## The loops' steps -/

theorem stack_account_nil (h : (s.loop (s.conn c).loop).stack = []) :
    (s.account c).stack = [] := by
  rw [account, h]
  rfl

/-- A functor of loop `l` runs. -/
theorem steps_functor (h : s.Placed) (hidle : s.idle l = true) {f : Functor} {fs : List Functor}
    (hf : (s.loop l).functors.todo = f :: fs)
    (hn : (s.setFunctors l (s.loop l).functors.advance).call l f = .ok s')
    (hover : ¬s.Distinct → P .overwritten)
    (hcut : f.method = .connectDestroyed → (s.conn f.conn).life.state = .kDisconnecting →
      P .cutShort)
    (hc : c < s.created) : Steps P (s.account c) (s'.account c) := by
  obtain ⟨m, cf⟩ := f
  obtain ⟨hcf, hhome⟩ := (h.loops l).functors _ (Batch.mem_queued_of_todo hf)
  have hs : (s.loop l).stack = [] := idle_stack hidle
  have hplaced : Placed (s.setFunctors l (s.loop l).functors.advance) := h.setFunctors
    fun g hg => by
      rw [Batch.queued_advance hf]
      exact List.mem_cons_of_mem _ hg
  have hother (hne : c ≠ cf) :
      (s.setFunctors l (s.loop l).functors.advance).account c = s.account c :=
    account_advance_ne hne hf
  cases m with
  | connectEstablished =>
      have hl : l = (s.conn cf).loop := hhome
      obtain ⟨ms, hms, hpop⟩ := account_advance_self (c := cf) (by simp) hl hf
      have hstack : (s.account cf).stack = [] := stack_account_nil (hl ▸ hs)
      obtain ⟨honly, hmove⟩ := connectEstablished_move (P := P) hn (by rw [hpop]; exact hstack)
      by_cases hne : c = cf
      · subst hne
        rw [hpop] at hmove
        dsimp only at hmove
        rw [← hms] at hmove
        exact .single hmove
      · rw [honly c hne, hother hne]
  | connectDestroyed =>
      have hl : l = (s.conn cf).loop := hhome
      obtain ⟨ms, hms, hpop⟩ := account_advance_self (c := cf) (by simp) hl hf
      have hstack : (s.account cf).stack = [] := stack_account_nil (hl ▸ hs)
      obtain ⟨honly, hmove⟩ := connectDestroyed_move (P := P) hn [] ms
        (by rw [hpop]; rfl) (by simp) (Or.inl (by rw [hpop]; exact hstack)) (hcut rfl)
      by_cases hne : c = cf
      · subst hne
        rw [hpop, List.nil_append] at hmove
        dsimp only at hmove
        rw [← hms] at hmove
        exact .single hmove
      · rw [honly c hne, hother hne]
  | removeConnectionInLoop =>
      obtain rfl : l = 0 := hhome
      obtain ⟨n, hr, hpop⟩ := account_advance_remove (c := cf) hf
      obtain ⟨hmove, hothers⟩ := removeConnectionInLoop_move (P := P) hplaced hcf hn hover
      by_cases hne : c = cf
      · subst hne
        rw [hpop] at hmove
        dsimp only at hmove
        rw [← hr] at hmove
        exact .single hmove
      · rw [← hother hne]
        exact hothers c hc hne

/-- In the functions that others may be on top of, user code is running. -/
theorem isUser_of_isOpen {fs : List Frame} (h : ∀ f ∈ fs, f.isOpen = true) :
    ∀ p ∈ fs.filterMap (Frame.of c), p.isUser = true := by
  intro p hp
  obtain ⟨f, hf, hof⟩ := List.mem_filterMap.mp hp
  have hopen := h f hf
  cases f with
  | conn q cq =>
      simp only [Frame.of] at hof
      split at hof
      · obtain rfl := Option.some.inj hof
        simpa [Frame.isOpen, Frame.isUser, Frame.isDestructor] using hopen
      · cases hof
  | _ => cases hof

/-- `~TcpServer` goes on to the next connection. -/
theorem steps_drop (h : s.Placed) {fs : List Frame} (hs : (s.loop 0).stack = .destructor :: fs)
    {name : Bytes} {cd : Nat} {rest : List (Bytes × Nat)} (hm : s.connections = (name, cd) :: rest)
    (hn : s.drop 0 cd rest = .ok s') (horph : P .orphaned)
    (hcut : 0 = (s.conn cd).loop → (s.conn cd).life.state = .kDisconnecting → P .cutShort) :
    Steps P (s.account c) (s'.account c) := by
  have hdropped (hne : c ≠ cd) :
      ({ s with connections := rest }.record cd 0 .dropped).account c = s.account c := by
    rw [account_record_ne hne, account_connections (m := rest)]
    have hcount : (rest.map Prod.snd).count c = (s.connections.map Prod.snd).count c := by
      rw [hm, List.map_cons, List.count_cons_of_ne (Ne.symm hne)]
    rw [hcount]
    rfl
  have hself : ({ s with connections := rest }.record cd 0 .dropped).account cd =
      { s.account cd with
        history := (s.account cd).history ++ [.dropped]
        entries := (rest.map Prod.snd).count cd } := by
    rw [account_record_self, account_connections (m := rest)]
  have hentries : (s.account cd).entries = (rest.map Prod.snd).count cd + 1 := by
    rw [account, hm, List.map_cons, List.count_cons_self]
  have hmove := Move.dropped horph hentries
  rcases runInLoop_ok hn with ⟨hl, hn⟩ | ⟨_, rfl⟩
  · -- the connection is the acceptor's: `connectDestroyed` runs at once
    have hest : .connectEstablished ∉ (s.account cd).functors := by
      intro hmem
      obtain ⟨f, hf, hof⟩ := List.mem_filterMap.mp hmem
      unfold Functor.of at hof
      split at hof
      · exact (h.loops _).established f hf (Option.some.inj hof) hl.symm
      · cases hof
    have huser : ∀ p ∈ (s.account cd).stack, p.isUser = true := by
      rw [account, ← hl, hs, List.filterMap_cons_none rfl]
      exact isUser_of_isOpen (h.top hs).2
    obtain ⟨honly, hmove'⟩ := connectDestroyed_move (P := P) (c := cd) hn
      (s.account cd).functors [] (by rw [hself, List.append_nil]) hest
      (Or.inr ⟨horph, by rw [hself]; exact huser⟩)
      (by rw [life_record]; exact hcut hl)
    by_cases hne : c = cd
    · subst hne
      rw [hself] at hmove'
      exact (Relation.ReflTransGen.single hmove).tail hmove'
    · rw [honly c hne, hdropped hne]
  · by_cases hne : c = cd
    · subst hne
      rw [account_queueInLoop_self (by simp) loop_record.symm, hself]
      exact .single hmove
    · rw [account_queueInLoop_ne hne, hdropped hne]

/-- `closeCallback_`. -/
theorem steps_closeCallback (h : s.Placed) {cc : Nat} {fs : List Frame}
    (hs : (s.loop l).stack = .conn .closing cc :: fs)
    (hn : (s.setStack l (.conn .closed cc :: fs)).removeConnection l cc = .ok s')
    (hover : ¬s.Distinct → P .overwritten) (hc : c < s.created) :
    Steps P (s.account c) (s'.account c) := by
  obtain ⟨_, _, hn⟩ := bind_eq_ok hn
  obtain ⟨hcc, hl⟩ : s.Sits l (.conn .closing cc) := (h.top hs).1
  have hplaced : Placed (s.setStack l (.conn .closed cc :: fs)) := h.replace hs ⟨hcc, hl⟩
  have hacc : (s.account cc).stack = .closing :: fs.filterMap (Frame.of cc) := by
    rw [account, ← hl, hs]
    exact List.filterMap_cons_some Frame.of_conn_self
  have hself : (s.setStack l (.conn .closed cc :: fs)).account cc =
      { s.account cc with stack := .closed :: fs.filterMap (Frame.of cc) } := by
    rw [account_setStack_self hl, List.filterMap_cons_some Frame.of_conn_self]
  have hother (hne : c ≠ cc) :
      (s.setStack l (.conn .closed cc :: fs)).account c = s.account c := by
    refine account_setStack ?_
    rw [hs, List.filterMap_cons_none (Frame.of_conn_ne hne),
      List.filterMap_cons_none (Frame.of_conn_ne hne)]
  have hmove := Move.removing (P := P) hacc
  rcases runInLoop_ok hn with ⟨_, hn⟩ | ⟨_, rfl⟩
  · -- the connection is the acceptor's: `removeConnectionInLoop` runs at once
    obtain ⟨hmove', hothers⟩ := removeConnectionInLoop_move (P := P) hplaced hcc hn hover
    by_cases hne : c = cc
    · subst hne
      rw [hself] at hmove'
      exact (Relation.ReflTransGen.single hmove).tail hmove'
    · rw [← hother hne]
      exact hothers c hc hne
  · by_cases hne : c = cc
    · subst hne
      rw [account_queueInLoop_remove, hself]
      exact .single hmove
    · rw [account_queueInLoop_ne hne, hother hne]

/-- Loop `l` goes on in a function of `cf`, and calls nothing. -/
theorem stack_top (h : s.Placed) {p : Point} {cf : Nat} {fs : List Frame}
    (hs : (s.loop l).stack = .conn p cf :: fs) :
    l = (s.conn cf).loop ∧ (s.account cf).stack = p :: fs.filterMap (Frame.of cf) ∧
      ∀ c', c' ≠ cf → fs.filterMap (Frame.of c') = (s.loop l).stack.filterMap (Frame.of c') := by
  obtain ⟨_, hl⟩ : s.Sits l (.conn p cf) := (h.top hs).1
  refine ⟨hl, ?_, fun c' hne => ?_⟩
  · rw [account, ← hl, hs]
    exact List.filterMap_cons_some Frame.of_conn_self
  · rw [hs, List.filterMap_cons_none (Frame.of_conn_ne hne)]

/-- **A loop goes on** in a function it is in. -/
theorem steps_step (h : s.Placed) (hn : s.step l = .ok s')
    (hover : ¬s.Distinct → P .overwritten) (horph : .destructor ∈ (s.loop 0).stack → P .orphaned)
    (hcut : ∀ c, s.destroys (.step l) = some c → (s.conn c).life.state = .kDisconnecting →
      P .cutShort) (hc : c < s.created) : Steps P (s.account c) (s'.account c) := by
  unfold step at hn
  split at hn
  · cases hn
    exact .refl
  · rename_i cf fs hs
    cases hn
    obtain ⟨hl, hacc, hother⟩ := stack_top h hs
    by_cases hne : c = cf
    · subst hne
      rw [account_setStack_self hl]
      exact .single (.returned hacc (Or.inl rfl))
    · rw [account_setStack (hother c hne)]
  · rename_i cf fs hs
    cases hn
    obtain ⟨hl, hacc, hother⟩ := stack_top h hs
    by_cases hne : c = cf
    · subst hne
      rw [account_setStack_self hl]
      exact .single (.returned hacc (Or.inr rfl))
    · rw [account_setStack (hother c hne)]
  · rename_i hs
    exact steps_closeCallback h hs hn hover hc
  · rename_i cf fs hs
    cases hn
    obtain ⟨hl, hacc, hother⟩ := stack_top h hs
    by_cases hne : c = cf
    · subst hne
      rw [account_record_self, account_setStack_self hl]
      exact .single (.closed hacc)
    · rw [account_record_ne hne, account_setStack (hother c hne)]
  · rename_i cf fs hs
    cases hn
    obtain ⟨hl, hacc, hother⟩ := stack_top h hs
    by_cases hne : c = cf
    · subst hne
      have hloop : l = ((s.setLife c (s.conn c).life.goDown).conn c).loop := by
        rw [setLife, conn_setConn_self, hl]
      rw [account_setStack_self hloop, account_setLife_self,
        List.filterMap_cons_some Frame.of_conn_self]
      exact .single (.down hacc (isUser_of_isOpen (h.top hs).2))
    · have hstack : (Frame.conn .down cf :: fs).filterMap (Frame.of c) =
          ((s.setLife cf (s.conn cf).life.goDown).loop l).stack.filterMap (Frame.of c) := by
        rw [List.filterMap_cons_none (Frame.of_conn_ne hne)]
        exact hother c hne
      rw [account_setStack hstack, account_setLife_ne hne]
  · rename_i cf fs hs
    cases hn
    obtain ⟨hl, hacc, hother⟩ := stack_top h hs
    by_cases hne : c = cf
    · subst hne
      rw [account_remove, account_setStack_self hl]
      exact .single (.finished hacc)
    · rw [only_remove c hne, account_setStack (hother c hne)]
  · rename_i fs hs
    obtain rfl : l = 0 := (h.top hs).1
    split at hn
    · rename_i name cd rest hm
      refine steps_drop h hs hm hn (horph (by simp [hs])) fun hl hstate => ?_
      refine hcut cd ?_ hstate
      simp only [destroys, hs, hm]
      exact if_pos hl
    · cases hn
      rw [account_setStack (by rw [hs]; rfl)]
  · rename_i i fs hs
    split at hn
    · cases hn
      have hquit : (s.quit i).account c = s.account c := account_setLoop rfl rfl rfl
      have hstack : ((s.quit i).loop l).stack = (s.loop l).stack := by
        by_cases hl : l = i
        · rw [hl, quit, loop_setLoop_self]
        · rw [quit, loop_setLoop_ne hl]
      rw [account_setStack (by rw [hstack, hs]; rfl), hquit]
    · cases hn
      have hstack : (s.setStack l fs).account c = s.account c :=
        account_setStack (by rw [hs]; rfl)
      rw [← hstack]
      exact .refl
  · rename_i hs
    cases hn
    rw [account_setStack (by rw [hs]; rfl)]

/-! ## A connection is created -/

theorem account_create_self (h : s.Placed) :
    s.create.account s.created = { Account.fresh with functors := [] } := by
  have hqueue (l : Nat) : (s.loop l).functors.queued.filterMap (Functor.of s.created) = [] := by
    refine List.filterMap_eq_nil_iff.mpr fun f hf => Functor.of_ne ?_
    exact Nat.ne_of_gt ((h.loops l).functors f hf).1
  have hremove : (s.loop 0).functors.queued.count ⟨.removeConnectionInLoop, s.created⟩ = 0 :=
    List.count_eq_zero.mpr fun hf => Nat.lt_irrefl _ ((h.loops 0).functors _ hf).1
  have hstack (l : Nat) : (s.loop l).stack.filterMap (Frame.of s.created) = [] := by
    refine List.filterMap_eq_nil_iff.mpr fun f hf => ?_
    cases f with
    | conn p c => exact Frame.of_conn_ne (Nat.ne_of_gt ((h.loops l).stack _ hf).1)
    | _ => rfl
  have hentries : (s.create.connections.map Prod.snd).count s.created = 1 := by
    have hold : ((s.connections.filter (·.1 ≠ s.connName)).map Prod.snd).count s.created = 0 := by
      rw [List.count_eq_zero]
      intro hmem
      obtain ⟨e, he, heq⟩ := List.mem_map.mp hmem
      exact Nat.ne_of_lt (h.entries e (List.mem_of_mem_filter he)).2 heq
    have hperm := (List.perm_orderedInsert (fun a b : Bytes × Nat => a.1 < b.1)
      (s.connName, s.created) (s.connections.filter (·.1 ≠ s.connName))).map Prod.snd
    refine (hperm.count_eq s.created).trans ?_
    rw [List.map_cons, List.count_cons_self, hold]
  unfold account
  rw [hentries, conn_create_self]
  change Account.mk _ _ ((s.loop _).functors.queued.filterMap _)
    ((s.loop 0).functors.queued.count _) ((s.loop _).stack.filterMap _) _ = _
  rw [hqueue, hremove, hstack]
  rfl

theorem steps_create (h : s.Placed) (hc : c < s.created)
    (hkind : (s.conn c).name = s.connName → P .overwritten) :
    Steps P (s.account c) (s.create.account c) := by
  have hne : c ≠ s.created := Nat.ne_of_lt hc
  have hperm := (List.perm_orderedInsert (fun a b : Bytes × Nat => a.1 < b.1)
    (s.connName, s.created) (s.connections.filter (·.1 ≠ s.connName))).map Prod.snd
  have hcount : (s.create.connections.map Prod.snd).count c =
      ((s.connections.filter (·.1 ≠ s.connName)).map Prod.snd).count c := by
    refine (hperm.count_eq c).trans ?_
    rw [List.map_cons, List.count_cons_of_ne (Ne.symm hne)]
  have hacc : s.create.account c = { s.account c with
      entries := ((s.connections.filter (·.1 ≠ s.connName)).map Prod.snd).count c } := by
    unfold account
    rw [hcount, conn_create_ne hc]
    rfl
  rw [hacc]
  by_cases hname : (s.conn c).name = s.connName
  · exact .single (.lost (hkind hname) count_filter_le)
  · rw [count_filter_name h fun _ => hname]
    exact .refl

theorem steps_newConnection (h : s.Placed) (hn : s.newConnection = .ok s')
    (hkind : (s.conn c).name = s.connName → c < s.created → P .overwritten)
    (hc : c < s.created + 1) : Steps P (s.origin c) (s'.account c) := by
  by_cases hold : c < s.created
  · have hne : c ≠ s.created := Nat.ne_of_lt hold
    have hcreate := steps_create h hold fun hname => hkind hname hold
    rw [origin, if_pos hold]
    rcases runInLoop_ok hn with ⟨_, hn⟩ | ⟨_, rfl⟩
    · have hstack : (s.create.account s.created).stack = [] := by rw [account_create_self h]; rfl
      obtain ⟨honly, _⟩ := connectEstablished_move (P := P) hn hstack
      rw [honly c hne]
      exact hcreate
    · rw [account_queueInLoop_ne hne]
      exact hcreate
  · obtain rfl : c = s.created := Nat.eq_of_lt_succ_of_not_lt hc hold
    rw [origin, if_neg hold]
    rcases runInLoop_ok hn with ⟨_, hn⟩ | ⟨_, rfl⟩
    · have hstack : (s.create.account s.created).stack = [] := by rw [account_create_self h]; rfl
      obtain ⟨_, hmove⟩ := connectEstablished_move (P := P) hn hstack
      rw [account_create_self h] at hmove
      exact .single hmove
    · rw [account_queueInLoop_self (by simp) (by rw [conn_create_self]), account_create_self h]
      exact .refl

/-! ## Names -/

/-- A new connection takes the name of no other. -/
def Named (s : TcpServer Tid) : Event Tid → Prop
  | .newConnection => ∀ c < s.created, (s.conn c).name ≠ s.connName
  | _ => True

theorem distinct_create (h : s.Distinct) (hname : ∀ c < s.created, (s.conn c).name ≠ s.connName) :
    s.create.Distinct := by
  intro c c' hc hc' heq
  rcases Nat.lt_or_eq_of_le (Nat.le_of_lt_succ hc) with hc | rfl
  · rw [conn_create_ne hc] at heq
    rcases Nat.lt_or_eq_of_le (Nat.le_of_lt_succ hc') with hc' | rfl
    · rw [conn_create_ne hc'] at heq
      exact h c c' hc hc' heq
    · rw [conn_create_self] at heq
      exact absurd heq (hname c hc)
  · rw [conn_create_self] at heq
    rcases Nat.lt_or_eq_of_le (Nat.le_of_lt_succ hc') with hc' | rfl
    · rw [conn_create_ne hc'] at heq
      exact absurd heq.symm (hname c' hc')
    · rfl

theorem Distinct.static (h : s.Distinct) (hstatic : Static s s') : s'.Distinct := by
  intro c c' hc hc' heq
  rw [hstatic.created] at hc hc'
  rw [(hstatic.conn c).2, (hstatic.conn c').2] at heq
  exact h c c' hc hc' heq

/-- With distinct names no entry of `connections_` is lost. -/
theorem not_overwritten {a : Event Tid} (h : s.Distinct) (hC : s.Named a) :
    ¬s.irregular a .overwritten := by
  rintro (hd | ⟨rfl, c, hc, hname⟩)
  · exact hd h
  · exact hC c hc hname

/-! ## Events -/

/-- A connection is created, or the account starts where it is. -/
theorem steps_of_created (hcreated : s'.created = s.created) (hc : c < s'.created)
    (h : c < s.created → Steps P (s.account c) (s'.account c)) :
    Steps P (s.origin c) (s'.account c) := by
  rw [hcreated] at hc
  rw [origin, if_pos hc]
  exact h hc

theorem account_setLife {cf : Nat} {life : Lifecycle}
    (h : Move P (s.account cf) { s.account cf with life := life }) :
    Steps P (s.account c) ((s.setLife cf life).account c) := by
  by_cases hne : c = cf
  · subst hne
    rw [account_setLife_self]
    exact .single h
  · rw [account_setLife_ne hne]

variable [DecidableEq Tid] {a : Event Tid}

/-- **One event**, as moves of any one connection, of the kinds of the event. -/
theorem steps_of_next (h : s.Placed) (he : s.enabled a = true) (hn : s.next a = .ok s')
    (hc : c < s'.created) : Steps (s.irregular a) (s.origin c) (s'.account c) := by
  cases a with
  | newConnection =>
      have hcreated : s'.created = s.created + 1 := (effect_runInLoop hn).created
      rw [hcreated] at hc
      exact steps_newConnection h hn (fun hname hold => Or.inr ⟨rfl, c, hold, hname⟩) hc
  | read cf =>
      cases hn
      refine steps_of_created rfl hc fun _ => ?_
      obtain ⟨_, hs, hpolled⟩ := ready_idle he
      by_cases hne : c = cf
      · subst hne
        have hstack := stack_account_nil hs
        rw [account_enter_self loop_record.symm, account_record_self]
        dsimp only
        rw [hstack]
        exact .single (.read hstack hpolled)
      · rw [only_enter c hne, account_record_ne hne]
  | close cf =>
      obtain ⟨_, hs, hpolled⟩ := ready_idle he
      obtain ⟨life, hlife, rfl⟩ := handleClose_ok hn
      refine steps_of_created rfl hc fun _ => ?_
      by_cases hne : c = cf
      · subst hne
        have hstack := stack_account_nil hs
        have hloop : (s.conn c).loop =
            (((s.setLife c life).record c (s.conn c).loop .handleClose).conn c).loop := by
          rw [loop_record, setLife, conn_setConn_self]
        rw [account_enter_self hloop, account_record_self, account_setLife_self]
        dsimp only
        rw [hstack]
        exact .single (.close ⟨c, rfl⟩ hstack hpolled hlife)
      · rw [only_enter c hne, account_record_ne hne, account_setLife_ne hne]
  | step l =>
      refine steps_of_created (static_step hn).created hc fun hold => ?_
      exact steps_step h hn Or.inl id (fun cd hd hstate => ⟨cd, hd, hstate⟩) hold
  | swap l =>
      simp only [enabled, Bool.and_eq_true] at he
      cases hn
      refine steps_of_created rfl hc fun _ => ?_
      rw [account_setFunctors (Batch.queued_swap he.2)]
  | functor l =>
      simp only [enabled, Bool.and_eq_true] at he
      simp only [next] at hn
      split at hn
      · cases hn
        exact steps_of_created rfl hc fun _ => .refl
      · rename_i f fs hf
        have hcreated := (effect_call (s := s.setFunctors l (s.loop l).functors.advance) hn).created
        refine steps_of_created hcreated hc fun hold => ?_
        refine steps_functor h he.1 hf hn Or.inl (fun hm hstate => ⟨f.conn, ?_, hstate⟩) hold
        obtain ⟨m, cf⟩ := f
        subst hm
        simp only [destroys, hf]
  | finish l =>
      simp only [enabled, Bool.and_eq_true, List.isEmpty_iff] at he
      cases hn
      refine steps_of_created rfl hc fun _ => ?_
      have hq := Batch.queued_finish he.2
      have hacc := account_setLoop (c := c) (l := l) (s := s) (b := { s.loop l with
        functors := (s.loop l).functors.finish, exited := (s.loop l).quit }) (by rw [hq])
        (by rw [hq]) rfl
      exact hacc.symm ▸ .refl
  | destroy =>
      cases hn
      refine steps_of_created rfl hc fun _ => ?_
      rw [account_enter rfl]
  | shutdown cf =>
      simp only [enabled, Bool.and_eq_true] at he
      cases hn
      exact steps_of_created rfl hc fun _ => account_setLife (.shutdown (given_iff.mp he.1).2)
  | shutdownTest t cf =>
      cases hn
      revert hc
      split
      · exact fun hc => steps_of_created rfl hc fun _ => .refl
      · exact fun hc => steps_of_created rfl hc fun _ => .refl
  | shutdownSet t cf =>
      simp only [enabled, decide_eq_true_eq] at he
      cases hn
      refine steps_of_created rfl hc fun _ => ?_
      have hgiven := (given_iff.mp (h.shutting _ he)).2
      exact account_setLife (.disconnecting ⟨t, cf, rfl⟩ hgiven fun hdown => ⟨t, cf, rfl, hdown⟩)

/-- **What the moves keep holds of every connection.** `K` are the kinds of
events the runs may have. -/
theorem account_invariant {C : TcpServer Tid → Event Tid → Prop} {K : Irregular → Prop}
    {I : Account → Prop} (hfresh : I .fresh) (hmove : ∀ a b, I a → Move K a b → I b)
    (hkind : ∀ s a, (system.guarded C).Reachable s → C s a → ∀ k, s.irregular a k → K k)
    (hs : (system.guarded C).Reachable s) (hc : c < s.created) : I (s.account c) := by
  have hinv : ∀ c < s.created, I (s.account c) := by
    refine hs.invariant (I := fun s => ∀ c < s.created, I (s.account c)) ?_ ?_
    · rintro s ⟨name, hostport, numThreads, rfl⟩ c hc
      cases hc
    · intro s a s' hs ih he hn c hc
      have hsteps := steps_of_next (placed_reachable hs.of_guarded) he.1 hn hc
      have horigin : I (s.origin c) := by
        unfold origin
        split
        · rename_i hold
          exact ih c hold
        · exact hfresh
      refine hsteps.invariant (fun a' b hI hm => hmove a' b hI ?_) horigin
      exact hm.mono (hkind s a hs he.2)
  exact hinv c hc

theorem Distinct.next (h : s.Distinct) (hC : s.Named a) (hn : s.next a = .ok s') :
    s'.Distinct := by
  by_cases ha : a = .newConnection
  · subst ha
    exact (distinct_create h hC).static (effect_runInLoop hn).toStatic
  · exact h.static (static_next ha hn)

theorem distinct_reachable {C : TcpServer Tid → Event Tid → Prop} (hC : ∀ s a, C s a → s.Named a)
    (hs : (system.guarded C).Reachable s) : s.Distinct := by
  have hinv : ((system : Lts (TcpServer Tid) _ _).guarded C).Invariant Distinct := {
    init := by
      rintro s ⟨name, hostport, numThreads, rfl⟩ c c' hc
      cases hc
    step := fun s a s' h he hn => h.next (hC s a he.2) hn }
  exact hinv.reachable hs

end TcpServer

end Muduo
