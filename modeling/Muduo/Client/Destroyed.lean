import Muduo.Client.Destruction

/-!
# What calls a destroyed client

The destructor sees `connection_` once. Between that and the moment what it
does takes effect, the functor run or `connect_` assigned, the connection may
close or a new one come up, and either calls the client. If neither happens,
and the loop thread was in neither callback at the lock, the connection the
destructor saw is the last, or there is none to come (`Inv`); every other run
can end in a callback that runs in a destroyed client.
-/

namespace Muduo

open Lib

namespace Destruction

open TcpClient (lift_ok liftConn_ok)

variable {Tid : Type}

/-- `closeCallback_` is about to call the client. -/
def isClosing (s : Destruction Tid) : Bool :=
  match s.frame with
  | .closing c => (s.conn c).closeCallback = .removeConnection
  | _ => false

/-- `handleWrite` is about to call the client. -/
def isConnecting (s : Destruction Tid) : Bool :=
  match s.connector.pc with
  | .connected _ => s.connector.connect_
  | _ => false

/-- At its lock the destructor finds the loop thread in neither callback nor
on the way to one from `handleClose`; from then on no connection that would
call the client closes; and until `Connector::stop()` has assigned `connect_`
no attempt that has succeeded finds it true. -/
def Spared (s : Destruction Tid) : Event Tid → Prop
  | .copyConnection => s.frame.isInside = false ∧ s.isClosing = false
  | .close c => s.stage = .before ∨ (s.conn c).closeCallback = .detail
  | .connector .step => s.stage = .copied → s.isConnecting = false
  | _ => True

instance (s : Destruction Tid) (a : Event Tid) : Decidable (s.Spared a) := by
  unfold Spared
  split <;> infer_instance

instance [DecidableEq Tid] (d : Tid) (s : Destruction Tid) (a : Event Tid) :
    Decidable (((destruction d).guarded Spared).enabled s a) :=
  inferInstanceAs (Decidable (s.enabled a = true ∧ s.Spared a))

structure Inv (s : Destruction Tid) : Prop where
  polled : ∀ c, (s.conn c).life.interest = true → s.connection = some c
  up : s.connection ≠ none →
    s.connector.state = .kConnected ∧ s.connector.pc.isOpening = false
  connected : ∀ fd, s.connector.pc = .connected fd → s.connector.state = .kConnected
  entered : s.frame = .newConnection →
    s.connection = none ∧ s.connector.state = .kConnected ∧ s.connector.pc.isOpening = false
  closed : ∀ c, s.frame = .closing c ∨ s.frame = .removeConnection c →
    s.connection = some c ∧ (s.conn c).life.interest = false
  removing : s.frame.isRemoving = true → s.connection = none
  /-- From the destructor's lock on the loop thread stays out of the client. -/
  outside : s.stage ≠ .before → s.frame.isInside = false ∧ s.isClosing = false
  copy : s.stage ≠ .before → s.copy = s.connection
  off : s.stage ≠ .before → s.stage ≠ .copied → s.connection = none →
    s.connector.connect_ = false

theorem inv_new : Inv (new : Destruction Tid) where
  polled _ h := by cases h
  up h := absurd rfl h
  connected _ h := by cases h
  entered h := by cases h
  closed _ h := by rcases h with h | h <;> cases h
  removing h := by cases h
  outside h := absurd rfl h
  copy h := absurd rfl h
  off h := absurd rfl h

variable {s s' : Destruction Tid} {c : Nat}

theorem Inv.stage_of_inside (h : Inv s) (hin : s.frame.isInside = true) : s.stage = .before := by
  by_contra hstage
  rw [(h.outside hstage).1] at hin
  cases hin

theorem isClosing_iff : s.isClosing = true ↔
    ∃ c, s.frame = .closing c ∧ (s.conn c).closeCallback = .removeConnection := by
  unfold isClosing
  split
  · rename_i c hf
    rw [decide_eq_true_eq]
    constructor
    · exact fun hcb => ⟨c, hf, hcb⟩
    · rintro ⟨c', hf', hcb⟩
      obtain rfl := Frame.closing.inj (hf.symm.trans hf')
      exact hcb
  · rename_i hne
    constructor
    · intro hfalse
      cases hfalse
    · rintro ⟨c, hf, -⟩
      exact absurd hf (hne c)

/-! ## Connections -/

@[simp] theorem conn_setConn (k : Conn) : (s.setConn c k).conn = Function.update s.conn c k := rfl

theorem life_setLife (life : Lifecycle) : ((s.setLife c life).conn c).life = life := by
  rw [setLife, conn_setConn, Function.update_self]

theorem closeCallback_setLife (life : Lifecycle) (c' : Nat) :
    ((s.setLife c life).conn c').closeCallback = (s.conn c').closeCallback := by
  unfold setLife
  by_cases heq : c' = c
  · rw [heq, conn_setConn, Function.update_self]
  · rw [conn_setConn, Function.update_of_ne heq]

/-- A connection changes, and does not come up. -/
theorem Inv.setConn (h : Inv s) {k : Conn}
    (hinterest : k.life.interest = true → (s.conn c).life.interest = true)
    (hcallback : k.closeCallback = .removeConnection →
      (s.conn c).closeCallback = .removeConnection) : Inv (s.setConn c k) :=
  { h with
    polled := by
      rw [conn_setConn]
      exact (Function.forall_update_iff s.conn (p := fun c k =>
        k.life.interest = true → s.connection = some c)).mpr
        ⟨fun hi => h.polled c (hinterest hi), fun c' _ => h.polled c'⟩
    closed := by
      intro c' hf
      obtain ⟨hconn, hi⟩ := h.closed c' hf
      refine ⟨hconn, ?_⟩
      by_cases heq : c' = c
      · subst heq
        rw [conn_setConn, Function.update_self]
        exact Bool.eq_false_iff.mpr fun hk => Bool.eq_false_iff.mp hi (hinterest hk)
      · rwa [conn_setConn, Function.update_of_ne heq]
    outside := by
      intro hstage
      obtain ⟨hin, hclosing⟩ := h.outside hstage
      refine ⟨hin, Bool.eq_false_iff.mpr fun hclosing' => ?_⟩
      obtain ⟨c', hf, hk⟩ := isClosing_iff.mp hclosing'
      refine Bool.eq_false_iff.mp hclosing (isClosing_iff.mpr ⟨c', hf, ?_⟩)
      by_cases heq : c' = c
      · subst heq
        rw [conn_setConn, Function.update_self] at hk
        exact hcallback hk
      · rwa [conn_setConn, Function.update_of_ne heq] at hk }

theorem Inv.setLife (h : Inv s) {life : Lifecycle}
    (hinterest : life.interest = true → (s.conn c).life.interest = true) :
    Inv (s.setLife c life) := h.setConn hinterest id

theorem Inv.remove (h : Inv s) (c : Nat) : Inv (s.remove c) := h.setLife id

/-- A point where the loop thread is in no callback of the client, nor before
one. -/
def Frame.isPlain : Frame → Bool
  | idle => true
  | message _ => true
  | destroying _ => true
  | down _ => true
  | _ => false

theorem Frame.isInside_of_isPlain {f : Frame} (hf : f.isPlain = true) : f.isInside = false := by
  cases f <;> first | rfl | cases hf

theorem Frame.isRemoving_of_isPlain {f : Frame} (hf : f.isPlain = true) :
    f.isRemoving = false := by
  cases f <;> first | rfl | cases hf

theorem Inv.goTo (h : Inv s) {f : Frame} (hf : f.isPlain = true) : Inv (s.goTo f) := by
  have hne (g : Frame) (hg : g.isPlain = false) : f ≠ g := by
    rintro rfl
    rw [hf] at hg
    cases hg
  exact { h with
    entered := fun heq => absurd heq (hne _ rfl)
    closed := fun c heq => (heq.elim (hne _ rfl) (hne _ rfl)).elim
    removing := fun hrem => by
      rw [show (s.goTo f).frame.isRemoving = false from Frame.isRemoving_of_isPlain hf] at hrem
      cases hrem
    outside := fun _ => by
      refine ⟨Frame.isInside_of_isPlain hf, Bool.eq_false_iff.mpr fun hclosing => ?_⟩
      obtain ⟨c, heq, -⟩ := isClosing_iff.mp hclosing
      exact hne _ rfl heq }

theorem Inv.connectDestroyed (h : Inv s) (c : Nat) : Inv (s.connectDestroyed c) := by
  unfold Destruction.connectDestroyed
  split
  · exact h.goTo rfl
  · exact h.remove c

theorem Inv.runFunctor (h : Inv s) (f : Functor) : Inv (s.runFunctor f) := by
  cases f with
  | connectDestroyed c => exact h.connectDestroyed c
  | setCloseCallback c => exact h.setConn id nofun

theorem Inv.disconnect (h : Inv s) : Inv s.disconnect := by
  have hclear : Inv { s with connect_ := false } := { h with }
  unfold Destruction.disconnect
  split
  · exact hclear.setLife fun hi => by rwa [Lifecycle.interest_shutdown] at hi
  · exact hclear

/-- `newConnection` from its lock on: nothing is polled before. -/
theorem Inv.newConnection (h : Inv s) (hf : s.frame = .newConnection)
    (hn : s.newConnection = .ok s') : Inv s' := by
  obtain ⟨hnone, hup⟩ := h.entered hf
  have hstage : s.stage = .before := h.stage_of_inside (by rw [hf]; rfl)
  obtain ⟨life, hlife, hn⟩ := bind_eq_ok hn
  cases hn
  exact {
    polled := (Function.forall_update_iff s.conn (p := fun c k =>
      k.life.interest = true → some s.created = some c)).mpr
      ⟨fun _ => rfl, fun c' _ hi => by
        have hconn := h.polled c' hi
        rw [hnone] at hconn
        cases hconn⟩
    up := fun _ => hup
    connected := h.connected
    entered := nofun
    closed := fun _ hc => by rcases hc with hc | hc <;> cases hc
    removing := nofun
    outside := fun hne => absurd hstage hne
    copy := fun hne => absurd hstage hne
    off := fun hne => absurd hstage hne }

/-- `removeConnection` from its lock on. -/
theorem Inv.removeConnection (h : Inv s) (hf : s.frame = .removeConnection c)
    (hn : s.removeConnection c = .ok s') : Inv s' := by
  have hstage : s.stage = .before := h.stage_of_inside (by rw [hf]; rfl)
  obtain ⟨hconn, hi⟩ := h.closed c (.inr hf)
  obtain ⟨-, -, hn⟩ := bind_eq_ok hn
  cases hn
  exact {
    polled := fun c' hi' => by
      obtain rfl := Option.some.inj (hconn.symm.trans (h.polled c' hi'))
      exact absurd hi' (Bool.eq_false_iff.mp hi)
    up := fun hne => absurd rfl hne
    connected := h.connected
    entered := nofun
    closed := fun _ hc => by rcases hc with hc | hc <;> cases hc
    removing := fun _ => rfl
    outside := fun hne => absurd hstage hne
    copy := fun hne => absurd hstage hne
    off := fun hne => absurd hstage hne }

theorem Inv.closeCallback (h : Inv s) (hf : s.frame = .closing c) : Inv (s.closeCallback c) := by
  unfold Destruction.closeCallback
  split
  · rename_i hcb
    have hstage : s.stage = .before := by
      by_contra hstage
      exact Bool.eq_false_iff.mp (h.outside hstage).2 (isClosing_iff.mpr ⟨c, hf, hcb⟩)
    exact { h with
      entered := nofun
      closed := fun c' hc' => by
        rcases hc' with hc' | hc'
        · cases hc'
        · obtain rfl := Frame.removeConnection.inj hc'
          exact h.closed c (.inl hf)
      removing := nofun
      outside := fun hne => absurd hstage hne }
  · have hqueued : Inv (s.queueInLoop (.connectDestroyed c)) := { h with }
    exact hqueued.goTo rfl

/-- The loop thread goes on in `removeConnection`, past its lock. -/
theorem Inv.goToRemoving (h : Inv s) (hin : s.frame.isRemoving = true) {f : Frame}
    (hf : f.isRemoving = true) : Inv (s.goTo f) := by
  have hstage : s.stage = .before := h.stage_of_inside (by
    cases hfr : s.frame <;> rw [hfr] at hin <;> first | rfl | cases hin)
  have hnone := h.removing hin
  exact { h with
    entered := fun heq => by
      obtain rfl : f = .newConnection := heq
      cases hf
    closed := fun c hc => by
      rcases hc with hc | hc <;> obtain rfl : f = _ := hc <;> cases hf
    removing := fun _ => hnone
    outside := fun hne => absurd hstage hne }

/-! ## The connector -/

variable {e : Connector.Event Tid Functor} {k : Connector Tid Functor}

theorem Inv.of_connector (h : Inv s)
    (hup : s.connector.state = .kConnected → s.connector.pc.isOpening = false →
      k.state = .kConnected ∧ k.pc.isOpening = false)
    (hconnected : ∀ fd, k.pc = .connected fd → k.state = .kConnected)
    (hflag : s.stage ≠ .before → k.connect_ = s.connector.connect_) :
    Inv { s with connector := k } :=
  { h with
    up := fun hne => hup (h.up hne).1 (h.up hne).2
    connected := hconnected
    entered := fun hf => ⟨(h.entered hf).1, hup (h.entered hf).2.1 (h.entered hf).2.2⟩
    off := fun hstage hcopied hnone => (hflag hstage).trans (h.off hstage hcopied hnone) }

theorem Inv.of_keeps (h : Inv s) (hk : Connector.Keeps s.connector k)
    (hflag : s.stage ≠ .before → k.connect_ = s.connector.connect_) :
    Inv { s with connector := k } :=
  h.of_connector hk.up (hk.connected h.connected) hflag

/-- Calls are made and end before the destructor begins. -/
theorem stage_of_offers (ho : s.offers e = true)
    (hcall : e.isOwn = false ∨ ∃ t, e = .queueStop t) : s.stage = .before := by
  rcases hcall with hown | ⟨t, rfl⟩
  · cases e with
    | start t =>
        cases t with
        | loop => exact of_decide_eq_true (Bool.and_eq_true_iff.mp ho).1
        | other t => exact of_decide_eq_true ho
    | stop t =>
        cases t with
        | loop => exact of_decide_eq_true (Bool.and_eq_true_iff.mp ho).1
        | other t => exact of_decide_eq_true ho
    | restart => cases ho
    | _ => cases hown
  · exact of_decide_eq_true ho

/-- What a step of the connector has the client do. -/
inductive After (s : Destruction Tid) (e : Connector.Event Tid Functor)
    (k : Connector Tid Functor) : Destruction Tid → Prop
  | entered {fd : Nat} (event : e = .step) (pc : s.connector.pc = .connected fd)
      (flag : s.connector.connect_ = true) :
      After s e k ({ s with connector := k }.goTo .newConnection)
  | functor {f : Functor} {fs : List (Connector.Functor Functor)} (event : e = .functor)
      (todo : s.connector.functors.todo = .other f :: fs) :
      After s e k ({ s with connector := k }.runFunctor f)
  | nothing (todo : e = .functor → ∀ f fs, s.connector.functors.todo ≠ .other f :: fs) :
      After s e k { s with connector := k }

theorem after_cases (s : Destruction Tid) (e : Connector.Event Tid Functor)
    (k : Connector Tid Functor) : After s e k (s.after e k) := by
  unfold after
  split
  · rename_i hpc
    split
    · rename_i hflag
      exact .entered rfl hpc hflag
    · exact .nothing nofun
  · rename_i htodo
    exact .functor rfl htodo
  · rename_i hother
    exact .nothing fun he f fs htodo => hother f fs he htodo

theorem isConnecting_of {fd : Nat} (hpc : s.connector.pc = .connected fd)
    (hflag : s.connector.connect_ = true) : s.isConnecting = true := by
  unfold isConnecting
  rw [hpc]
  exact hflag

variable [DecidableEq Tid]

theorem Inv.of_next (h : Inv s) (ho : s.offers e = true) (he : s.connector.enabled e = true)
    (hother : e = .functor → ∀ f fs, s.connector.functors.todo ≠ .other f :: fs)
    (hk : s.connector.next e = .ok k) : Inv { s with connector := k } := by
  by_cases hown : e.isOwn = true
  · have hqueue : ∀ g, e ≠ .queueInLoop g := by
      rintro g rfl
      cases ho
    refine h.of_keeps (Connector.keeps_own hown hqueue hother he hk) fun hstage => ?_
    have hstop : ∀ t, e ≠ .queueStop t :=
      fun t heq => hstage (stage_of_offers ho (.inr ⟨t, heq⟩))
    exact (Connector.flag_next hown hstop he hk).1
  · have hown : e.isOwn = false := Bool.eq_false_iff.mpr hown
    have hrestart : e ≠ .restart := by
      rintro rfl
      cases ho
    exact h.of_keeps (Connector.keeps_call hown hrestart hk)
      fun hstage => absurd (stage_of_offers ho (.inl hown)) hstage

omit [DecidableEq Tid] in
/-- `handleWrite` calls `newConnection` only before the destructor. -/
theorem Inv.stage_of_connected (h : Inv s) {fd : Nat} (hpc : s.connector.pc = .connected fd)
    (hflag : s.connector.connect_ = true) (hc : s.stage = .copied → s.isConnecting = false) :
    s.connection = none ∧ s.stage = .before := by
  have hnone : s.connection = none := by
    by_contra hne
    have hopening := (h.up hne).2
    rw [hpc] at hopening
    cases hopening
  refine ⟨hnone, ?_⟩
  by_contra hstage
  by_cases hcopied : s.stage = .copied
  · have hconnecting := hc hcopied
    rw [isConnecting_of hpc hflag] at hconnecting
    cases hconnecting
  · have hoff := h.off hstage hcopied hnone
    rw [hflag] at hoff
    cases hoff

/-- **A step of the connector**, and what it has the client do. -/
theorem Inv.after (h : Inv s) (ho : s.offers e = true) (he : s.connector.enabled e = true)
    (hc : s.Spared (.connector e)) (hk : s.connector.next e = .ok k) : Inv (s.after e k) := by
  have hafter := after_cases s e k
  generalize s.after e k = s' at hafter ⊢
  cases hafter with
  | @entered fd event hpc hflag =>
      subst event
      obtain ⟨hnone, hstage⟩ := h.stage_of_connected hpc hflag hc
      have hbase : Inv { s with connector := k } := h.of_next ho he (fun hf => by cases hf) hk
      have hk' : k = s.connector.established fd := by
        change s.connector.step = .ok k at hk
        rw [Connector.step, hpc] at hk
        exact (Except.ok.inj hk).symm
      have hstate : k.state = .kConnected := by
        rw [hk', Connector.established]
        split <;> exact h.connected fd hpc
      have hidle : k.pc.isOpening = false := by
        rw [hk', Connector.established]
        split <;> rfl
      exact { hbase with
        entered := fun _ => ⟨hnone, hstate, hidle⟩
        closed := fun _ hf => by rcases hf with hf | hf <;> cases hf
        removing := fun hf => by cases hf
        outside := fun hne => absurd hstage hne }
  | @functor f fs event htodo =>
      subst event
      have hk' : k = { s.connector with functors := s.connector.functors.advance } := by
        change Connector.next s.connector .functor = .ok k at hk
        simp only [Connector.next, htodo] at hk
        exact (Except.ok.inj hk).symm
      have hbase : Inv { s with connector := k } := by
        subst hk'
        exact h.of_connector (fun hst hop => ⟨hst, hop⟩) h.connected fun _ => rfl
      exact hbase.runFunctor f
  | nothing htodo => exact h.of_next ho he htodo hk

/-! ## The loop thread in the client -/

omit [DecidableEq Tid] in
theorem Inv.step (h : Inv s) (hn : s.step = .ok s') : Inv s' := by
  unfold Destruction.step at hn
  split at hn
  · cases hn
    exact h
  · rename_i hf
    exact h.newConnection hf hn
  · cases hn
    exact h.goTo rfl
  · cases hn
    exact h.goTo rfl
  · rename_i c hf
    cases hn
    exact h.closeCallback hf
  · rename_i c hf
    exact h.removeConnection hf hn
  · rename_i c hf
    cases hn
    split
    · exact h.goToRemoving (by rw [hf]; rfl) rfl
    · exact h.goTo rfl
  · rename_i c hf
    cases hn
    have hin : s.frame.isRemoving = true := by rw [hf]; rfl
    have hnone := h.removing hin
    have hstage : s.stage = .before := h.stage_of_inside (by rw [hf]; rfl)
    have hrestart : Inv { s with connector := s.connector.restart } :=
      { h with
        up := fun hne => absurd hnone hne
        connected := fun fd hfd => by cases hfd
        entered := fun hf' => by
          rw [show s.frame = .newConnection from hf'] at hf
          cases hf
        off := fun hne => absurd hstage hne }
    exact hrestart.goToRemoving hin rfl
  · cases hn
    exact h.goTo rfl
  · rename_i c hf
    cases hn
    have hlife : Inv (s.setLife c (s.conn c).life.goDown) := h.setLife nofun
    exact hlife.goTo rfl
  · rename_i c hf
    cases hn
    exact (h.remove c).goTo rfl

omit [DecidableEq Tid] in
/-- `handleClose` begins. -/
theorem Inv.close (h : Inv s) (hready : s.ready c = true) (hc : s.Spared (.close c))
    {life : Lifecycle} (hlife : (s.conn c).life.handleClose = .ok life) :
    Inv ((s.setLife c life).goTo (.closing c)) := by
  obtain ⟨-, rfl⟩ := Lifecycle.handleClose_ok hlife
  simp only [ready, Lifecycle.isPolled, Bool.and_eq_true] at hready
  have hset : Inv (s.setLife c { (s.conn c).life with
      state := .kDisconnected, interest := false
      reports := (s.conn c).life.reports ++ [false] }) := h.setLife fun hi => by cases hi
  exact { hset with
    entered := fun hf => by cases hf
    closed := fun c' hf => by
      rcases hf with hf | hf
      · obtain rfl := Frame.closing.inj hf
        refine ⟨h.polled c hready.2.2, ?_⟩
        exact congrArg Lifecycle.interest (life_setLife _)
      · cases hf
    removing := fun hf => by cases hf
    outside := fun hstage => by
      refine ⟨rfl, decide_eq_false fun hcb => ?_⟩
      have hdetail : (s.conn c).closeCallback = .detail := hc.resolve_left hstage
      have hcb' := (closeCallback_setLife _ c).symm.trans hcb
      rw [hdetail] at hcb'
      cases hcb' }

/-! ## Events -/

omit [DecidableEq Tid] in
/-- The destructor goes on. -/
theorem Inv.setStage (h : Inv s) (hne : s.stage ≠ .before) (t : Stage)
    (hoff : s.connection = none → s.connector.connect_ = false) : Inv { s with stage := t } :=
  { h with
    outside := fun _ => h.outside hne
    copy := fun _ => h.copy hne
    off := fun _ _ => hoff }

variable {d : Tid} {a : Event Tid}

/-- **One step.** -/
theorem Inv.next (h : Inv s) (he : s.enabled a = true) (hc : s.Spared a)
    (hn : s.next d a = .ok s') : Inv s' := by
  cases a with
  | setConnect connect_ =>
      cases hn
      exact { h with }
  | enableRetry =>
      cases hn
      exact { h with }
  | disconnect =>
      cases hn
      exact h.disconnect
  | connector e =>
      obtain ⟨k, hk, hn⟩ := bind_eq_ok hn
      cases hn
      obtain ⟨ho, he⟩ := Bool.and_eq_true_iff.mp he
      exact h.after ho he hc (lift_ok hk)
  | step => exact h.step hn
  | message c =>
      cases hn
      exact h.goTo rfl
  | close c =>
      obtain ⟨life, hlife, hn⟩ := bind_eq_ok hn
      cases hn
      exact h.close he hc (liftConn_ok hlife)
  | copyConnection =>
      cases hn
      exact { h with
        outside := fun _ => hc
        copy := fun _ => rfl
        off := fun _ hne => absurd rfl hne }
  | queueSetCloseCallback =>
      obtain ⟨hstage, hsome⟩ := Bool.and_eq_true_iff.mp he
      have hstage : s.stage = .copied := of_decide_eq_true hstage
      have hne : s.stage ≠ .before := by rw [hstage]; nofun
      obtain ⟨c, hcopy⟩ := Option.isSome_iff_exists.mp hsome
      simp only [Destruction.next, hcopy] at hn
      cases hn
      have hqueued : Inv (s.queueInLoop (.setCloseCallback c)) := { h with }
      refine hqueued.setStage hne .leaving fun hnone => ?_
      rw [h.copy hne, show s.connection = none from hnone] at hcopy
      cases hcopy
  | stop =>
      obtain ⟨hstage, -⟩ := Bool.and_eq_true_iff.mp he
      have hstage : s.stage = .copied := of_decide_eq_true hstage
      obtain ⟨k, hk, hn⟩ := bind_eq_ok hn
      cases hn
      cases lift_ok hk
      have hstopped : Inv { s with
          connector := { s.connector with
            connect_ := false, stopping := d :: s.connector.stopping } } :=
        { h with off := fun _ _ _ => rfl }
      exact hstopped.setStage (by rw [hstage]; nofun) .stopping fun _ => rfl
  | queueStop =>
      have hstage : s.stage = .stopping := of_decide_eq_true he
      have hne : s.stage ≠ .before := by rw [hstage]; nofun
      obtain ⟨k, hk, hn⟩ := bind_eq_ok hn
      cases hn
      cases lift_ok hk
      have hqueued : Inv { s with
          connector := { s.connector with
            stopping := s.connector.stopping.erase d }.queueInLoop .stopInLoop } := { h with }
      exact hqueued.setStage hne .leaving (h.off hne (by rw [hstage]; nofun))
  | returned =>
      have hstage : s.stage = .leaving := of_decide_eq_true he
      have hne : s.stage ≠ .before := by rw [hstage]; nofun
      cases hn
      exact h.setStage hne .returned (h.off hne (by rw [hstage]; nofun))

theorem inv_invariant (d : Tid) : ((destruction d).guarded Spared).Invariant Inv where
  init s hs := by
    obtain rfl : s = new := hs
    exact inv_new
  step _ _ _ h he hn := h.next he.1 he.2 hn

/-! ## Runs that are not spared -/

/-- The destructor can return with the loop thread in a callback of the
client. -/
def CanCall (d : Tid) (s : Destruction Tid) : Prop :=
  (destruction d).CanReach (fun s => s.stage = .returned ∧ s.frame.isInside = true) s

theorem canCall_leaving (hin : s.frame.isInside = true) (hstage : s.stage = .leaving) :
    CanCall d s :=
  .after (a := .returned) (decide_eq_true hstage) rfl (.now ⟨rfl, hin⟩)

theorem canCall_stopping (hin : s.frame.isInside = true) (hstage : s.stage = .stopping) :
    CanCall d s :=
  .after (a := .queueStop) (decide_eq_true hstage) rfl (canCall_leaving hin rfl)

theorem canCall_copied (hin : s.frame.isInside = true) (hstage : s.stage = .copied) :
    CanCall d s := by
  cases hcopy : s.copy with
  | none =>
      have he : s.enabled (.stop : Event Tid) = true := by
        simp only [enabled, hstage, hcopy, decide_true, Option.isNone_none, Bool.and_self]
      exact .after he rfl (canCall_stopping hin rfl)
  | some c =>
      have he : s.enabled (.queueSetCloseCallback : Event Tid) = true := by
        simp only [enabled, hstage, hcopy, decide_true, Option.isSome_some, Bool.and_self]
      have hn : s.next d .queueSetCloseCallback =
          .ok { s.queueInLoop (.setCloseCallback c) with stage := .leaving } := by
        simp only [Destruction.next, hcopy]
      exact .after he hn (canCall_leaving hin rfl)

/-- The loop thread is in a callback while the destructor runs: the destructor
need not wait for it. -/
theorem canCall_of_inside (hin : s.frame.isInside = true) (hstage : s.stage ≠ .before) :
    CanCall d s := by
  cases hs : s.stage with
  | before => exact absurd hs hstage
  | copied => exact canCall_copied hin hs
  | stopping => exact canCall_stopping hin hs
  | leaving => exact canCall_leaving hin hs
  | returned => exact .now ⟨hs, hin⟩

theorem canCall_of_closing (hclosing : s.isClosing = true) (hpc : s.connector.pc = .idle)
    (hstage : s.stage ≠ .before) : CanCall d s := by
  obtain ⟨c, hf, hcb⟩ := isClosing_iff.mp hclosing
  have he : s.enabled (.step : Event Tid) = true := by
    simp only [enabled, hpc, hf, decide_true, Bool.true_and]
    rfl
  have hn : s.next d .step = .ok (s.goTo (.removeConnection c)) := by
    show s.step = .ok (s.goTo (.removeConnection c))
    unfold step closeCallback
    rw [hf]
    dsimp only
    rw [hcb]
  exact .after he hn (canCall_of_inside rfl hstage)

/-- The lock comes while the loop thread is in a callback, or on the way. -/
theorem canCall_copyConnection (hcalls : s.noCalls = true)
    (hc : ¬(s.frame.isInside = false ∧ s.isClosing = false)) :
    CanCall d { s with copy := s.connection, stage := .copied } := by
  by_cases hin : s.frame.isInside = true
  · exact canCall_of_inside hin nofun
  · have hclosing : s.isClosing = true :=
      Bool.of_not_eq_false fun hfalse => hc ⟨Bool.eq_false_iff.mpr hin, hfalse⟩
    obtain ⟨c, hf, -⟩ := isClosing_iff.mp hclosing
    have hpc : s.connector.pc = .idle := by
      simp only [noCalls, Bool.and_eq_true, Bool.or_eq_true, decide_eq_true_eq, hf] at hcalls
      rcases hcalls.2 with (hpc | hidle) | hrem
      · exact hpc
      · cases hidle
      · cases hrem
    exact canCall_of_closing hclosing hpc nofun

/-- The connection closes while it would call the client. -/
theorem canCall_close (hready : s.ready c = true) (hstage : s.stage ≠ .before)
    (hcb : (s.conn c).closeCallback ≠ .detail) (life : Lifecycle) :
    CanCall d ((s.setLife c life).goTo (.closing c)) := by
  simp only [ready, Bool.and_eq_true, decide_eq_true_eq] at hready
  have hremove : (s.conn c).closeCallback = .removeConnection := by
    cases hcase : (s.conn c).closeCallback with
    | removeConnection => rfl
    | detail => exact absurd hcase hcb
  have hclosing : ((s.setLife c life).goTo (.closing c)).isClosing = true :=
    isClosing_iff.mpr ⟨c, rfl, (closeCallback_setLife life c).trans hremove⟩
  exact canCall_of_closing hclosing hready.1.1.1 hstage

/-- A new connection comes up. -/
theorem canCall_after (hstage : s.stage ≠ .before) (hconnecting : s.isConnecting = true) :
    CanCall d (s.after .step k) := by
  unfold isConnecting at hconnecting
  split at hconnecting
  · rename_i fd hpc
    have hafter : s.after .step k = { s with connector := k }.goTo .newConnection := by
      simp only [Destruction.after, hpc]
      rw [if_pos hconnecting]
    rw [hafter]
    exact canCall_of_inside rfl hstage
  · cases hconnecting

theorem canCall_of_not_spared (he : s.enabled a = true) (hc : ¬s.Spared a)
    (hn : s.next d a = .ok s') : CanCall d s' := by
  unfold Spared at hc
  split at hc
  · cases hn
    exact canCall_copyConnection (Bool.and_eq_true_iff.mp he).2 hc
  · obtain ⟨hstage, hdetail⟩ := not_or.mp hc
    obtain ⟨life, -, hn⟩ := bind_eq_ok hn
    cases hn
    exact canCall_close he hstage hdetail life
  · obtain ⟨hstage, hconnecting⟩ := Classical.not_imp.mp hc
    obtain ⟨k, -, hn⟩ := bind_eq_ok hn
    cases hn
    exact canCall_after (by rw [hstage]; nofun) (Bool.of_not_eq_false hconnecting)
  · exact absurd trivial hc

/-- **No callback of the client runs after the destructor has returned, if
between its lock and what it then does to the connection or the connector
neither is under way or comes up.** Every step that does not meet the
condition leads to a state from which the destructor can return while the
loop thread is in one. -/
theorem never_called (hs : ((destruction d).guarded Spared).Reachable s) :
    (s.stage = .returned → s.frame.isInside = false) ∧
    ∀ a s', s.enabled a = true → ¬s.Spared a → s.next d a = .ok s' → CanCall d s' := by
  have h := (inv_invariant d).reachable hs
  refine ⟨fun hstage => (h.outside ?_).1, fun a s' he hc hn => canCall_of_not_spared he hc hn⟩
  rw [hstage]
  nofun

/-- A connection comes up, and the destructor finds it and returns. -/
def destroyedWhileUp : List (Event Unit) :=
  [.connector (.start (.other ())), .connector (.queueStart ()), .connector .swap,
    .connector .functor, .connector .step, .connector (.connect .EINPROGRESS),
    .connector .finish, .connector (.channel false (some ⟨0, false⟩)), .connector .step,
    .connector .step, .step, .step, .copyConnection, .queueSetCloseCallback, .returned]

/-- The functor runs, and then the peer closes. -/
theorem never_called_detail : ∃ s, ((destruction ()).guarded Spared).Reachable s ∧
    s.frame = .closing 0 ∧ s.stage = .returned ∧ s.frame.isInside = false := by
  obtain ⟨s, hs, hp⟩ := Lts.exists_reachable_of_exec (L := (destruction ()).guarded Spared)
    (destroyedWhileUp ++ [.connector .swap, .connector .functor, .connector .functor,
      .connector .finish, .close 0])
    (fun s => decide (s.frame = .closing 0) && decide (s.stage = .returned)) rfl (by decide)
  obtain ⟨hf, hstage⟩ := Bool.and_eq_true_iff.mp hp
  have hstage : s.stage = .returned := of_decide_eq_true hstage
  exact ⟨s, hs, of_decide_eq_true hf, hstage, (never_called hs).1 hstage⟩

/-- The peer closes before the functor has run. -/
theorem called_when_destroyed :
    ¬∀ (Tid : Type) [DecidableEq Tid] (d : Tid) (s : Destruction Tid),
      (destruction d).Reachable s → s.stage = .returned → s.frame.isInside = false := by
  intro h
  obtain ⟨s, hs, hp⟩ := Lts.exists_reachable_of_exec (L := destruction ())
    (destroyedWhileUp ++ [.close 0, .step])
    (fun s => s.frame.isInside && decide (s.stage = .returned)) rfl (by decide)
  obtain ⟨hin, hstage⟩ := Bool.and_eq_true_iff.mp hp
  rw [h Unit () s hs (of_decide_eq_true hstage)] at hin
  cases hin

end Destruction

end Muduo
