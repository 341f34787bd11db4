import Muduo.EventLoop.Dispatch

/-!
# No channel is removed while it waits to be handled

While handlers run, `activeChannels_` and the current channel stay what they
are, so whether `removeChannel` accepts a channel (`Removable`) does not
change until the next handler. A handler that removes its own channel is
safe, and so are the functors, which run with `eventHandling_` false. Two
calls remove other channels at once: `~TcpServer`, that of the acceptor and
those of its connections in the loop, and `Connector::stop`. If these only
meet removable channels (`Spared`), no assertion fails and every channel that
waits is in the poller (`removals_safe`); if not, one can fail.
-/

namespace Muduo

open Lib Connector

namespace Dispatch

variable {S C K : Type} [DecidableEq S] [DecidableEq C] [DecidableEq K]
variable (here : C → Bool) (owner : C → Owner S)

/-- The assertion of `removeChannel` holds of the channel. -/
def Removable (s : Dispatch S C K) (ch : Chan S C K) : Prop :=
  s.eventHandling = true → s.currentActiveChannel = some ch ∨ ch ∉ s.activeChannels

instance (s : Dispatch S C K) (ch : Chan S C K) : Decidable (s.Removable ch) :=
  inferInstanceAs (Decidable (_ → _))

/-- The acceptor, and the connections of this loop among `conns`. -/
def AllRemovable (s : Dispatch S C K) (sv : S) (conns : List C) : Prop :=
  s.Removable (.acceptor sv) ∧ ∀ c ∈ conns, here c = true → s.Removable (.connection c)

instance (s : Dispatch S C K) (sv : S) (conns : List C) :
    Decidable (s.AllRemovable here sv conns) :=
  inferInstanceAs (Decidable (_ ∧ _))

/-- A `TcpServer` is destroyed, and a connecting `Connector` stopped, in a
handler only if none of the channels concerned is among those the poll has
returned, but the one being handled. -/
def Spared (s : Dispatch S C K) : Event S C K → Prop
  | .destroyServer sv => s.AllRemovable here sv (s.connections sv)
  | .stop k => (s.connectors k).state = .kConnecting →
      s.Removable (.connector k (s.connectors k).channel)
  | _ => True

instance (s : Dispatch S C K) : ∀ a : Event S C K, Decidable (s.Spared here a)
  | .destroyServer sv => inferInstanceAs (Decidable (s.AllRemovable here sv _))
  | .stop _ => inferInstanceAs (Decidable (_ → s.Removable _))
  | .loop | .poll _ | .handleEvent | .endHandlers | .callFunctor _ | .endFunctors | .returned
  | .newConnection _ _ | .handleClose _ | .handleWrite _ _ _ _ | .handleError _ _
  | .listen _ | .start _ _ | .startInLoop _ _ | .restart _ _
  | .destroyConnection _ | .destroyAcceptor
  | .queueInLoop _ | .setConnect _ _ => instDecidableTrue

instance (s : Dispatch S C K) (a : Event S C K) :
    Decidable (((dispatch here owner).guarded (Spared here)).enabled s a) :=
  inferInstanceAs (Decidable (s.enabled here owner a ∧ s.Spared here a))

/-- The poller forgets the channel. -/
def removed (s : Dispatch S C K) (ch : Chan S C K) : Dispatch S C K :=
  { s with channels := Function.update s.channels ch false }

structure Inv (s : Dispatch S C K) : Prop where
  handling : s.eventHandling = s.place.isHandling
  quiet : s.place.isHandling = false → s.currentActiveChannel = none ∧ s.waiting = []
  current : ∀ ch, s.currentActiveChannel = some ch → ch ∈ s.activeChannels ∧ ch ∉ s.waiting
  nodup : s.waiting.Nodup
  active : ∀ ch ∈ s.waiting, ch ∈ s.activeChannels
  registered : ∀ ch ∈ s.waiting, s.channels ch = true
  connecting : ∀ k n, s.channels (.connector k n) = true →
    n = (s.connectors k).channel ∧ (s.connectors k).state = .kConnecting
  /-- A poll returns no two channels of one connector. -/
  single : ∀ k n m, .connector k n ∈ s.activeChannels → .connector k m ∈ s.activeChannels → n = m
  outside : s.place.isUser = false → s.destructors = []
  destructors : ∀ d ∈ s.destructors, s.AllRemovable here d.1 d.2

variable {here owner} {s s' : Dispatch S C K} {ch : Chan S C K}

omit [DecidableEq S] [DecidableEq C] [DecidableEq K] in
theorem inv_new : Inv here (new : Dispatch S C K) where
  handling := rfl
  quiet _ := ⟨rfl, rfl⟩
  current _ h := by cases h
  nodup := List.nodup_nil
  active _ h := absurd h List.not_mem_nil
  registered _ h := absurd h List.not_mem_nil
  connecting _ _ h := by cases h
  single _ _ _ h := absurd h List.not_mem_nil
  outside _ := rfl
  destructors _ h := absurd h List.not_mem_nil

/-! ## Removing a channel -/

@[simp] theorem channels_removed :
    (s.removed ch).channels = Function.update s.channels ch false := rfl

@[simp] theorem channels_updateChannel :
    (s.updateChannel ch).channels = Function.update s.channels ch true := rfl

omit [DecidableEq S] [DecidableEq C] in
@[simp] theorem connectors_setConnector (k : K) (a : Attempt) :
    (s.setConnector k a).connectors = Function.update s.connectors k a := rfl

theorem removeChannel_of (h : s.Removable ch) : s.removeChannel ch = .ok (s.removed ch) := by
  unfold removeChannel
  by_cases hev : s.eventHandling = true
  · rw [if_pos hev, check_of (h hev)]
    rfl
  · rw [if_neg hev]
    rfl

theorem removeChannel_not (h : ¬s.Removable ch) : s.removeChannel ch = .error .stillActive := by
  obtain ⟨hev, hch⟩ := Classical.not_imp.mp h
  unfold removeChannel
  rw [if_pos hev, check_not hch]
  rfl

omit [DecidableEq S] [DecidableEq C] [DecidableEq K] in
/-- The channel being handled no longer waits, and the others that may be
removed never did. -/
theorem Inv.not_waiting (h : Inv here s) (hch : s.Removable ch) : ch ∉ s.waiting := by
  cases hev : s.eventHandling with
  | true =>
      rcases hch hev with hcur | hch
      · exact (h.current ch hcur).2
      · exact fun hwait => hch (h.active ch hwait)
  | false =>
      rw [(h.quiet (h.handling ▸ hev)).2]
      exact List.not_mem_nil

theorem Inv.removed (h : Inv here s) (hch : s.Removable ch) : Inv here (s.removed ch) :=
  { h with
    registered := by
      intro ch' hwait
      have hne : ch' ≠ ch := fun heq => h.not_waiting hch (heq ▸ hwait)
      rw [channels_removed, Function.update_of_ne hne]
      exact h.registered ch' hwait
    connecting := by
      intro k n hreg
      by_cases heq : .connector k n = ch
      · rw [channels_removed, heq, Function.update_self] at hreg
        cases hreg
      · rw [channels_removed, Function.update_of_ne heq] at hreg
        exact h.connecting k n hreg }

theorem Inv.updateChannel (h : Inv here s)
    (hch : ∀ k n, ch = .connector k n →
      n = (s.connectors k).channel ∧ (s.connectors k).state = .kConnecting) :
    Inv here (s.updateChannel ch) :=
  { h with
    registered := by
      intro ch' hwait
      by_cases heq : ch' = ch
      · rw [channels_updateChannel, heq, Function.update_self]
      · rw [channels_updateChannel, Function.update_of_ne heq]
        exact h.registered ch' hwait
    connecting := by
      intro k n hreg
      by_cases heq : .connector k n = ch
      · exact hch k n heq.symm
      · rw [channels_updateChannel, Function.update_of_ne heq] at hreg
        exact h.connecting k n hreg }

/-! ## Connectors -/

variable {k : K}

omit [DecidableEq S] [DecidableEq C] in
theorem Inv.setConnector (h : Inv here s) {a : Attempt}
    (hreg : ∀ n, s.channels (.connector k n) = true → n = a.channel ∧ a.state = .kConnecting) :
    Inv here (s.setConnector k a) :=
  { h with
    connecting := (Function.forall_update_iff s.connectors (p := fun k a =>
      ∀ n, s.channels (.connector k n) = true → n = a.channel ∧ a.state = .kConnecting)).mpr
      ⟨hreg, fun k' _ => h.connecting k'⟩ }

omit [DecidableEq S] [DecidableEq C] in
theorem Inv.setConnect (h : Inv here s) (b : Bool) : Inv here (s.setConnect k b) :=
  h.setConnector (h.connecting k)

/-- None of the connector's channels is in the poller. -/
def Unregistered (s : Dispatch S C K) (k : K) : Prop :=
  ∀ n, s.channels (.connector k n) = false

omit [DecidableEq S] [DecidableEq C] [DecidableEq K] in
theorem Inv.unregistered (h : Inv here s) (hst : (s.connectors k).state ≠ .kConnecting) :
    s.Unregistered k :=
  fun n => Bool.eq_false_iff.mpr fun hreg => hst (h.connecting k n hreg).2

theorem Inv.unregistered_removed (h : Inv here s) :
    (s.removed (.connector k (s.connectors k).channel)).Unregistered k := by
  intro n
  by_cases hn : n = (s.connectors k).channel
  · rw [channels_removed, hn, Function.update_self]
  · have hne : (.connector k n : Chan S C K) ≠ .connector k (s.connectors k).channel := by
      intro heq
      cases heq
      exact hn rfl
    rw [channels_removed, Function.update_of_ne hne]
    exact Bool.eq_false_iff.mpr fun hreg => hn (h.connecting k n hreg).1

omit [DecidableEq S] [DecidableEq C] in
theorem Inv.setState (h : Inv here s) (hun : s.Unregistered k) (state : States) :
    Inv here (s.setState k state) := by
  refine h.setConnector fun n hreg => ?_
  rw [hun n] at hreg
  cases hreg

theorem Inv.connect (h : Inv here s) (hst : (s.connectors k).state = .kDisconnected) (e : Errno) :
    Inv here (s.connect k e) := by
  have hun : s.Unregistered k := h.unregistered (by rw [hst]; nofun)
  unfold Dispatch.connect
  cases e.outcome with
  | connecting =>
      have hset : Inv here (s.setConnector k { s.connectors k with
          state := .kConnecting, channel := (s.connectors k).channel + 1 }) := by
        refine h.setConnector fun n hreg => ?_
        rw [hun n] at hreg
        cases hreg
      refine hset.updateChannel fun k' n heq => ?_
      cases heq
      simp only [connectors_setConnector, Function.update_self, and_self]
  | retry => exact h.setState hun _
  | close => exact h

theorem Inv.startInLoop (h : Inv here s) (hst : (s.connectors k).state = .kDisconnected)
    (e : Errno) : Inv here (s.startInLoop k e) := by
  unfold Dispatch.startInLoop
  split
  · exact h.connect hst e
  · exact h

/-- The channel of a connector is removed and its state set to whatever it
may be without one. -/
theorem Inv.reset (h : Inv here s)
    (hch : s.Removable (.connector k (s.connectors k).channel)) (state : States) :
    Inv here ((s.removed (.connector k (s.connectors k).channel)).setState k state) :=
  (h.removed hch).setState h.unregistered_removed state

omit [DecidableEq S] [DecidableEq C] in
@[simp] theorem channel_setState (state : States) :
    ((s.setState k state).connectors k).channel = (s.connectors k).channel := by
  simp [setState]

omit [DecidableEq S] [DecidableEq C] in
@[simp] theorem setConnect_self (b : Bool) :
    (s.setConnect k b).connectors k = { s.connectors k with connect_ := b } := by
  simp [setConnect]

omit [DecidableEq S] [DecidableEq C] in
@[simp] theorem setState_self (state : States) :
    (s.setState k state).connectors k = { s.connectors k with state := state } := by
  simp [setState]

theorem Inv.stopInLoop (h : Inv here s) (hch : (s.connectors k).state = .kConnecting →
    s.Removable (.connector k (s.connectors k).channel)) :
    ∃ s', s.stopInLoop k = .ok s' ∧ Inv here s' := by
  unfold Dispatch.stopInLoop
  by_cases hst : (s.connectors k).state = .kConnecting
  · have hrem : (s.setState k .kDisconnected).removeAndResetChannel k =
        .ok ((s.removed (.connector k (s.connectors k).channel)).setState k .kDisconnected) := by
      unfold removeAndResetChannel
      rw [channel_setState]
      exact removeChannel_of (s := s.setState k .kDisconnected) (hch hst)
    rw [if_pos hst, hrem]
    exact ⟨_, rfl, (h.reset (hch hst) _).setState h.unregistered_removed _⟩
  · rw [if_neg hst]
    exact ⟨s, rfl, h⟩

theorem Inv.stop (h : Inv here s) (hch : (s.connectors k).state = .kConnecting →
    s.Removable (.connector k (s.connectors k).channel)) :
    ∃ s', s.stop k = .ok s' ∧ Inv here s' := by
  refine (h.setConnect false).stopInLoop ?_
  rw [setConnect_self]
  exact hch

omit [DecidableEq S] [DecidableEq C] [DecidableEq K] in
/-- A connector's handlers remove the channel they are the handlers of. -/
theorem Inv.own (h : Inv here s) {n : Nat} (hin : s.InHandler (.connector k n)) :
    s.Removable (.connector k (s.connectors k).channel) := by
  obtain ⟨-, -, hcur⟩ := hin
  intro _
  by_cases hn : n = (s.connectors k).channel
  · exact Or.inl (hn ▸ hcur)
  · exact Or.inr fun hmem => hn (h.single k _ _ (h.current _ hcur).1 hmem)

theorem Inv.handleWrite (h : Inv here s) {n : Nat} (hin : s.InHandler (.connector k n))
    (w : Writable) (c : C) : ∃ s', s.handleWrite k w c = .ok s' ∧ Inv here s' := by
  unfold Dispatch.handleWrite
  by_cases hst : (s.connectors k).state = .kConnecting
  · have hreset := h.reset (h.own hin)
    rw [if_pos hst, removeAndResetChannel, removeChannel_of (h.own hin), ok_bind]
    dsimp only
    split
    · exact ⟨_, rfl, hreset _⟩
    · split
      · exact ⟨_, rfl, hreset _⟩
      · split
        · exact ⟨_, rfl, (hreset _).updateChannel nofun⟩
        · exact ⟨_, rfl, hreset _⟩
  · rw [if_neg hst]
    exact ⟨s, rfl, h⟩

theorem Inv.handleError (h : Inv here s) {n : Nat} (hin : s.InHandler (.connector k n)) :
    ∃ s', s.handleError k = .ok s' ∧ Inv here s' := by
  refine ⟨_, ?_, h.reset (h.own hin) .kDisconnected⟩
  rw [Dispatch.handleError, removeAndResetChannel, removeChannel_of (h.own hin)]
  rfl

/-! ## Servers -/

omit [DecidableEq S] [DecidableEq C] [DecidableEq K] in
theorem Inv.setDestructors (h : Inv here s) {ds : List (S × List C)}
    (hds : ∀ d ∈ ds, s.AllRemovable here d.1 d.2) (hout : s.place.isUser = false → ds = []) :
    Inv here { s with destructors := ds } :=
  { h with
    outside := hout
    destructors := hds }

theorem Inv.newConnection (h : Inv here s) (sv : S) (c : C) :
    Inv here (s.newConnection here sv c) := by
  have hadd : Inv here { s with
      connections := Function.update s.connections sv (s.connections sv ++ [c]) } := { h with }
  unfold Dispatch.newConnection
  dsimp only
  split
  · exact hadd.updateChannel nofun
  · exact hadd

omit [DecidableEq K] in
theorem Inv.removeConnectionInLoop (h : Inv here s) (sv : S) (c : C) :
    Inv here (s.removeConnectionInLoop here sv c) := by
  unfold Dispatch.removeConnectionInLoop
  dsimp only
  split <;> exact { h with }

omit [DecidableEq K] in
theorem Inv.handleClose (h : Inv here s) (c : C) : Inv here (s.handleClose here owner c) := by
  unfold Dispatch.handleClose
  split
  · exact h.removeConnectionInLoop _ c
  · exact { h with }
  · exact h

omit [DecidableEq S] [DecidableEq C] [DecidableEq K] in
/-- Destructors run in user code. -/
theorem Inv.inDestructor (h : Inv here s) {d : S × List C} {rest ds : List (S × List C)}
    (hd : s.destructors = d :: rest) (hds : ∀ d ∈ ds, s.AllRemovable here d.1 d.2) :
    Inv here { s with destructors := ds } := by
  refine h.setDestructors hds fun hout => ?_
  rw [h.outside hout] at hd
  cases hd

theorem Inv.destroyConnection (h : Inv here s) {c : C}
    (hc : ∃ d ∈ s.destructors.head?, c ∈ d.2) :
    ∃ s', s.destroyConnection here c = .ok s' ∧ Inv here s' := by
  obtain ⟨⟨sv, conns⟩, hd, hmem⟩ := hc
  obtain ⟨rest, hds⟩ := List.head?_eq_some_iff.mp hd
  obtain ⟨hall, hrest⟩ := List.forall_mem_cons.mp (hds ▸ h.destructors)
  have hturn : Inv here { s with destructors := (sv, conns.erase c) :: rest } := by
    refine h.inDestructor hds (List.forall_mem_cons.mpr ⟨⟨hall.1, fun c' hc' => ?_⟩, hrest⟩)
    exact hall.2 c' (List.mem_of_mem_erase hc')
  unfold Dispatch.destroyConnection
  rw [hds]
  dsimp only
  by_cases hhere : here c = true
  · have hrem : s.Removable (.connection c) := hall.2 c hmem hhere
    rw [if_pos hhere]
    exact ⟨_, removeChannel_of (s := { s with destructors := _ }) hrem, hturn.removed hrem⟩
  · rw [if_neg hhere]
    exact ⟨_, rfl, hturn⟩

theorem Inv.destroyAcceptor (h : Inv here s) (hd : ∃ d ∈ s.destructors.head?, d.2 = []) :
    ∃ s', s.destroyAcceptor = .ok s' ∧ Inv here s' := by
  obtain ⟨⟨sv, conns⟩, hd, -⟩ := hd
  obtain ⟨rest, hds⟩ := List.head?_eq_some_iff.mp hd
  obtain ⟨⟨hrem, -⟩, hrest⟩ := List.forall_mem_cons.mp (hds ▸ h.destructors)
  have hgone : Inv here { s with
    connections := Function.update s.connections sv [], destructors := rest } :=
    { h.inDestructor hds hrest with }
  unfold Dispatch.destroyAcceptor
  rw [hds]
  exact ⟨_, removeChannel_of (s := { s with
    connections := Function.update s.connections sv [], destructors := rest }) hrem,
    hgone.removed hrem⟩

/-! ## The loop -/

omit [DecidableEq S] [DecidableEq C] [DecidableEq K] in
/-- Outside the handlers everything may be removed. -/
theorem Inv.removable_of (h : Inv here s) (hp : s.place.isHandling = false) (ch : Chan S C K) :
    s.Removable ch := by
  intro hev
  rw [h.handling, hp] at hev
  cases hev

omit [DecidableEq S] [DecidableEq C] [DecidableEq K] in
theorem Inv.setPlace (h : Inv here s) {p : Place} (hp : p.isHandling = s.place.isHandling)
    (hd : s.destructors = []) : Inv here { s with place := p } :=
  { h with
    handling := h.handling.trans hp.symm
    quiet := fun hq => h.quiet (hp ▸ hq)
    outside := fun _ => hd }

theorem Inv.call (h : Inv here s) (hp : s.place.isHandling = false) {f : Functor S C K}
    (hf : s.Callable owner f) (e : Errno) :
    ∃ s', s.call here owner f e = .ok s' ∧ Inv here s' := by
  cases f with
  | listen sv => exact ⟨_, rfl, h.updateChannel nofun⟩
  | connectEstablished c => exact ⟨_, rfl, h.updateChannel nofun⟩
  | connectDestroyed c =>
      have hrem := h.removable_of hp (.connection c)
      exact ⟨_, removeChannel_of hrem, h.removed hrem⟩
  | removeConnectionInLoop c =>
      unfold Dispatch.call
      dsimp only
      split
      · exact ⟨_, rfl, h.removeConnectionInLoop _ c⟩
      · exact ⟨_, rfl, h⟩
      · exact ⟨_, rfl, h⟩
  | startInLoop k => exact ⟨_, rfl, h.startInLoop hf e⟩
  | stopInLoop k => exact h.stopInLoop fun _ => h.removable_of hp _
  | other => exact ⟨_, rfl, h⟩

omit [DecidableEq S] [DecidableEq C] [DecidableEq K] in
theorem Inv.poll (h : Inv here s) (hp : s.place = .poll) {batch : List (Chan S C K)}
    (hnodup : batch.Nodup) (hreg : ∀ ch ∈ batch, s.channels ch = true) :
    Inv here { s with
      place := .handlers, activeChannels := batch, waiting := batch, eventHandling := true } := by
  have hd : s.destructors = [] := h.outside (by rw [hp]; rfl)
  have hcur : s.currentActiveChannel = none := (h.quiet (by rw [hp]; rfl)).1
  exact {
    handling := rfl
    quiet := nofun
    current := fun ch hch => by
      rw [hcur] at hch
      cases hch
    nodup := hnodup
    active := fun _ hch => hch
    registered := hreg
    connecting := h.connecting
    single := fun k n m hn hm =>
      (h.connecting k n (hreg _ hn)).1.trans (h.connecting k m (hreg _ hm)).1.symm
    outside := fun _ => hd
    destructors := fun d hmem => (List.eq_nil_iff_forall_not_mem.mp hd d hmem).elim }

omit [DecidableEq S] [DecidableEq C] [DecidableEq K] in
theorem Inv.handleEvent (h : Inv here s) (hp : s.place = .handlers) (hw : s.waiting ≠ []) :
    Inv here { s with
      place := .handler, currentActiveChannel := s.waiting.head?, waiting := s.waiting.tail } := by
  obtain ⟨ch, rest, hwait⟩ := List.exists_cons_of_ne_nil hw
  have hnodup := h.nodup
  have hd : s.destructors = [] := h.outside (by rw [hp]; rfl)
  rw [hwait, List.nodup_cons] at hnodup
  rw [hwait]
  exact { h with
    handling := by rw [h.handling, hp]; rfl
    quiet := nofun
    current := by
      intro ch' hch'
      obtain rfl := Option.some.inj hch'
      exact ⟨h.active ch (hwait ▸ .head _), hnodup.1⟩
    nodup := hnodup.2
    active := fun ch' hmem => h.active ch' (hwait ▸ List.mem_cons_of_mem _ hmem)
    registered := fun ch' hmem => h.registered ch' (hwait ▸ List.mem_cons_of_mem _ hmem)
    outside := nofun
    destructors := fun d hmem => (List.eq_nil_iff_forall_not_mem.mp hd d hmem).elim }

omit [DecidableEq S] [DecidableEq C] [DecidableEq K] in
theorem Inv.endHandlers (h : Inv here s) (hp : s.place = .handlers) (hw : s.waiting = []) :
    Inv here { s with
      place := .functors, currentActiveChannel := none, eventHandling := false
      functors := s.pendingFunctors, pendingFunctors := [] } := by
  have hd : s.destructors = [] := h.outside (by rw [hp]; rfl)
  exact { h with
    handling := rfl
    quiet := fun _ => ⟨rfl, hw⟩
    current := nofun
    outside := fun _ => hd
    destructors := fun d hmem => (List.eq_nil_iff_forall_not_mem.mp hd d hmem).elim }

/-- **One step.** A call that is `Spared` fails no assertion. -/
theorem Inv.step (h : Inv here s) {a : Event S C K} (he : s.enabled here owner a)
    (hc : s.Spared here a) : ∃ s', s.next here owner a = .ok s' ∧ Inv here s' := by
  cases a with
  | loop => exact ⟨_, rfl, h.setPlace (by rw [he.1]; rfl) he.2⟩
  | poll batch => exact ⟨_, rfl, h.poll he.1 he.2.1 he.2.2⟩
  | handleEvent => exact ⟨_, rfl, h.handleEvent he.1 he.2⟩
  | endHandlers => exact ⟨_, rfl, h.endHandlers he.1 he.2⟩
  | callFunctor e =>
      obtain ⟨hp, f, hf, hcall⟩ := he
      obtain ⟨rest, hfs⟩ := List.head?_eq_some_iff.mp hf
      have hd : s.destructors = [] := h.outside (by rw [hp]; rfl)
      have htaken : Inv here { s with place := .functor, functors := rest } :=
        { h.setPlace (p := .functor) (by rw [hp]; rfl) hd with }
      unfold next
      rw [hfs]
      refine htaken.call rfl ?_ e
      cases f <;> exact hcall
  | endFunctors => exact ⟨_, rfl, h.setPlace (by rw [he.1]; rfl) (h.outside (by rw [he.1]; rfl))⟩
  | returned =>
      obtain ⟨hp, hd⟩ := he
      refine ⟨_, rfl, h.setPlace ?_ hd⟩
      rcases hp with hp | hp <;> rw [hp] <;> rfl
  | newConnection sv c => exact ⟨_, rfl, h.newConnection sv c⟩
  | handleClose c => exact ⟨_, rfl, h.handleClose c⟩
  | handleWrite k n w c => exact h.handleWrite he.1 w c
  | handleError k n => exact h.handleError he.1
  | listen sv => exact ⟨_, rfl, h.updateChannel nofun⟩
  | destroyServer sv =>
      refine ⟨_, rfl, ?_⟩
      have hbegun : Inv here { s with
          destructors := (sv, s.connections sv) :: s.destructors } := by
        refine h.setDestructors (List.forall_mem_cons.mpr ⟨hc, h.destructors⟩) fun hout => ?_
        rw [he.1] at hout
        cases hout
      exact { hbegun with }
  | start k e =>
      refine ⟨_, rfl, (h.setConnect true).startInLoop ?_ e⟩
      rw [setConnect_self]
      exact he.2
  | startInLoop k e => exact ⟨_, rfl, h.startInLoop he.2 e⟩
  | restart k e =>
      have hun : s.Unregistered k := h.unregistered (by rw [he.2]; nofun)
      refine ⟨_, rfl, ((h.setState hun .kDisconnected).setConnect true).startInLoop ?_ e⟩
      rw [setConnect_self, setState_self]
  | stop k => exact h.stop hc
  | destroyConnection c => exact h.destroyConnection he
  | destroyAcceptor => exact h.destroyAcceptor he
  | queueInLoop f => exact ⟨_, rfl, { h with }⟩
  | setConnect k b => exact ⟨_, rfl, h.setConnect b⟩

theorem inv_invariant (here : C → Bool) (owner : C → Owner S) :
    ((dispatch (K := K) here owner).guarded (Spared here)).Invariant (Inv here) where
  init s hs := by
    obtain rfl : s = .new := hs
    exact inv_new
  step s a s' h he hn := by
    obtain ⟨s'', hn', h'⟩ := h.step he.1 he.2
    have hn : s.next here owner a = .ok s' := hn
    rw [hn] at hn'
    cases hn'
    exact h'

/-! ## Calls that are not spared -/

/-- An assertion of `removeChannel` can fail from here on. -/
def CanFail (here : C → Bool) (owner : C → Owner S) (s : Dispatch S C K) : Prop :=
  (dispatch here owner).CanReach (fun s => ∃ a, s.enabled here owner a ∧
    s.next here owner a = .error .stillActive) s

theorem canFail_at {a : Event S C K} (he : s.enabled here owner a)
    (hn : s.next here owner a = .error .stillActive) : CanFail here owner s :=
  .now ⟨a, he, hn⟩

/-- A turn of a destructor changes nothing that the assertion looks at. -/
theorem destroyConnection_of {sv : S} {c : C} {conns : List C} {rest : List (S × List C)}
    (hds : s.destructors = (sv, conns) :: rest)
    (hrem : here c = true → s.Removable (.connection c)) :
    ∃ s', s.destroyConnection here c = .ok s' ∧
      s'.destructors = (sv, conns.erase c) :: rest ∧ ∀ ch, s'.Removable ch → s.Removable ch := by
  unfold destroyConnection
  rw [hds]
  dsimp only
  by_cases hhere : here c = true
  · rw [if_pos hhere]
    exact ⟨_, removeChannel_of (s := { s with destructors := _ }) (hrem hhere), rfl, fun _ h => h⟩
  · rw [if_neg hhere]
    exact ⟨_, rfl, rfl, fun _ h => h⟩

/-- A destructor with a channel before it that it may not remove. -/
theorem canFail_of_destructor {sv : S} {conns : List C} {rest : List (S × List C)}
    (hds : s.destructors = (sv, conns) :: rest) (hnot : ¬s.AllRemovable here sv conns) :
    CanFail here owner s := by
  induction conns generalizing s with
  | nil =>
      have hrem : ¬s.Removable (.acceptor sv) := fun hrem => hnot ⟨hrem, nofun⟩
      refine canFail_at (a := .destroyAcceptor) ⟨(sv, []), by rw [hds]; rfl, rfl⟩ ?_
      show s.destroyAcceptor = .error .stillActive
      unfold destroyAcceptor
      rw [hds]
      exact removeChannel_not (s := { s with
        connections := Function.update s.connections sv [], destructors := rest }) hrem
  | cons c conns ih =>
      have he : s.enabled here owner (.destroyConnection c) :=
        ⟨(sv, c :: conns), by rw [hds]; rfl, .head _⟩
      by_cases hrem : here c = true → s.Removable (.connection c)
      · -- this one goes, and what cannot be removed is still to come
        obtain ⟨s', hn, hds', hsame⟩ := destroyConnection_of hds hrem
        rw [List.erase_cons_head] at hds'
        refine .after (a := .destroyConnection c) he hn (ih hds' fun hall => hnot ?_)
        refine ⟨hsame _ hall.1, fun c' hc' hhere => ?_⟩
        rcases List.mem_cons.mp hc' with rfl | hc'
        · exact hrem hhere
        · exact hsame _ (hall.2 c' hc' hhere)
      · obtain ⟨hhere, hrem⟩ := Classical.not_imp.mp hrem
        refine canFail_at he ?_
        show s.destroyConnection here c = .error .stillActive
        unfold destroyConnection
        rw [hds]
        dsimp only
        rw [if_pos hhere]
        exact removeChannel_not (s := { s with destructors := _ }) hrem

theorem canFail_of_not_spared {a : Event S C K} (he : s.enabled here owner a)
    (hc : ¬s.Spared here a) : CanFail here owner s := by
  cases a with
  | destroyServer sv =>
      exact .after (a := .destroyServer sv) he rfl (canFail_of_destructor rfl hc)
  | stop k =>
      obtain ⟨hst, hrem⟩ := Classical.not_imp.mp hc
      refine canFail_at he ?_
      show (s.setConnect k false).stopInLoop k = .error .stillActive
      rw [stopInLoop, setConnect_self, if_pos hst, removeAndResetChannel, channel_setState,
        setConnect_self, removeChannel_not (s := (s.setConnect k false).setState k .kDisconnected) hrem]
      rfl
  | _ => exact absurd trivial hc

/-- **No channel is removed while it waits, if no handler destroys a server or
stops a connector whose channels are among those the poll has returned, the
one being handled apart.** Then in every state reached all channels that
still wait are in the poller, and no removal fails its assertion; and from a
state in which such a call may come otherwise one can. -/
theorem removals_safe
    (hs : ((dispatch here owner).guarded (Spared here)).Reachable s) :
    (∀ ch ∈ s.waiting, s.channels ch = true) ∧
    ∀ a, s.enabled here owner a →
      (s.Spared here a → ∃ s', s.next here owner a = .ok s') ∧
      (¬s.Spared here a → CanFail here owner s) := by
  have h := (inv_invariant here owner).reachable hs
  refine ⟨h.registered, fun a he => ⟨fun hc => ?_, canFail_of_not_spared he⟩⟩
  obtain ⟨s', hn, -⟩ := h.step he hc
  exact ⟨s', hn⟩

/-- One server with all its connections in the loop. -/
def oneServer : Bool → Owner Unit := fun _ => .server ()

/-- Its acceptor takes two connections, and the handler of one of `batch` is
called. -/
def twoAccepted (batch : List (Chan Unit Bool Unit)) : List (Event Unit Bool Unit) :=
  [.listen (), .loop, .poll [.acceptor ()], .handleEvent, .newConnection () false,
    .returned, .endHandlers, .endFunctors, .poll [.acceptor ()], .handleEvent,
    .newConnection () true, .returned, .endHandlers, .endFunctors, .poll batch, .handleEvent]

/-- The server is destroyed in the handler of one connection while the other
is not ready, and the wakeup channel waits. -/
theorem removals_safe_alone :
    ∃ s : Dispatch Unit Bool Unit,
      ((dispatch (fun _ => true) oneServer).guarded (Spared fun _ => true)).Reachable s ∧
      s.waiting = [.other 0] ∧ ∀ ch ∈ s.waiting, s.channels ch = true := by
  obtain ⟨s, hs, hp⟩ := Lts.exists_reachable_of_exec
    (L := (dispatch (K := Unit) (fun _ => true) oneServer).guarded (Spared fun _ => true))
    (twoAccepted [.connection false, .other 0] ++ [.destroyServer (), .destroyConnection true,
      .destroyConnection false, .destroyAcceptor])
    (fun s => s.waiting = [.other 0]) rfl (by decide)
  exact ⟨s, hs, of_decide_eq_true hp, (removals_safe hs).1⟩

/-- The handler of the first destroys the server: the second is removed while
it waits. -/
theorem removals_fail :
    ¬∀ (S C K : Type) [DecidableEq S] [DecidableEq C] [DecidableEq K] (here : C → Bool)
      (owner : C → Owner S) (s : Dispatch S C K) (a : Event S C K),
      (dispatch here owner).Reachable s → s.enabled here owner a →
      ∃ s', s.next here owner a = .ok s' := by
  intro h
  obtain ⟨s, hs, he, hn⟩ := Lts.exists_fault_of_exec
    (L := dispatch (K := Unit) (fun _ => true) oneServer) .new
    (twoAccepted [.connection false, .connection true] ++ [.destroyServer (),
      .destroyConnection false]) (.destroyConnection true) .stillActive (by decide)
  obtain ⟨s', hn'⟩ := h Unit Bool Unit (fun _ => true) oneServer s (.destroyConnection true)
    ⟨_, _, rfl, hs⟩ he
  cases hn.symm.trans hn'

end Dispatch

end Muduo
