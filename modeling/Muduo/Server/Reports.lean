import Muduo.Server.Steps

/-!
# What the user hears of a connection

`connectionCallback_` is called when a connection comes up, and when it goes
down: by `handleClose` or, if that has not been called, by
`connectDestroyed`. The latter tests for `kConnected`, and so takes a
connection in `kDisconnecting`, shut down and not closed yet, for one that is
down (`destroyed_while_up`); and `shutdown()` in another thread may set
`state_` after `connectDestroyed` has. When neither happens, a connection has
been reported up once and down once when `connectDestroyed` returns
(`reported_up_and_down`).
-/

namespace Muduo

open Lib

/-! ## Up and down -/

namespace Lifecycle

/-- Reported up. -/
structure IsUp (c : Lifecycle) : Prop where
  reports : c.reports = [true]
  interest : c.interest = true
  state : c.state = .kConnected ∨ c.state = .kDisconnecting

/-- Reported up, and then down. -/
structure IsDown (c : Lifecycle) : Prop where
  reports : c.reports = [true, false]
  interest : c.interest = false
  state : c.state = .kDisconnected ∨ c.state = .kDisconnecting

/-- As a connection should be when `connectDestroyed` returns. -/
structure ReportedOnce (c : Lifecycle) : Prop where
  reports : c.reports = [true, false]
  state : c.state = .kDisconnected
  emptied : c.emptied = some true

variable {c c' : Lifecycle}

theorem IsUp.not_down (h : c.IsUp) : ¬c.IsDown := by
  intro hdown
  have hinterest := h.interest
  rw [hdown.interest] at hinterest
  cases hinterest

theorem not_up_new : ¬IsUp new := by
  intro h
  cases h.reports

theorem not_down_new : ¬IsDown new := by
  intro h
  cases h.reports

theorem isUp_connectEstablished (h : new.connectEstablished = .ok c') : c'.IsUp := by
  obtain ⟨_, rfl⟩ := connectEstablished_ok h
  exact ⟨rfl, rfl, Or.inl rfl⟩

theorem IsUp.handleClose (h : c.IsUp) (hclose : c.handleClose = .ok c') : c'.IsDown := by
  obtain ⟨_, rfl⟩ := handleClose_ok hclose
  exact ⟨by rw [h.reports]; rfl, rfl, Or.inl rfl⟩

theorem IsUp.goDown (h : c.IsUp) : c.goDown.IsDown := by
  refine ⟨?_, rfl, Or.inl rfl⟩
  rw [goDown_eq, h.reports]
  rfl

theorem IsUp.shutdown (h : c.IsUp) : c.shutdown.IsUp := by
  refine ⟨by simpa using h.reports, by simpa using h.interest, ?_⟩
  rcases c.state_shutdown with heq | ⟨_, heq⟩
  · rw [heq]
    exact h.state
  · exact Or.inr heq

/-- `shutdown()` leaves a connection alone that is down. -/
theorem IsDown.shutdown (h : c.IsDown) : c.shutdown = c := by
  refine if_neg ?_
  intro hstate
  rcases h.state with heq | heq <;> rw [heq] at hstate <;> cases hstate

end Lifecycle

namespace TcpServer

variable {a b : Account} {K : Irregular → Prop}

/-! ## One connection -/

structure Reported (a : Account) : Prop where
  new : .connectEstablished ∈ a.functors → a.life = .new
  first : .connectEstablished ∉ a.functors.tail
  past : .connectEstablished ∉ a.functors → a.life.IsUp ∨ a.life.IsDown
  destroying : .destroying ∈ a.stack → a.life.IsUp
  down : .down ∈ a.stack → a.life.IsDown ∧ a.life.state = .kDisconnected
  destroyed : .destroyed ∈ a.history → a.life.IsDown ∧ a.life.emptied = some true

theorem reported_fresh : Reported .fresh where
  new _ := rfl
  first h := by cases h
  past h := absurd (List.mem_singleton.mpr rfl) h
  destroying h := by cases h
  down h := by cases h
  destroyed h := by cases h

/-- The life stays what it is. -/
theorem Reported.goOn (h : Reported a) (hlife : b.life = a.life)
    (hfunctors : .connectEstablished ∈ b.functors ↔ .connectEstablished ∈ a.functors)
    (hfirst : .connectEstablished ∉ b.functors.tail)
    (hdestroying : .destroying ∈ b.stack → .destroying ∈ a.stack ∨ a.life.IsUp)
    (hdown : .down ∈ b.stack → .down ∈ a.stack)
    (hdestroyed : .destroyed ∈ b.history → .destroyed ∈ a.history) : Reported b where
  new hmem := by
    rw [hlife]
    exact h.new (hfunctors.mp hmem)
  first := hfirst
  past hmem := by
    rw [hlife]
    exact h.past fun hmem' => hmem (hfunctors.mpr hmem')
  destroying hmem := by
    rw [hlife]
    exact (hdestroying hmem).elim h.destroying id
  down hmem := by
    rw [hlife]
    exact h.down (hdown hmem)
  destroyed hmem := by
    rw [hlife]
    exact h.destroyed (hdestroyed hmem)

/-- Only the life changes, and the connection is up or down as before. -/
theorem Reported.setLife (h : Reported a) {life : Lifecycle}
    (hpast : .connectEstablished ∉ a.functors) (hup : a.life.IsUp → life.IsUp)
    (hdown : a.life.IsDown → life.IsDown)
    (hstate : .down ∈ a.stack → life.state = .kDisconnected)
    (hemptied : a.life.emptied = some true → life.emptied = some true) :
    Reported { a with life := life } where
  new hmem := absurd hmem hpast
  first := h.first
  past hmem := (h.past hmem).imp hup hdown
  destroying hmem := hup (h.destroying hmem)
  down hmem := ⟨hdown (h.down hmem).1, hstate hmem⟩
  destroyed hmem := ⟨hdown (h.destroyed hmem).1, hemptied (h.destroyed hmem).2⟩

/-- The connection goes down. -/
theorem Reported.goDown (h : Reported a) (ms : List Mark) {life : Lifecycle} {ps : List Point}
    (hup : a.life.IsUp) (hlife : life.IsDown) (hstate : life.state = .kDisconnected)
    (hps : .destroying ∉ ps) (hms : .destroyed ∉ ms) :
    Reported { a with life := life, history := a.history ++ ms, stack := ps } where
  new hmem := by
    have hnew := h.new hmem
    rw [hnew] at hup
    exact absurd hup Lifecycle.not_up_new
  first := h.first
  past _ := Or.inr hlife
  destroying hmem := absurd hmem hps
  down _ := ⟨hlife, hstate⟩
  destroyed hmem := by
    rcases List.mem_append.mp hmem with hold | hnew
    · exact absurd (h.destroyed hold).1 hup.not_down
    · exact absurd hnew hms

/-- `channel_->remove()`, the connection being down. -/
theorem Reported.remove (h : Reported a) (hdown : a.life.IsDown) :
    Reported { a with life := a.life.remove, history := a.history ++ [.destroyed] } where
  new hmem := by
    have hnew := h.new hmem
    rw [hnew] at hdown
    exact absurd hdown Lifecycle.not_down_new
  first := h.first
  past _ := Or.inr ⟨hdown.reports, hdown.interest, hdown.state⟩
  destroying hmem := absurd hdown (h.destroying hmem).not_down
  down hmem := ⟨⟨hdown.reports, hdown.interest, hdown.state⟩, (h.down hmem).2⟩
  destroyed _ := by
    refine ⟨⟨hdown.reports, hdown.interest, hdown.state⟩, ?_⟩
    rw [Lifecycle.remove, hdown.interest]
    rfl

/-- A `connectDestroyed` is taken out. -/
theorem Reported.take (h : Reported a) {fs fs' : List Method} (hcan : Destroyable K a fs fs') :
    Reported { a with
      history := a.history ++ [.connectDestroyed], functors := fs ++ fs' } := by
  obtain ⟨hpast, hpast'⟩ := hcan.past h.first
  refine h.goOn rfl ⟨fun hmem => absurd hmem hpast', fun hmem => absurd hmem hpast⟩
    (fun hmem => hpast' (List.mem_of_mem_tail hmem)) Or.inl id fun hmem => ?_
  simpa using hmem

/-- A functor is queued. -/
theorem Reported.queue (h : Reported a) {m : Mark} {n n' : Nat} (hm : m ≠ .destroyed) :
    Reported { a with
      history := a.history ++ [m], functors := a.functors ++ [.connectDestroyed]
      removals := n, entries := n' } := by
  refine h.goOn rfl (by simp) ?_ Or.inl id fun hmem => ?_
  · have hfirst := h.first
    cases hf : a.functors with
    | nil => simp
    | cons f fs =>
        rw [hf] at hfirst
        simpa using hfirst
  · rcases List.mem_append.mp hmem with hmem | hmem
    · exact hmem
    · exact absurd (List.mem_singleton.mp hmem).symm hm

/-- A function of the connection begins or ends that has no part in this. -/
theorem Reported.setStack (h : Reported a) (ms : List Mark) (n : Nat) {ps : List Point}
    (hms : .destroyed ∉ ms) (hdestroying : .destroying ∈ ps → .destroying ∈ a.stack)
    (hdown : .down ∈ ps → .down ∈ a.stack) :
    Reported { a with history := a.history ++ ms, stack := ps, removals := n } := by
  refine h.goOn rfl Iff.rfl h.first (fun hmem => Or.inl (hdestroying hmem)) hdown fun hmem => ?_
  exact (List.mem_append.mp hmem).resolve_right hms

/-- **A move keeps what has been reported right**, unless `connectDestroyed` finds
`kDisconnecting` or `shutdown()` sets it behind it. -/
theorem Reported.move (h : Reported a) (hcut : ¬K .cutShort) (hlate : ¬K .late)
    (hm : Move K a b) : Reported b := by
  cases hm with
  | @established fs life functors stack result =>
      have hnew := h.new (by rw [functors]; exact List.mem_cons_self ..)
      have hfirst := h.first
      rw [functors, List.tail_cons] at hfirst
      rw [hnew] at result
      have hup := Lifecycle.isUp_connectEstablished result
      constructor
      case new => exact fun hmem => absurd hmem hfirst
      case first => exact fun hmem => hfirst (List.mem_of_mem_tail hmem)
      case past => exact fun _ => Or.inl hup
      case destroying => exact fun _ => hup
      case down =>
        intro hmem
        cases List.mem_singleton.mp hmem
      case destroyed =>
        intro hmem
        have hold : .destroyed ∈ a.history := by simpa using hmem
        have hdown := (h.destroyed hold).1
        rw [hnew] at hdown
        exact absurd hdown Lifecycle.not_down_new
  | read _ _ => exact h.setStack _ _ (by simp) (by simp) (by simp)
  | @close life _ _ polled result =>
      have hinterest : a.life.interest = true := by
        simp only [Lifecycle.isPolled, Bool.and_eq_true] at polled
        exact polled.2
      have hup : a.life.IsUp := by
        by_cases hmem : .connectEstablished ∈ a.functors
        · rw [h.new hmem] at hinterest
          cases hinterest
        · refine (h.past hmem).resolve_right fun hdown => ?_
          rw [hdown.interest] at hinterest
          cases hinterest
      have hstate : life.state = .kDisconnected := by
        obtain ⟨_, rfl⟩ := Lifecycle.handleClose_ok result
        rfl
      exact h.goDown _ hup (hup.handleClose result) hstate (by simp) (by simp)
  | @returned p ps stack _ =>
      have hpop := h.setStack [] a.removals (by simp)
        (fun (hmem : .destroying ∈ ps) => stack ▸ List.mem_cons_of_mem p hmem)
        (fun hmem => stack ▸ List.mem_cons_of_mem p hmem)
      rwa [List.append_nil] at hpop
  | @removing ps stack =>
      have hpop := h.setStack [] (a.removals + 1) (by simp)
        (fun (hmem : .destroying ∈ .closed :: ps) => by simpa [stack] using hmem)
        (fun hmem => by simpa [stack] using hmem)
      rwa [List.append_nil] at hpop
  | removed _ _ => exact h.queue (by simp)
  | closed stack =>
      exact h.setStack _ _ (by simp) (fun hmem => stack ▸ List.mem_cons_of_mem _ hmem)
        (fun hmem => stack ▸ List.mem_cons_of_mem _ hmem)
  | dropped _ _ => exact h.queue (by simp)
  | destroying can state =>
      have hup : a.life.IsUp := by
        refine (h.past (can.past h.first).1).resolve_right fun hdown => ?_
        rcases hdown.state with heq | heq <;> rw [heq] at state <;> cases state
      refine (h.take can).goOn rfl Iff.rfl (h.take can).first (fun _ => Or.inr hup) (fun hmem => ?_)
        id
      simpa using hmem
  | destroyed can state kind =>
      have hdown : a.life.IsDown := by
        refine (h.past (can.past h.first).1).resolve_left fun hup => ?_
        rcases hup.state with heq | heq
        · exact state heq
        · exact hcut (kind heq)
      have hremove := (h.take can).remove hdown
      rwa [List.append_assoc] at hremove
  | @down ps stack user =>
      have hup := h.destroying (by simp [stack])
      have hps : .destroying ∉ .down :: ps := by
        intro hmem
        rcases List.mem_cons.mp hmem with heq | hmem
        · cases heq
        · cases user _ hmem
      have hgo := h.goDown [] hup hup.goDown rfl hps (by simp)
      rwa [List.append_nil] at hgo
  | @finished ps stack =>
      have hdown := (h.down (by simp [stack])).1
      exact (h.remove hdown).goOn rfl Iff.rfl h.first
        (fun hmem => Or.inl (stack ▸ List.mem_cons_of_mem _ hmem))
        (fun hmem => stack ▸ List.mem_cons_of_mem _ hmem) id
  | shutdown given =>
      have hpast : .connectEstablished ∉ a.functors := by
        intro hmem
        rw [h.new hmem] at given
        exact given rfl
      refine h.setLife hpast Lifecycle.IsUp.shutdown (fun hdown => ?_) (fun hmem => ?_) ?_
      · rwa [hdown.shutdown]
      · rw [(h.down hmem).1.shutdown]
        exact (h.down hmem).2
      · simp
  | disconnecting _ given late =>
      have hpast : .connectEstablished ∉ a.functors := by
        intro hmem
        rw [h.new hmem] at given
        exact given rfl
      exact h.setLife hpast (fun hup => ⟨hup.reports, hup.interest, Or.inr rfl⟩)
        (fun hdown => ⟨hdown.reports, hdown.interest, Or.inr rfl⟩)
        (fun hmem => absurd (late hmem) hlate) id
  | lost _ _ => exact h.goOn rfl Iff.rfl h.first Or.inl id id

/-- Past `connectDestroyed` the state stays, but for `shutdown()` in other
threads. -/
theorem Reported.state_move (h : Reported a) (hcut : ¬K .cutShort) (hset : ¬K .setting) {n : Nat}
    (hstate : n < a.history.count .destroyed → a.life.state = .kDisconnected)
    (hm : Move K a b) (hn : n < b.history.count .destroyed) : b.life.state = .kDisconnected := by
  cases hm with
  | @established fs life functors _ _ =>
      have hold : n < a.history.count .destroyed := by simpa using hn
      have hdown := (h.destroyed (List.count_pos_iff.mp (Nat.zero_lt_of_lt hold))).1
      rw [h.new (by rw [functors]; exact List.mem_cons_self ..)] at hdown
      exact absurd hdown Lifecycle.not_down_new
  | close _ _ _ result =>
      obtain ⟨_, rfl⟩ := Lifecycle.handleClose_ok result
      rfl
  | destroyed can state kind =>
      rcases h.past (can.past h.first).1 with hup | hdown
      · rcases hup.state with heq | heq
        · exact absurd heq state
        · exact absurd (kind heq) hcut
      · exact hdown.state.resolve_right fun heq => hcut (kind heq)
  | down _ _ => rfl
  | finished stack => exact (h.down (by simp [stack])).2
  | shutdown _ =>
      have hold := hstate hn
      rcases a.life.state_shutdown with heq | ⟨hup, _⟩
      · exact heq.trans hold
      · rw [hold] at hup
        cases hup
  | disconnecting kind _ _ => exact absurd kind hset
  | returned _ _ => exact hstate hn
  | removing _ => exact hstate hn
  | lost _ _ => exact hstate hn
  | read _ _ => exact hstate (by simpa using hn)
  | removed _ _ => exact hstate (by simpa using hn)
  | closed _ => exact hstate (by simpa using hn)
  | dropped _ _ => exact hstate (by simpa using hn)
  | destroying _ _ => exact hstate (by simpa using hn)

/-! ## Whole runs -/

variable {Tid : Type} {s s' : TcpServer Tid} {e : Event Tid} {c : Nat}

/-- The side condition on events: `connectDestroyed` does not find
`kDisconnecting`, and `shutdown()` in another thread does not set it once
`connectDestroyed` has set `kDisconnected` and is in `connectionCallback_`. -/
def Prompt (s : TcpServer Tid) (e : Event Tid) : Prop :=
  (∀ c, s.destroys e = some c → (s.conn c).life.state ≠ .kDisconnecting) ∧
    ∀ t c, e = .shutdownSet t c → .down ∉ (s.account c).stack

theorem Prompt.not_cutShort (h : s.Prompt e) : ¬s.irregular e .cutShort := by
  rintro ⟨c, hdestroys, hstate⟩
  exact h.1 c hdestroys hstate

theorem Prompt.not_late (h : s.Prompt e) : ¬s.irregular e .late := by
  rintro ⟨t, c, heq, hmem⟩
  exact h.2 t c heq hmem

theorem history_setLife {c' : Nat} {life : Lifecycle} :
    ((s.setLife c' life).account c).history = (s.account c).history := by
  by_cases h : c = c'
  · rw [h, account_setLife_self]
  · rw [account_setLife_ne h]

/-- The `connectDestroyed` of a connection returns. -/
def Returns (s s' : TcpServer Tid) (c : Nat) : Prop :=
  c < s'.created ∧
    (s.account c).history.count .destroyed < (s'.account c).history.count .destroyed

/-- A `connectDestroyed` that finds `kDisconnecting` leaves it so. -/
theorem connectDestroyed_cutShort {l : Nat} (h : s.connectDestroyed l c = .ok s')
    (hstate : (s.account c).life.state = .kDisconnecting) :
    (s.account c).history.count .destroyed < (s'.account c).history.count .destroyed ∧
      (s'.account c).life.state = .kDisconnecting := by
  obtain ⟨_, ⟨hup, _⟩ | ⟨_, rfl⟩⟩ := connectDestroyed_ok h
  · rw [show (s.account c).life = (s.conn c).life from rfl, hup] at hstate
    cases hstate
  · rw [account_remove, account_record_self]
    refine ⟨?_, hstate⟩
    simp

variable [DecidableEq Tid]

theorem reported_reachable (hs : (system.guarded Prompt).Reachable s) (hc : c < s.created) :
    Reported (s.account c) := by
  refine account_invariant (K := fun k => k ≠ .cutShort ∧ k ≠ .late) reported_fresh
    (fun a b h hm => h.move (fun hk => hk.1 rfl) (fun hk => hk.2 rfl) hm)
    (fun s e _ hC k hk => ⟨?_, ?_⟩) hs hc
  · rintro rfl
    exact hC.not_cutShort hk
  · rintro rfl
    exact hC.not_late hk

/-- **Every connection is reported up once and down once**, if `connectDestroyed`
finds no connection in `kDisconnecting` and no `shutdown()` is late. -/
theorem reported_up_and_down (hs : (system.guarded Prompt).Reachable s)
    (he : s.enabled e = true) (hC : s.Prompt e) (hn : s.next e = .ok s') (hret : s.Returns s' c) :
    (s'.conn c).life.ReportedOnce := by
  obtain ⟨hc, hcount⟩ := hret
  have hset : ¬s.irregular e .setting := by
    rintro ⟨t, c', rfl⟩
    cases hn
    have hsame : ((s.setLife c' (s.conn c').life.setDisconnecting).account c).history =
      (s.account c).history := history_setLife
    exact Nat.lt_irrefl _ (hsame ▸ hcount)
  have hreported := reported_reachable (hs.step ⟨he, hC⟩ hn) hc
  have hmem : .destroyed ∈ (s'.account c).history :=
    List.count_pos_iff.mp (Nat.zero_lt_of_lt hcount)
  obtain ⟨hdown, hemptied⟩ := hreported.destroyed hmem
  have hsteps := steps_of_next (placed_reachable hs.of_guarded) he hn hc
  have horigin : Reported (s.origin c) ∧
      ((s.account c).history.count .destroyed < (s.origin c).history.count .destroyed →
        (s.origin c).life.state = .kDisconnected) := by
    unfold origin
    split
    · rename_i hold
      exact ⟨reported_reachable hs hold, fun hlt => absurd hlt (Nat.lt_irrefl _)⟩
    · exact ⟨reported_fresh, fun hlt => absurd hlt (Nat.not_lt_zero _)⟩
  have hboth := hsteps.invariant
    (I := fun a => Reported a ∧ ((s.account c).history.count .destroyed <
      a.history.count .destroyed → a.life.state = .kDisconnected))
    (fun a b hI hm => ⟨hI.1.move hC.not_cutShort hC.not_late hm,
      hI.1.state_move hC.not_cutShort hset hI.2 hm⟩) horigin
  exact ⟨hdown.reports, hboth.2 hcount, hemptied⟩

/-- The side condition asks for no more than is needed of `connectDestroyed`: when it
finds `kDisconnecting`, it returns at once, and wrongly. -/
theorem not_reported_of_destroys (hs : system.Reachable s) (hdestroys : s.destroys e = some c)
    (hstate : (s.conn c).life.state = .kDisconnecting) (hn : s.next e = .ok s') :
    s.Returns s' c ∧ ¬(s'.conn c).life.ReportedOnce := by
  have hp := placed_reachable hs
  suffices h : c < s'.created ∧
      (s.account c).history.count .destroyed < (s'.account c).history.count .destroyed ∧
      (s'.account c).life.state = .kDisconnecting by
    refine ⟨⟨h.1, h.2.1⟩, fun hreported => ?_⟩
    have hstate' : (s'.conn c).life.state = .kDisconnecting := h.2.2
    rw [hreported.state] at hstate'
    cases hstate'
  cases e with
  | functor l =>
      simp only [destroys] at hdestroys
      split at hdestroys
      · rename_i c' fs hf
        obtain rfl := Option.some.inj hdestroys
        simp only [next, hf] at hn
        have hcreated := (effect_setFunctors.trans (effect_call hn)).created
        have hc := ((hp.loops l).functors _ (Batch.mem_queued_of_todo hf)).1
        refine ⟨hcreated ▸ hc, ?_⟩
        have hcut := connectDestroyed_cutShort (s := s.setFunctors l _) hn hstate
        exact hcut
      · cases hdestroys
  | step l =>
      simp only [destroys] at hdestroys
      split at hdestroys
      · rename_i fs name c' rest hs hm
        split at hdestroys
        · rename_i hl
          obtain rfl := Option.some.inj hdestroys
          simp only [next, step, hs, hm] at hn
          have hc := (hp.entries (name, c') (by rw [hm]; exact List.mem_cons_self ..)).2
          refine ⟨(effect_drop hn).created ▸ hc, ?_⟩
          rw [drop, runInLoop, if_pos hl] at hn
          have hcut := connectDestroyed_cutShort hn (by
            rw [account_record_self]
            exact hstate)
          rw [account_record_self, account_connections] at hcut
          simpa using hcut
        · cases hdestroys
      · cases hdestroys
  | _ => cases hdestroys

/-- The peer closes the connection. -/
theorem reported_up_and_down_closed : ∃ s : TcpServer Nat,
    (s.account 0).history = [.connectEstablished, .handleClose, .removeConnectionInLoop, .closed,
      .connectDestroyed, .destroyed] ∧ (s.conn 0).life.ReportedOnce := by
  let L : Lts (TcpServer Nat) (Event Nat) Fault := system.guarded Prompt
  have h₀ : L.Reachable (new [] [] 0) := .of_init ⟨[], [], 0, rfl⟩
  have h₁ := h₀.step (a := Event.newConnection)
    ⟨rfl, fun c h => (by cases h), fun t c h => (by cases h)⟩ rfl
  have h₂ := h₁.step (a := Event.step 0)
    ⟨rfl, fun c h => (by cases h), fun t c h => (by cases h)⟩ rfl
  have h₃ := h₂.step (a := Event.close 0)
    ⟨rfl, fun c h => (by cases h), fun t c h => (by cases h)⟩ rfl
  have h₄ := h₃.step (a := Event.step 0)
    ⟨rfl, fun c h => (by cases h), fun t c h => (by cases h)⟩ rfl
  have h₅ := h₄.step (a := Event.step 0)
    ⟨rfl, fun c h => (by cases h), fun t c h => (by cases h)⟩ rfl
  have h₆ := h₅.step (a := Event.swap 0)
    ⟨rfl, fun c h => (by cases h), fun t c h => (by cases h)⟩ rfl
  exact ⟨_, rfl, reported_up_and_down h₆ (e := .functor 0) rfl
    ⟨fun c h => (by cases h; decide), fun t c h => (by cases h)⟩ rfl ⟨by decide, by decide⟩⟩

/-- User code shuts the connection down when it comes up, and then destroys the
server. -/
theorem destroyed_while_up : ¬∀ (s s' : TcpServer Nat) (e : Event Nat) (c : Nat),
    system.Reachable s → s.enabled e = true → s.next e = .ok s' → s.Returns s' c →
      (s'.conn c).life.ReportedOnce := by
  intro h
  have h₀ : system.Reachable (new [] [] 0 : TcpServer Nat) := .of_init ⟨[], [], 0, rfl⟩
  have h₁ := h₀.step (a := Event.newConnection) rfl rfl
  have h₂ := h₁.step (a := Event.shutdown 0) rfl rfl
  have h₃ := h₂.step (a := Event.step 0) rfl rfl
  have h₄ := h₃.step (a := Event.destroy) rfl rfl
  have hdown := h _ _ (.step 0) 0 h₄ rfl rfl ⟨by decide, by decide⟩
  cases hdown.reports

end TcpServer

end Muduo
