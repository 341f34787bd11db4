import Muduo.Client.Slot

/-!
# Descriptor accounting in `Connector`

`connect()` opens a descriptor at each attempt. It leaves by one of seven
ways, and the law is the same for all: at every point of every run the
descriptors in the poller or in hand, those handed to `newConnectionCallback_`
and those closed are, together, the ones opened, each once (`Conserved`).

A descriptor is held by the connecting channel, or by `handleWrite` in the step
between taking it off that channel and giving it away. A stale slot holds none:
its descriptor has been taken off. A channel in the poller while `state_` is
not `kConnecting` is no longer looked at: a `restart()` in the middle of an
attempt leaves one behind, and its descriptor is forgotten for good
(`descriptor_forgotten`). Without that all are accounted for
(`descriptors_accounted`).
-/

namespace Muduo

open Lib

namespace Connector

variable {Tid G : Type} {s s' : Connector Tid G}

/-- In the local variable `sockfd` of `handleWrite`. -/
def Pc.inHand : Pc → List Nat
  | connected sockfd => [sockfd]
  | _ => []

/-- The descriptor of the channel in the poller. -/
def polled (s : Connector Tid G) : List Nat :=
  (s.channel.toList.filter Channel.registered).map Channel.fd

/-- The descriptor of the connecting channel. -/
def attempt (s : Connector Tid G) : List Nat :=
  if s.state = .kConnecting then s.polled else []

def held (s : Connector Tid G) : List Nat := s.attempt ++ s.pc.inHand

/-- Every descriptor opened is in one place, once. -/
def Accounted (s : Connector Tid G) : Prop :=
  (s.held ++ s.handed ++ s.closed).Perm (List.range s.opened)

def kept (s : Connector Tid G) : List Nat := s.polled ++ s.pc.inHand

/-- Every descriptor opened is in one place, once, those of channels that have
been left in the poller included. -/
def Conserved (s : Connector Tid G) : Prop :=
  (s.kept ++ s.handed ++ s.closed).Perm (List.range s.opened)

theorem conserved_new : Conserved (new : Connector Tid G) := .refl _

theorem polled_registered {sockfd : Nat} (h : s.channel = some ⟨sockfd, true⟩) :
    s.polled = [sockfd] := by
  rw [polled, h]
  rfl

theorem polled_eq_nil (h : s.isRegistered = false) : s.polled = [] := by
  unfold isRegistered at h
  unfold polled
  cases hc : s.channel with
  | none => rfl
  | some ch =>
      rw [hc, Option.any_some] at h
      rw [Option.toList_some, List.filter_singleton, h]
      rfl

theorem inHand_entry {pc : Pc} (h : pc.isEntry = true) : pc.inHand = [] := by
  cases pc with
  | connected sockfd => cases h
  | _ => rfl

/-- Nothing is opened, kept, handed over or closed. -/
theorem Conserved.congr (h : Conserved s) (hkept : s'.kept = s.kept)
    (hhanded : s'.handed = s.handed) (hclosed : s'.closed = s.closed)
    (hopened : s'.opened = s.opened) : Conserved s' := by
  unfold Conserved
  rw [hkept, hhanded, hclosed, hopened]
  exact h

/-- The kept descriptor is closed. -/
theorem Conserved.close (h : Conserved s) {sockfd : Nat} (hkept : s.kept = [sockfd])
    (hkept' : s'.kept = []) (hhanded : s'.handed = s.handed)
    (hclosed : s'.closed = s.closed ++ [sockfd]) (hopened : s'.opened = s.opened) :
    Conserved s' := by
  unfold Conserved at h ⊢
  rw [hkept] at h
  rw [hkept', hhanded, hclosed, hopened]
  refine .trans ?_ h
  rw [List.nil_append, ← List.append_assoc]
  exact List.perm_append_comm

/-- The kept descriptor is handed over. -/
theorem Conserved.hand (h : Conserved s) {sockfd : Nat} (hkept : s.kept = [sockfd])
    (hkept' : s'.kept = []) (hhanded : s'.handed = s.handed ++ [sockfd])
    (hclosed : s'.closed = s.closed) (hopened : s'.opened = s.opened) : Conserved s' := by
  unfold Conserved at h ⊢
  rw [hkept] at h
  rw [hkept', hhanded, hclosed, hopened]
  refine .trans ?_ h
  rw [List.nil_append]
  exact List.perm_append_comm.append_right _

/-- A descriptor is opened, and kept by a new channel or closed. -/
theorem Conserved.open (h : Conserved s) (hplace :
      (s.kept = [] ∧ s'.kept = [s.opened] ∧ s'.closed = s.closed) ∨
        (s'.kept = s.kept ∧ s'.closed = s.closed ++ [s.opened]))
    (hhanded : s'.handed = s.handed) (hopened : s'.opened = s.opened + 1) : Conserved s' := by
  unfold Conserved at h ⊢
  rw [hhanded, hopened, List.range_succ]
  rcases hplace with ⟨hkept, hkept', hclosed⟩ | ⟨hkept, hclosed⟩
  · rw [hkept, List.nil_append] at h
    rw [hkept', hclosed, List.append_assoc]
    exact List.perm_append_comm.trans (h.append_right _)
  · rw [hkept, hclosed, ← List.append_assoc]
    exact h.append_right _

/-! ## Steps -/

/-- While the channel is in the poller it holds the only descriptor in hand. -/
theorem kept_polled {sockfd : Nat} (hc : s.channel = some ⟨sockfd, true⟩)
    (hpc : s.pc.inHand = []) : s.kept = [sockfd] := by
  rw [kept, polled_registered hc, hpc]
  rfl

theorem Conserved.step (h : Conserved s) (hd : s.pc.inHand ≠ [] → s.isRegistered = false)
    (m : Step s s') : Conserved s' := by
  cases m with
  | start hpc _ =>
      refine h.congr ?_ rfl rfl rfl
      rw [kept, kept, hpc]
      cases s.connect_ <;> rfl
  | drop hpc _ hc =>
      have hnone : s.pc.inHand = [] := by
        rcases hpc with ⟨hpc, -⟩ | hpc | ⟨w, hpc, -⟩ <;> rw [hpc] <;> rfl
      exact h.close (kept_polled hc hnone) rfl rfl rfl rfl
  | stopped hpc _ =>
      refine h.congr ?_ rfl rfl rfl
      rw [kept, kept, hpc]
      rfl
  | write hpc _ =>
      refine h.congr ?_ rfl rfl rfl
      rw [kept, kept, hpc]
      rfl
  | succeed hpc _ hc =>
      refine h.congr ?_ rfl rfl rfl
      rw [kept_polled hc (by rw [hpc]; rfl)]
      rfl
  | @retry write hpc =>
      have hpolled : (s.runAfter.goTo (write.elim .idle .handleWrite)).polled = s.polled :=
        congrArg (fun c => (c.toList.filter Channel.registered).map Channel.fd) channel_runAfter
      have hnone : (write.elim Pc.idle .handleWrite).inHand = [] := by cases write <;> rfl
      refine h.congr ?_ ?_ ?_ ?_
      · rw [kept, hpolled, kept, hpc]
        exact congrArg (s.polled ++ ·) hnone
      · unfold runAfter; split <;> rfl
      · unfold runAfter; split <;> rfl
      · unfold runAfter; split <;> rfl
  | @established sockfd hpc =>
      have hpolled := polled_eq_nil (hd (by rw [hpc]; simp [Pc.inHand]))
      have hkept : s.kept = [sockfd] := by
        rw [kept, hpolled, hpc]
        rfl
      have hkept' : (s.goTo .idle).kept = [] := by
        rw [kept]
        exact congrArg (· ++ _) hpolled
      unfold established
      split
      · exact h.hand hkept hkept' rfl rfl rfl
      · exact h.close hkept hkept' rfl rfl rfl

theorem Conserved.connect (h : Conserved s) (hpc : s.pc = .connect) {e : Errno}
    (m : Opens s e s') : Conserved s' := by
  have hnone : s.pc.inHand = [] := by rw [hpc]; rfl
  have hkept : s.kept = s.polled := by rw [kept, hnone, List.append_nil]
  cases m with
  | connecting _ hc =>
      have hpolled : s.polled = [] := by rw [polled, hc]; rfl
      exact h.open (.inl ⟨hkept.trans hpolled, rfl, rfl⟩) rfl rfl
  | retry _ =>
      refine h.open (.inr ⟨?_, rfl⟩) rfl rfl
      rw [hkept]
      exact List.append_nil _
  | close _ =>
      refine h.open (.inr ⟨?_, rfl⟩) rfl rfl
      rw [hkept]
      exact List.append_nil _

variable {a : Event Tid G}

/-- Nothing is in the poller while a descriptor is in the hands of
`handleWrite`. -/
def HandFree (s : Connector Tid G) : Prop := s.pc.inHand ≠ [] → s.isRegistered = false

theorem HandFree.of_nil (h : s.pc.inHand = []) : HandFree s := fun hne => absurd h hne

theorem handFree_move (h : HandFree s) (m : Move s a s') : HandFree s' := by
  cases m with
  | step m =>
      cases m with
      | start _ _ => exact .of_nil (by cases s.connect_ <;> rfl)
      | drop _ _ _ => exact .of_nil rfl
      | stopped _ _ => exact .of_nil rfl
      | write _ _ => exact .of_nil rfl
      | succeed _ _ _ => exact fun _ => rfl
      | @retry write _ => exact .of_nil (by cases write <;> rfl)
      | established _ => exact .of_nil (by unfold established; split <;> rfl)
  | connect _ m => cases m <;> exact .of_nil rfl
  | reset hpc _ => exact .of_nil (congrArg Pc.inHand hpc)
  | restart _ => exact .of_nil rfl
  | quiet f =>
      intro hne
      rcases f.pc with hpc | ⟨-, hentry⟩
      · rw [hpc] at hne
        rw [isRegistered, f.channel]
        exact h hne
      · exact absurd (inHand_entry hentry) hne

/-- **One event** keeps the account. -/
theorem Conserved.move (h : Conserved s) (hd : Deferred s) (hf : HandFree s) (m : Move s a s') :
    Conserved s' := by
  cases m with
  | step m => exact h.step hf m
  | connect hpc m => exact h.connect hpc m
  | reset hpc hr =>
      -- the slot is stale: what is destroyed holds nothing
      have hresets : s.resets ≠ 0 := by
        rw [resets_advance hr]
        exact Nat.succ_ne_zero _
      have hpolled := polled_eq_nil (not_registered_of_stale (hd.stale_of_resets hresets))
      refine h.congr ?_ rfl rfl rfl
      rw [kept, kept, hpolled]
      rfl
  | restart hpc =>
      refine h.congr ?_ rfl rfl rfl
      rw [kept, kept, hpc]
      rfl
  | quiet f =>
      refine h.congr ?_ f.handed f.closed f.opened
      rw [kept, kept, polled, polled, f.channel]
      rcases f.pc with hpc | ⟨hpc, hentry⟩
      · rw [hpc]
      · rw [inHand_entry hentry, hpc]
        rfl

/-! ## A channel left behind -/

/-- The side condition on events: `restart()` is not called in the middle of an
attempt. -/
def KeepsAttempt (s : Connector Tid G) : Event Tid G → Prop
  | .restart => s.state ≠ .kConnecting
  | _ => True

/-- What is in the poller is connecting. -/
theorem Conserved.accounted (h : Conserved s) (ha : Agrees s) : Accounted s := by
  have hattempt : s.attempt = s.polled := by
    unfold attempt
    split
    · rfl
    · rename_i hstate
      exact (polled_eq_nil (ha.not_registered hstate)).symm
  unfold Accounted
  rw [held, hattempt]
  exact h

/-- A channel is in the poller, and no attempt under way. -/
def Abandoned (s : Connector Tid G) : Prop := s.isRegistered = true ∧ s.state ≠ .kConnecting

/-- Its descriptor is in none of the places. -/
theorem Abandoned.not_accounted (h : Abandoned s) (hc : Conserved s) : ¬Accounted s := by
  intro hacc
  have hattempt : s.attempt = [] := if_neg h.2
  have hpolled : s.polled.length = 1 := by
    obtain ⟨hreg, -⟩ := h
    rw [isRegistered] at hreg
    rw [polled]
    cases hch : s.channel with
    | none =>
        rw [hch] at hreg
        cases hreg
    | some ch =>
        rw [hch, Option.any_some] at hreg
        rw [Option.toList_some, List.filter_singleton, hreg]
        rfl
  have hlen := hc.length_eq.trans hacc.length_eq.symm
  rw [kept, held, hattempt, List.nil_append] at hlen
  simp only [List.length_append] at hlen
  omega

theorem Abandoned.congr (h : Abandoned s) (hchannel : s'.channel = s.channel)
    (hstate : s'.state = s.state) : Abandoned s' := by
  rw [Abandoned, isRegistered, hchannel, hstate]
  exact h

/-- **One event** leaves it there: the functions of an attempt do nothing, and
a new one fails its assertion in `connecting()` or goes without a channel. -/
theorem Abandoned.move (h : Abandoned s) (hd : Deferred s) (m : Move s a s') : Abandoned s' := by
  cases m with
  | step m =>
      cases m with
      | start _ _ => exact h.congr rfl rfl
      | drop _ hstate _ => exact absurd hstate h.2
      | stopped _ _ => exact h.congr rfl rfl
      | write _ _ => exact h.congr rfl rfl
      | succeed _ hstate _ => exact absurd hstate h.2
      | @retry write _ =>
          have hstate : s.runAfter.state = s.state := by unfold runAfter; split <;> rfl
          exact h.congr channel_runAfter hstate
      | established _ => unfold established; split <;> exact h.congr rfl rfl
  | connect _ m =>
      cases m with
      | connecting _ hc =>
          have hreg := h.1
          rw [isRegistered, hc] at hreg
          cases hreg
      | retry _ => exact ⟨h.1, by simp [retry, goTo, setState]⟩
      | close _ => exact h.congr rfl rfl
  | reset _ hr =>
      have hresets : s.resets ≠ 0 := by
        rw [resets_advance hr]
        exact Nat.succ_ne_zero _
      have hreg := not_registered_of_stale (hd.stale_of_resets hresets)
      rw [h.1] at hreg
      cases hreg
  | restart _ => exact ⟨h.1, by simp [restart, setState]⟩
  | quiet f => exact h.congr f.channel f.state

/-! ## Whole runs -/

/-- What holds in every reachable state. -/
structure Books (s : Connector Tid G) : Prop where
  deferred : Deferred s
  handFree : HandFree s
  conserved : Conserved s

theorem books_new : Books (new : Connector Tid G) := ⟨deferred_new, .of_nil rfl, conserved_new⟩

theorem Books.move (h : Books s) (m : Move s a s') : Books s' :=
  ⟨h.deferred.move m, handFree_move h.handFree m, h.conserved.move h.deferred h.handFree m⟩

variable [DecidableEq Tid]

theorem books_reachable (hs : system.Reachable s) : Books s := by
  have hinv : (system : Lts (Connector Tid G) _ _).Invariant Books := {
    init := by
      rintro s hs
      rw [show s = new from hs]
      exact books_new
    step := fun s a s' h he hn => h.move (move_of_next he hn) }
  exact hinv.reachable hs

theorem Abandoned.run (h : Abandoned s) (hb : Books s) {as : List (Event Tid G)}
    (hrun : system.Run s as s') : Abandoned s' ∧ Books s' := by
  refine hrun.invariant (I := fun s => Abandoned s ∧ Books s) ?_ ⟨h, hb⟩
  rintro s a s' ⟨h, hb⟩ he hn
  have m := move_of_next he hn
  exact ⟨h.move hb.deferred m, hb.move m⟩

/-- **No descriptor is lost, closed twice or closed after it was given away**,
in any run up to the first failed assertion in which no attempt is restarted;
and once one has been, its descriptor is lost for good. -/
theorem descriptors_accounted (hs : (system.guarded KeepsAttempt).Reachable s) :
    (s.held ++ s.handed ++ s.closed).Perm (List.range s.opened) ∧
      ∀ a s', s.enabled a = true → ¬s.KeepsAttempt a → s.next a = .ok s' →
        ∀ (as : List (Event Tid G)) s'', system.Run s' as s'' →
          ¬(s''.held ++ s''.handed ++ s''.closed).Perm (List.range s''.opened) := by
  have hbooks := books_reachable hs.of_guarded
  have hagrees := agrees_reachable (fun _ hC => hC) hs
  refine ⟨hbooks.conserved.accounted hagrees, fun a s' he hC hn as s'' hrun => ?_⟩
  have hbooks' := hbooks.move (move_of_next he hn)
  have habandoned : Abandoned s' := by
    cases a with
    | restart =>
        cases hn
        exact ⟨hagrees.registered.mpr (not_not.mp hC), by simp [restart, setState]⟩
    | _ => exact absurd trivial hC
  obtain ⟨habandoned, hbooks''⟩ := habandoned.run hbooks' hrun
  exact habandoned.not_accounted hbooks''.conserved

/-- An attempt that is refused, and one that is under way. -/
theorem descriptors_accounted_twice : ∃ s : Connector Nat Unit,
    s.closed = [0] ∧ s.held = [1] ∧
      (s.held ++ s.handed ++ s.closed).Perm (List.range s.opened) := by
  let L : Lts (Connector Nat Unit) (Event Nat Unit) Fault := system.guarded KeepsAttempt
  have h₀ : L.Reachable new := .of_init rfl
  have h₁ := h₀.step (a := Event.start .loop) ⟨rfl, trivial⟩ rfl
  have h₂ := h₁.step (a := Event.step) ⟨rfl, trivial⟩ rfl
  have h₃ := h₂.step (a := Event.connect .ECONNREFUSED) ⟨rfl, trivial⟩ rfl
  have h₄ := h₃.step (a := Event.step) ⟨rfl, trivial⟩ rfl
  have h₅ := h₄.step (a := Event.timer 0) ⟨rfl, trivial⟩ rfl
  have h₆ := h₅.step (a := Event.step) ⟨rfl, trivial⟩ rfl
  have h₇ := h₆.step (a := Event.connect .EINPROGRESS) ⟨rfl, trivial⟩ rfl
  exact ⟨_, rfl, rfl, (descriptors_accounted h₇).1⟩

/-- `restart()` while connecting, and a new attempt that is not to be retried:
the first descriptor stays in a channel that nothing looks at. -/
theorem descriptor_forgotten : ¬∀ s : Connector Nat Unit, system.Reachable s →
    (s.held ++ s.handed ++ s.closed).Perm (List.range s.opened) := by
  intro h
  let L : Lts (Connector Nat Unit) (Event Nat Unit) Fault := system
  have h₀ : L.Reachable new := .of_init rfl
  have h₁ := h₀.step (a := Event.start .loop) rfl rfl
  have h₂ := h₁.step (a := Event.step) rfl rfl
  have h₃ := h₂.step (a := Event.connect .EINPROGRESS) rfl rfl
  have h₄ := h₃.step (a := Event.restart) rfl rfl
  have h₅ := h₄.step (a := Event.step) rfl rfl
  have h₆ := h₅.step (a := Event.connect .EACCES) rfl rfl
  exact absurd (h _ h₆) (by decide)

end Connector

end Muduo
