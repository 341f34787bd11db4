import Muduo.EventLoop.Polls

/-!
# Which entries are polled

`updateChannel` tells `poll(2)` to leave an entry alone by setting its `fd`
to -1, on the branch of a channel that is in the tables already. Nothing sets
it back, and the branch of a new channel does not set it at all: a channel
that is updated with an empty mask and then with another is not polled again
(`not_polled_again`), and one whose first mask is empty is polled for
nothing.

`last` is a record for the theorems and not in the code: each channel's mask
at its last update.
-/

namespace Muduo

open Lib

namespace Poller

open Channel (kNoneEvent)

/-- The channel's entry in `pollfds_`. -/
def entryOf {ι : Type} (p : Poller ι) (c : ι) : Option PollFd :=
  p.pollfds[(p.channel c).index.toNat]?

/-- A poller, and the masks it was last given. -/
structure Watched (ι : Type) where
  poller : Poller ι
  last : ι → Int

namespace Watched

variable {ι : Type} [DecidableEq ι] (D : Descriptors ι)

def new : Watched ι := ⟨.new, fun _ => kNoneEvent⟩

def recorded (w : Watched ι) : Event ι → ι → Int
  | .updateChannel c => Function.update w.last c (w.poller.channel c).events
  | .setEvents _ _ => w.last
  | .poll _ _ => w.last

def next (w : Watched ι) (a : Event ι) : Except Fault (Watched ι) := do
  let p ← w.poller.next D a
  return ⟨p, w.recorded a⟩

/-- The poller under any calls, changes of masks and polls. -/
def watched : Lts (Watched ι) (Event ι) Fault where
  init w := w = new
  enabled w a := w.poller.enabled a
  next := next D

instance (w : Watched ι) (a : Event ι) : Decidable ((watched D).enabled w a) :=
  inferInstanceAs (Decidable ((Poller.poller D).enabled w.poller a))

/-- The entry is as the mask wants it: ignored if that is empty, and else the
channel's descriptor with that mask. -/
def Right (fd mask : Int) (pfd : PollFd) : Prop :=
  if mask = kNoneEvent then pfd.fd = -1 else pfd.fd = fd ∧ pfd.events = mask

instance (fd mask : Int) (pfd : PollFd) : Decidable (Right fd mask pfd) :=
  inferInstanceAs (Decidable (ite _ _ _))

/-- The entry of every channel in the tables is right for its last mask. -/
def Polled (w : Watched ι) : Prop :=
  ∀ c, 0 ≤ (w.poller.channel c).index →
    ∃ pfd, w.poller.entryOf c = some pfd ∧ Right (D.fd c) (w.last c) pfd

/-- A channel's mask at an update fits in a `short`; it is not empty the first
time; and it is empty again once it has been. -/
def Lasting (w : Watched ι) : Event ι → Prop
  | .updateChannel c =>
      let mask := (w.poller.channel c).events
      toShort mask = mask ∧
        if (w.poller.channel c).index < 0 then mask ≠ kNoneEvent
        else w.last c = kNoneEvent → mask = kNoneEvent
  | _ => True

instance (w : Watched ι) (a : Event ι) : Decidable (w.Lasting a) :=
  match a with
  | .updateChannel _ => inferInstanceAs (Decidable (_ ∧ ite _ _ _))
  | .setEvents _ _ => instDecidableTrue
  | .poll _ _ => instDecidableTrue

instance (w : Watched ι) (a : Event ι) :
    Decidable (((watched D).guarded Lasting).enabled w a) :=
  inferInstanceAs (Decidable (_ ∧ _))

/-! ## One entry -/

variable {D} {fd mask : Int}

theorem right_added (hfd : 0 ≤ fd) :
    Right fd mask ⟨fd, toShort mask, 0⟩ ↔ toShort mask = mask ∧ mask ≠ kNoneEvent := by
  unfold Right
  by_cases hnone : mask = kNoneEvent
  · rw [if_pos hnone]
    exact ⟨fun h => by simp only at h; omega, fun h => absurd hnone h.2⟩
  · rw [if_neg hnone]
    exact ⟨fun h => ⟨h.2, hnone⟩, fun h => ⟨rfl, h.1⟩⟩

/-- An entry once ignored stays ignored. -/
theorem right_updated {channel : Channel} {last : Int} {pfd : PollFd} (hfd : 0 ≤ fd)
    (h : Right fd last pfd) : Right fd channel.events (updatedEntry channel pfd) ↔
      toShort channel.events = channel.events ∧
        (last = kNoneEvent → channel.events = kNoneEvent) := by
  unfold Right updatedEntry
  by_cases hnone : channel.events = kNoneEvent
  · have hempty : channel.isNoneEvent = true := beq_iff_eq.mpr hnone
    rw [if_pos hnone, if_pos hempty, hnone]
    exact ⟨fun _ => ⟨by decide, fun _ => rfl⟩, fun _ => rfl⟩
  · have hempty : ¬channel.isNoneEvent = true := fun h => hnone (beq_iff_eq.mp h)
    rw [if_neg hnone, if_neg hempty]
    unfold Right at h
    dsimp only
    constructor
    · rintro ⟨hentry, hshort⟩
      refine ⟨hshort, fun hlast => ?_⟩
      rw [if_pos hlast] at h
      omega
    · rintro ⟨hshort, hlast⟩
      rw [if_neg fun heq => hnone (hlast heq)] at h
      exact ⟨h.1, hshort⟩

/-! ## One event -/

variable {p p' : Poller ι} {w w' : Watched ι} {c c' : ι}

theorem index_of_other (h : p.Consistent D) (hn : p.updateChannel D c = .ok p') (hc : c' ≠ c) :
    (p'.channel c').index = (p.channel c').index ∧
      (0 ≤ (p.channel c').index → p'.entryOf c' = p.entryOf c') := by
  obtain ⟨-, -, heq⟩ | ⟨i, pfd, hi, -, heq⟩ := updateChannel_cases h c
  · obtain rfl := Except.ok.inj (heq.symm.trans hn)
    have hsame : Function.update p.channel c
        { p.channel c with index := p.pollfds.length } c' = p.channel c' :=
      Function.update_of_ne hc ..
    refine ⟨congrArg Channel.index hsame, fun hpos => ?_⟩
    have hlt := h.index_lt c'
    simp only [entryOf, hsame]
    exact List.getElem?_append_left (by omega)
  · obtain rfl := Except.ok.inj (heq.symm.trans hn)
    refine ⟨rfl, fun hpos => ?_⟩
    have hne : i ≠ (p.channel c').index.toNat := by
      intro heq
      exact hc (h.distinct c' c hpos (by omega))
    exact List.getElem?_set_ne hne

/-- After a call, the entry of the channel is right exactly if the call meets
the condition. -/
theorem right_of_self (h : p.Consistent D) {last : ι → Int} (hp : (⟨p, last⟩ : Watched ι).Polled D)
    (hn : p.updateChannel D c = .ok p') :
    0 ≤ (p'.channel c).index ∧ ∃ pfd, p'.entryOf c = some pfd ∧
      (Right (D.fd c) (p.channel c).events pfd ↔
        (⟨p, last⟩ : Watched ι).Lasting (.updateChannel c)) := by
  obtain ⟨hneg, -, heq⟩ | ⟨i, pfd, hi, hget, heq⟩ := updateChannel_cases h c
  · obtain rfl := Except.ok.inj (heq.symm.trans hn)
    simp only [entryOf, Function.update_self, Int.toNat_natCast, List.getElem?_concat_length,
      Lasting, if_pos hneg]
    exact ⟨Int.natCast_nonneg _, _, rfl, right_added (D.fd_nonneg c)⟩
  · obtain rfl := Except.ok.inj (heq.symm.trans hn)
    have hpos : ¬(p.channel c).index < 0 := by omega
    have hlt : i < p.pollfds.length := (List.getElem?_eq_some_iff.mp hget).1
    have hnat : (p.channel c).index.toNat = i := by omega
    obtain ⟨pfd', hpfd', hright⟩ := hp c (Int.not_lt.mp hpos)
    simp only [entryOf, hnat] at hpfd'
    obtain rfl := Option.some.inj (hget.symm.trans hpfd')
    simp only [entryOf, hnat, Lasting, if_neg hpos, List.getElem?_set_self hlt]
    exact ⟨Int.not_lt.mp hpos, _, rfl, right_updated (D.fd_nonneg c) hright⟩

theorem polled_update_iff (h : w.poller.Consistent D) (hp : w.Polled D)
    (hn : w.next D (.updateChannel c) = .ok w') :
    w'.Polled D ↔ w.Lasting (.updateChannel c) := by
  obtain ⟨p', hp', hw'⟩ := bind_eq_ok hn
  obtain rfl := Except.ok.inj hw'
  have hw : (⟨w.poller, w.last⟩ : Watched ι).Polled D := hp
  obtain ⟨hpos, pfd, hpfd, hright⟩ := right_of_self h hw hp'
  refine Iff.trans ⟨fun hall => ?_, fun hc c' hc' => ?_⟩ hright
  · obtain ⟨pfd', hpfd', hright'⟩ := hall c hpos
    obtain rfl := Option.some.inj (hpfd.symm.trans hpfd')
    simpa only [recorded, Function.update_self] using hright'
  · by_cases hself : c' = c
    · subst hself
      refine ⟨pfd, hpfd, ?_⟩
      simpa only [recorded, Function.update_self] using hc
    · obtain ⟨hindex, hentry⟩ := index_of_other h hp' hself
      dsimp only at hc' ⊢
      rw [hindex] at hc'
      rw [hentry hc']
      simp only [recorded, Function.update_of_ne hself]
      exact hp c' hc'

theorem polled_setEvents (hp : w.Polled D) (hn : w.next D (.setEvents c mask) = .ok w') :
    w'.Polled D := by
  cases hn
  intro c' hc'
  have hindex : ((w.poller.setEvents c mask).channel c').index = (w.poller.channel c').index := by
    simp only [setEvents, setChannel, Function.update_apply]
    split
    · rename_i heq
      rw [heq]
    · rfl
  dsimp only [entryOf] at hc' ⊢
  rw [hindex] at hc' ⊢
  exact hp c' hc'

theorem polled_poll {revents : List Int} {numEvents : Int} (h : w.poller.Consistent D)
    (he : w.poller.enabled (.poll revents numEvents)) (hp : w.Polled D)
    (hn : w.next D (.poll revents numEvents) = .ok w') : w'.Polled D := by
  obtain ⟨p', hp', hw'⟩ := bind_eq_ok hn
  obtain rfl := Except.ok.inj hw'
  obtain ⟨active, hpoll⟩ := poll_of_next hp'
  obtain ⟨hpfds, -, hkeep⟩ := poll_keeps h he.2 hpoll
  intro c hc
  dsimp only [entryOf] at hc ⊢
  rw [(hkeep c).1] at hc ⊢
  obtain ⟨pfd, hpfd, hright⟩ := hp c hc
  have hlt : (w.poller.channel c).index.toNat < revents.length :=
    he.1 ▸ (List.getElem?_eq_some_iff.mp hpfd).1
  refine ⟨{ pfd with revents := revents[(w.poller.channel c).index.toNat] }, ?_, hright⟩
  rw [hpfds, getElem?_setRevents]
  exact ⟨pfd, _, hpfd, List.getElem?_eq_getElem hlt, rfl⟩

/-! ## Every history -/

theorem watched_invariant (D : Descriptors ι) : ((watched D).guarded Lasting).Invariant
    fun w => w.poller.Consistent D ∧ w.Polled D where
  init w hw := by
    obtain rfl : w = new := hw
    have hneg : ¬(0 : Int) ≤ -1 := by decide
    exact ⟨consistent_new, fun c hc => absurd hc hneg⟩
  step w a w' h he hn := by
    obtain ⟨p', hp', hw'⟩ := bind_eq_ok hn
    refine ⟨?_, ?_⟩
    · obtain rfl := Except.ok.inj hw'
      exact (consistent_invariant D).step _ _ _ h.1 he.1 hp'
    · cases a with
      | updateChannel c => exact (polled_update_iff h.1 h.2 hn).mpr he.2
      | setEvents c mask => exact polled_setEvents h.2 hn
      | poll revents numEvents => exact polled_poll h.1 he.1 h.2 hn

/-- After every call that meets the condition, if all before it did, each
channel in the tables is polled for its last mask, and for nothing if that is
empty; the first call that does not meet it leaves an entry that is wrong. -/
theorem polled_for_mask (D : Descriptors ι) {w : Watched ι}
    (hw : ((watched D).guarded Lasting).Reachable w) :
    w.Polled D ∧ ∀ c w', w.next D (.updateChannel c) = .ok w' →
      (w'.Polled D ↔ w.Lasting (.updateChannel c)) := by
  obtain ⟨h, hp⟩ := (watched_invariant D).reachable hw
  exact ⟨hp, fun c w' hn => polled_update_iff h hp hn⟩

/-- A channel that is read from until its mask is emptied. -/
theorem polled_for_mask_disabled : ∃ w pfd, ((watched .nat).guarded Lasting).Reachable w ∧
    w.poller.entryOf 5 = some pfd ∧ pfd.fd = -1 := by
  obtain ⟨w, hw, hcheck⟩ := Lts.exists_reachable_of_exec (L := (watched .nat).guarded Lasting)
    [.setEvents 5 3, .updateChannel 5, .setEvents 2 1, .updateChannel 2, .setEvents 5 0,
      .updateChannel 5]
    (fun w => decide (0 ≤ (w.poller.channel 5).index ∧ w.last 5 = kNoneEvent)) rfl
    (by decide +kernel)
  simp only [decide_eq_true_eq] at hcheck
  obtain ⟨pfd, hpfd, hright⟩ := (polled_for_mask .nat hw).1 5 hcheck.1
  rw [Right, if_pos hcheck.2] at hright
  exact ⟨w, pfd, hw, hpfd, hright⟩

/-- The channel is read from, then disabled, then read from again: its mask
is not empty, and its entry is still ignored. -/
theorem not_polled_again : ¬∀ w, (watched .nat).Reachable w → w.Polled .nat := by
  obtain ⟨w, hw, hcheck⟩ := Lts.exists_reachable_of_exec (L := watched .nat)
    [.setEvents 5 3, .updateChannel 5, .setEvents 5 0, .updateChannel 5, .setEvents 5 3,
      .updateChannel 5]
    (fun w => decide (0 ≤ (w.poller.channel 5).index ∧
      w.poller.entryOf 5 = some ⟨-1, 3, 0⟩ ∧ w.last 5 = 3)) rfl (by decide +kernel)
  simp only [decide_eq_true_eq] at hcheck
  obtain ⟨hindex, hentry, hlast⟩ := hcheck
  intro hall
  obtain ⟨pfd, hpfd, hright⟩ := hall w hw 5 hindex
  obtain rfl := Option.some.inj (hentry.symm.trans hpfd)
  rw [hlast] at hright
  revert hright
  decide

end Watched

end Poller

end Muduo
