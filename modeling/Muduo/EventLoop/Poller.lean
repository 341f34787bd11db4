import Muduo.Base
import Muduo.Lib.Lts
import Mathlib.Logic.Function.Basic
import Mathlib.Data.List.Pairwise

/-!
# `Poller`

The tables of `Poller.cc`: a vector of `pollfd`, a map from descriptors to
channels, and in each channel the index of its entry. Channels are names `ι`
whose descriptors are distinct and not negative (`Descriptors`). `poller` is
the poller under any calls of `updateChannel`, with any changes of the
channels' masks between them, and any polls; a poll is what the kernel wrote
into `revents` and the count it returned. An `int` that counts descriptors is
an integer, a process having fewer than `2 ^ 31` of them.

What is proved here is that `updateChannel` keeps the vector, the map and the
indices in agreement (`Consistent`) and fails no assertion where they agree.
-/

namespace Muduo

open Lib

namespace Poller

/-- `struct pollfd` -/
structure PollFd where
  fd : Int
  events : Int
  revents : Int
deriving DecidableEq, Repr

/-- What the poller reads and writes of a `Channel`; `fd_` is constant. -/
structure Channel where
  events : Int
  revents : Int
  index : Int
deriving DecidableEq, Repr

namespace Channel

def kNoneEvent : Int := 0

/-- The constructor. -/
def new : Channel := ⟨0, 0, -1⟩

def isNoneEvent (c : Channel) : Bool := c.events == kNoneEvent

end Channel

/-- `static_cast<short>` of an `int`. -/
def toShort (x : Int) : Int := x.bmod (2 ^ 16)

/-- The assertions of `updateChannel` and `fillActiveChannels`, in the order
of the source, and an access past the end of the vector. -/
inductive Fault where
  | alreadyInMap | notInMap | otherInMap | indexRange | entryFd
  | activeNotInMap | activeFd
  | outOfRange
deriving DecidableEq, Repr

/-- The channels' descriptors. -/
structure Descriptors (ι : Type) where
  fd : ι → Int
  fd_nonneg : ∀ c, 0 ≤ fd c
  fd_inj : ∀ {c c'}, fd c = fd c' → c = c'

end Poller

open Poller in
/-- `channels` is `channels_`; `channel` the objects it points to. -/
structure Poller (ι : Type) where
  channel : ι → Channel
  pollfds : List PollFd
  channels : Int → Option ι

namespace Poller

variable {ι : Type} [DecidableEq ι] (D : Descriptors ι)

def new : Poller ι := ⟨fun _ => .new, [], fun _ => none⟩

def setChannel (p : Poller ι) (c : ι) (channel : Channel) : Poller ι :=
  { p with channel := Function.update p.channel c channel }

/-- The mask of a channel changes; `update()` is a call of its own. -/
def setEvents (p : Poller ι) (c : ι) (events : Int) : Poller ι :=
  p.setChannel c { p.channel c with events := events }

/-- The entry of a channel that is in the tables, updated. -/
def updatedEntry (channel : Channel) (pfd : PollFd) : PollFd :=
  let pfd := { pfd with events := toShort channel.events, revents := 0 }
  -- ignore this pollfd
  if channel.isNoneEvent then { pfd with fd := -1 } else pfd

def updateChannel (p : Poller ι) (c : ι) : Except Fault (Poller ι) := do
  let channel := p.channel c
  let fd := D.fd c
  if channel.index < 0 then
    -- a new one, add to pollfds_
    check (p.channels fd = none) .alreadyInMap
    let pollfds := p.pollfds ++ [⟨fd, toShort channel.events, 0⟩]
    let idx : Int := pollfds.length - 1
    return {
      channel := Function.update p.channel c { channel with index := idx }
      pollfds := pollfds
      channels := Function.update p.channels fd (some c) }
  else
    -- update existing one
    check (p.channels fd ≠ none) .notInMap
    check (p.channels fd = some c) .otherInMap
    let idx := channel.index
    check (0 ≤ idx ∧ idx < p.pollfds.length) .indexRange
    match p.pollfds[idx.toNat]? with
    | none => .error .outOfRange
    | some pfd => do
        check (pfd.fd = fd ∨ pfd.fd = -1) .entryFd
        return { p with pollfds := p.pollfds.set idx.toNat (updatedEntry channel pfd) }

/-- The loop of `fillActiveChannels` from an iterator on. -/
def fillActiveChannels : List PollFd → Int → Poller ι → List ι →
    Except Fault (Poller ι × List ι)
  | [], _, p, active => .ok (p, active)
  | pfd :: rest, numEvents, p, active =>
      if numEvents > 0 then
        if pfd.revents > 0 then
          match p.channels pfd.fd with
          | none => .error .activeNotInMap
          | some c => do
              check (D.fd c = pfd.fd) .activeFd
              fillActiveChannels rest (numEvents - 1)
                (p.setChannel c { p.channel c with revents := pfd.revents }) (active ++ [c])
        else fillActiveChannels rest numEvents p active
      else .ok (p, active)

/-- What `::poll` writes into the entries. -/
def setRevents (p : Poller ι) (revents : List Int) : Poller ι :=
  { p with pollfds := p.pollfds.zipWith (fun pfd r => { pfd with revents := r }) revents }

/-- `poll(timeoutMs, activeChannels)`, the kernel having written `revents`
and returned `numEvents`. -/
def poll (p : Poller ι) (revents : List Int) (numEvents : Int) (active : List ι) :
    Except Fault (Poller ι × List ι) :=
  let p := p.setRevents revents
  if numEvents > 0 then fillActiveChannels D p.pollfds numEvents p active else .ok (p, active)

/-! ## The system -/

/-- A result of `::poll` that is not an error: nothing negative, nothing on
the entries it ignores, and the number of entries with events. -/
structure PollResult (p : Poller ι) (revents : List Int) (numEvents : Int) : Prop where
  length : revents.length = p.pollfds.length
  nonneg : ∀ r ∈ revents, 0 ≤ r
  ignored : ∀ x ∈ p.pollfds.zip revents, x.1.fd < 0 → x.2 = 0
  count : numEvents = revents.countP (· ≠ 0)

instance (p : Poller ι) (revents : List Int) (numEvents : Int) :
    Decidable (p.PollResult revents numEvents) :=
  decidable_of_iff (revents.length = p.pollfds.length ∧ (∀ r ∈ revents, 0 ≤ r) ∧
      (∀ x ∈ p.pollfds.zip revents, x.1.fd < 0 → x.2 = 0) ∧
      numEvents = revents.countP (· ≠ 0))
    ⟨fun ⟨h₁, h₂, h₃, h₄⟩ => ⟨h₁, h₂, h₃, h₄⟩, fun ⟨h₁, h₂, h₃, h₄⟩ => ⟨h₁, h₂, h₃, h₄⟩⟩

inductive Event (ι : Type) where
  | setEvents (c : ι) (events : Int)
  | updateChannel (c : ι)
  | poll (revents : List Int) (numEvents : Int)

/-- A poll that fails (`numEvents < 0`) may write what it likes. -/
def enabled (p : Poller ι) : Event ι → Prop
  | .setEvents _ _ | .updateChannel _ => True
  | .poll revents numEvents =>
      revents.length = p.pollfds.length ∧ (0 ≤ numEvents → p.PollResult revents numEvents)

def next (p : Poller ι) : Event ι → Except Fault (Poller ι)
  | .setEvents c events => .ok (p.setEvents c events)
  | .updateChannel c => p.updateChannel D c
  | .poll revents numEvents => (p.poll D revents numEvents []).map Prod.fst

def poller : Lts (Poller ι) (Event ι) Fault where
  init p := p = .new
  enabled := enabled
  next := next D

instance (p : Poller ι) (a : Event ι) : Decidable ((poller D).enabled p a) := by
  cases a <;> dsimp only [poller, enabled] <;> infer_instance

/-! ## The tables -/

/-- The vector, the map and the indices agree. -/
structure Consistent (p : Poller ι) : Prop where
  /-- The values of `channels_` are the channels with an index, each under
  its own descriptor. -/
  registered : ∀ f c, p.channels f = some c ↔ f = D.fd c ∧ 0 ≤ (p.channel c).index
  distinct : ∀ c c', 0 ≤ (p.channel c).index →
    (p.channel c).index = (p.channel c').index → c = c'
  covers : ∀ i : Nat, i < p.pollfds.length ↔ ∃ c, (p.channel c).index = i
  entry : ∀ c (i : Nat) (pfd : PollFd), (p.channel c).index = i → p.pollfds[i]? = some pfd →
    pfd.fd = D.fd c ∨ pfd.fd = -1

variable {D} {p p' : Poller ι}

omit [DecidableEq ι] in
theorem consistent_new : (new : Poller ι).Consistent D where
  registered _ c := by
    have hneg : ¬(0 : Int) ≤ -1 := by decide
    exact ⟨nofun, fun h => absurd h.2 hneg⟩
  distinct c c' h := by
    have hneg : ¬(0 : Int) ≤ -1 := by decide
    exact absurd h hneg
  covers i := by
    refine ⟨fun h => absurd h (Nat.not_lt_zero i), ?_⟩
    rintro ⟨c, hc⟩
    have hneg : (-1 : Int) = i := hc
    omega
  entry _ _ _ _ h := by cases h

omit [DecidableEq ι] in
/-- Channels whose indices do not change and entries whose descriptors do not
leave the two allowed keep the tables consistent. -/
theorem Consistent.of_same (h : p.Consistent D) (hmap : p'.channels = p.channels)
    (hindex : ∀ c, (p'.channel c).index = (p.channel c).index)
    (hlen : p'.pollfds.length = p.pollfds.length)
    (hentry : ∀ (i : Nat) (pfd' : PollFd), p'.pollfds[i]? = some pfd' →
      ∃ pfd, p.pollfds[i]? = some pfd ∧ (pfd'.fd = pfd.fd ∨ pfd'.fd = -1)) :
    p'.Consistent D where
  registered f c := by rw [hmap, hindex]; exact h.registered f c
  distinct c c' hc heq := by
    rw [hindex] at hc
    rw [hindex, hindex] at heq
    exact h.distinct c c' hc heq
  covers i := by
    rw [hlen, h.covers]
    simp only [hindex]
  entry c i pfd' hc hi := by
    rw [hindex] at hc
    obtain ⟨pfd, hpfd, hfd | hfd⟩ := hentry i pfd' hi
    · rw [hfd]
      exact h.entry c i pfd hc hpfd
    · exact Or.inr hfd

theorem setEvents_consistent (h : p.Consistent D) (c : ι) (events : Int) :
    (p.setEvents c events).Consistent D := by
  refine h.of_same rfl (fun c' => ?_) rfl fun i pfd hi => ⟨pfd, hi, Or.inl rfl⟩
  simp only [setEvents, setChannel, Function.update_apply]
  split
  · rename_i heq
    rw [heq]
  · rfl

/-! ## `updateChannel` -/

/-- All a call can do to consistent tables: add an entry at the end, or
rewrite the entry of a channel that has one. -/
theorem updateChannel_cases (h : p.Consistent D) (c : ι) :
    ((p.channel c).index < 0 ∧ p.channels (D.fd c) = none ∧ p.updateChannel D c = .ok {
      channel := Function.update p.channel c { p.channel c with index := p.pollfds.length }
      pollfds := p.pollfds ++ [⟨D.fd c, toShort (p.channel c).events, 0⟩]
      channels := Function.update p.channels (D.fd c) (some c) }) ∨
    ∃ (i : Nat) (pfd : PollFd), (p.channel c).index = i ∧ p.pollfds[i]? = some pfd ∧
      p.updateChannel D c =
        .ok { p with pollfds := p.pollfds.set i (updatedEntry (p.channel c) pfd) } := by
  rcases lt_or_ge (p.channel c).index 0 with hneg | hpos
  · left
    have hnone : p.channels (D.fd c) = none := by
      rw [Option.eq_none_iff_forall_ne_some]
      intro c' hc'
      obtain ⟨hfd, hindex⟩ := (h.registered _ _).mp hc'
      obtain rfl := D.fd_inj hfd
      omega
    have hidx : ∀ pfd : PollFd,
        ((p.pollfds ++ [pfd]).length : Int) - 1 = p.pollfds.length := by
      intro pfd
      rw [List.length_append, List.length_singleton]
      omega
    refine ⟨hneg, hnone, ?_⟩
    unfold updateChannel
    simp only [if_pos hneg, check_of hnone, ok_bind, hidx]
    rfl
  · right
    obtain ⟨i, hi⟩ := Int.eq_ofNat_of_zero_le hpos
    have hsome : p.channels (D.fd c) = some c := (h.registered _ _).mpr ⟨rfl, hpos⟩
    have hlt : i < p.pollfds.length := (h.covers i).mpr ⟨c, hi⟩
    have hget : p.pollfds[i]? = some p.pollfds[i] := List.getElem?_eq_getElem hlt
    have hfd := h.entry c i _ hi hget
    have hrange : 0 ≤ (p.channel c).index ∧ (p.channel c).index < p.pollfds.length := by omega
    have hne : p.channels (D.fd c) ≠ none := by rw [hsome]; exact Option.some_ne_none c
    have hnat : (p.channel c).index.toNat = i := by omega
    refine ⟨i, p.pollfds[i], hi, hget, ?_⟩
    unfold updateChannel
    simp only [if_neg (Int.not_lt.mpr hpos), check_of hne, check_of hsome, check_of hrange,
      ok_bind, hnat, hget, check_of hfd]
    rfl

/-- No assertion of `updateChannel` fails. -/
theorem updateChannel_ok (h : p.Consistent D) (c : ι) : ∃ p', p.updateChannel D c = .ok p' := by
  obtain ⟨-, -, heq⟩ | ⟨i, pfd, -, -, heq⟩ := updateChannel_cases h c
  · exact ⟨_, heq⟩
  · exact ⟨_, heq⟩

theorem updatedEntry_fd (channel : Channel) (pfd : PollFd) :
    (updatedEntry channel pfd).fd = pfd.fd ∨ (updatedEntry channel pfd).fd = -1 := by
  unfold updatedEntry
  split
  · exact Or.inr rfl
  · exact Or.inl rfl

omit [DecidableEq ι] in
/-- The indices there are are below the next one. -/
theorem Consistent.index_lt (h : p.Consistent D) (c : ι) :
    (p.channel c).index < p.pollfds.length := by
  rcases lt_or_ge (p.channel c).index 0 with hlt | hge
  · omega
  · obtain ⟨i, hi⟩ := Int.eq_ofNat_of_zero_le hge
    have := (h.covers i).mpr ⟨c, hi⟩
    omega

/-- A new channel gets the next index. -/
theorem added_consistent (h : p.Consistent D) {c : ι} (hneg : (p.channel c).index < 0)
    (pfd : PollFd) (hfd : pfd.fd = D.fd c) :
    Consistent D {
      channel := Function.update p.channel c { p.channel c with index := p.pollfds.length }
      pollfds := p.pollfds ++ [pfd]
      channels := Function.update p.channels (D.fd c) (some c) } := by
  have hself : (Function.update p.channel c
      { p.channel c with index := p.pollfds.length } c).index = p.pollfds.length := by
    rw [Function.update_self]
  have hother : ∀ {c'}, c' ≠ c → Function.update p.channel c
      { p.channel c with index := p.pollfds.length } c' = p.channel c' :=
    fun hne => Function.update_of_ne hne _ _
  constructor
  case registered =>
    intro f c'
    dsimp only
    rw [Function.update_apply]
    split
    · rename_i hf
      constructor
      · intro hc'
        obtain rfl := Option.some.inj hc'
        exact ⟨hf, by rw [hself]; omega⟩
      · rintro ⟨hf', -⟩
        rw [D.fd_inj (hf.symm.trans hf')]
    · rename_i hf
      rw [h.registered]
      constructor
      · rintro ⟨hf', hpos⟩
        have hne : c' ≠ c := fun heq => hf (heq ▸ hf')
        exact ⟨hf', by rwa [hother hne]⟩
      · rintro ⟨hf', hpos⟩
        have hne : c' ≠ c := fun heq => hf (heq ▸ hf')
        rw [hother hne] at hpos
        exact ⟨hf', hpos⟩
  case distinct =>
    intro c₁ c₂ hpos heq
    dsimp only at hpos heq
    by_cases h₁ : c₁ = c <;> by_cases h₂ : c₂ = c
    · rw [h₁, h₂]
    · rw [h₁, hself, hother h₂] at heq
      have := h.index_lt c₂
      omega
    · rw [h₂, hself, hother h₁] at heq
      have := h.index_lt c₁
      omega
    · rw [hother h₁] at hpos
      rw [hother h₁, hother h₂] at heq
      exact h.distinct c₁ c₂ hpos heq
  case covers =>
    intro i
    dsimp only
    rw [List.length_append, List.length_singleton]
    constructor
    · intro hi
      rcases Nat.lt_or_ge i p.pollfds.length with hlt | hge
      · obtain ⟨c', hc'⟩ := (h.covers i).mp hlt
        have hne : c' ≠ c := fun heq => by rw [heq] at hc'; omega
        exact ⟨c', by rw [hother hne]; exact hc'⟩
      · exact ⟨c, by rw [hself]; omega⟩
    · rintro ⟨c', hc'⟩
      by_cases heq : c' = c
      · rw [heq, hself] at hc'
        omega
      · rw [hother heq] at hc'
        have := h.index_lt c'
        omega
  case entry =>
    intro c' i pfd' hc' hi
    dsimp only at hc' hi
    by_cases heq : c' = c
    · rw [heq, hself] at hc'
      obtain rfl : p.pollfds.length = i := by omega
      rw [List.getElem?_concat_length] at hi
      obtain rfl := Option.some.inj hi
      exact Or.inl (heq ▸ hfd)
    · rw [hother heq] at hc'
      have hlt : i < p.pollfds.length := (h.covers i).mpr ⟨c', hc'⟩
      rw [List.getElem?_append_left hlt] at hi
      exact h.entry c' i pfd' hc' hi

theorem updateChannel_consistent (h : p.Consistent D) {c : ι}
    (hn : p.updateChannel D c = .ok p') : p'.Consistent D := by
  obtain ⟨hneg, -, heq⟩ | ⟨i, pfd, hi, hget, heq⟩ := updateChannel_cases h c
  · obtain rfl := Except.ok.inj (heq.symm.trans hn)
    exact added_consistent h hneg _ rfl
  · obtain rfl := Except.ok.inj (heq.symm.trans hn)
    refine h.of_same rfl (fun _ => rfl) List.length_set fun j pfd' hj => ?_
    dsimp only at hj
    rw [List.getElem?_set] at hj
    split at hj
    · rename_i hij
      split at hj
      · obtain rfl := Option.some.inj hj
        exact ⟨pfd, hij ▸ hget, updatedEntry_fd _ _⟩
      · cases hj
    · exact ⟨pfd', hj, Or.inl rfl⟩

end Poller

end Muduo
