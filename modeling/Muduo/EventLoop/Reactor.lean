import Muduo.EventLoop.Polls

/-!
# The reactor

`EventLoop::loop()` of the first reactor, over `Poller` and any number of
channels: it polls, goes through the active channels, and `handleEvent()` of
each comes to the error, the read and the write callback in turn. A callback
may do what the interface allows: set callbacks, enable channels, quit, or try
to run the loop again. `quit()` may also come from another thread.

Whatever the callbacks do, each event that `poll` reports is dispatched once,
in the order of the entries, to what is set at that moment; a channel that is
changed by an earlier callback of the batch gets the events it was found with,
and so does the rest of a batch in which the loop was told to quit
(`reactor_dispatches`). This version never asks for `POLLOUT`, so that the
write callbacks are never called.

The reports, and the callbacks that were come to, are a record for the theorems.
-/

namespace Muduo

open Lib Poller

namespace Reactor

/-- The callbacks of a channel. -/
inductive Kind where
  | error | read | write
deriving DecidableEq, Repr

namespace Kind

/-- `POLLERR | POLLNVAL`, `POLLIN | POLLPRI | POLLRDHUP`, and `POLLOUT`. -/
def mask : Kind → BitVec 32
  | error => 0x28
  | read => 0x2003
  | write => 0x4

/-- `revents_ & mask` -/
def asked (k : Kind) (revents : Int) : Bool := BitVec.ofInt 32 revents &&& k.mask ≠ 0

/-- In the order of `handleEvent()`. -/
def all : List Kind := [error, read, write]

end Kind

/-- `POLLIN | POLLPRI` -/
def kReadEvent : BitVec 32 := 3

/-- What `poll` reports without being asked: `POLLERR | POLLHUP | POLLNVAL`. -/
def unasked : BitVec 32 := 0x38

/-- A callback whose turn it was, and whether it was set. -/
structure Handled (ι : Type) where
  channel : ι
  kind : Kind
  called : Bool
deriving DecidableEq, Repr

/-- Where the loop's thread is: not in `loop()`; at `!quit_`; at the poll; in
the `for` loop, with the channels to come; in `handleEvent()` of a channel,
with the callbacks to come; or in one of these. -/
inductive Place (ι : Type) where
  | outside
  | condition
  | poll
  | forEach (todo : List ι)
  | handleEvent (c : ι) (left : List Kind) (todo : List ι)
  | callback (c : ι) (left : List Kind) (todo : List ι)
deriving DecidableEq, Repr

namespace Place

/-- User code runs. -/
def isUser {ι : Type} : Place ι → Bool
  | outside | callback _ _ _ => true
  | condition | poll | forEach _ | handleEvent _ _ _ => false

/-- The loop goes on by itself. -/
def isStep {ι : Type} : Place ι → Bool
  | condition | forEach _ | handleEvent _ _ _ => true
  | outside | poll | callback _ _ _ => false

def isCallback {ι : Type} : Place ι → Bool
  | callback _ _ _ => true
  | outside | condition | poll | forEach _ | handleEvent _ _ _ => false

end Place

/-- An assertion of `Poller`, or `!looping_` in `loop()`. -/
inductive Fault where
  | poller (e : Poller.Fault)
  | looping
deriving DecidableEq, Repr

inductive Event (ι : Type) where
  | setCallback (c : ι) (k : Kind) (set : Bool)
  | enableReading (c : ι)
  /-- `EventLoop::updateChannel` -/
  | updateChannel (c : ι)
  | quit
  /-- `quit()` in another thread. -/
  | otherQuit
  | loop
  | poll (revents : List Int) (numEvents : Int)
  /-- The next step of `loop()` and `handleEvent()`. -/
  | step
  /-- A callback returns. -/
  | returned

end Reactor

open Reactor in
structure Reactor (ι : Type) where
  poller : Poller ι
  /-- Is the callback set? -/
  callback : ι → Kind → Bool
  looping : Bool
  quit : Bool
  place : Place ι
  /-- For each poll the channels that have events, and these. -/
  reports : List (List (ι × Int))
  handled : List (Handled ι)

namespace Reactor

variable {ι : Type} [DecidableEq ι] (D : Descriptors ι)

def new : Reactor ι := ⟨.new, fun _ _ => false, false, false, .outside, [], []⟩

/-- The entries with events, in the order of the vector. -/
def reported (p : Poller ι) (revents : List Int) : List (ι × Int) :=
  (p.setRevents revents).pollfds.filterMap fun pfd => (p.ready pfd).map (·, pfd.revents)

def setPoller (s : Reactor ι) (p : Poller ι) : Reactor ι := { s with poller := p }

/-- `update()` -/
def update (s : Reactor ι) (p : Poller ι) (c : ι) : Except Fault (Reactor ι) :=
  ((p.updateChannel D c).mapError .poller).map s.setPoller

def step (s : Reactor ι) : Reactor ι :=
  match s.place with
  | .condition =>
      if s.quit then { s with looping := false, place := .outside } else { s with place := .poll }
  | .forEach [] => { s with place := .condition }
  | .forEach (c :: todo) => { s with place := .handleEvent c Kind.all todo }
  | .handleEvent _ [] todo => { s with place := .forEach todo }
  | .handleEvent c (k :: left) todo =>
      if k.asked (s.poller.channel c).revents then
        { s with
          handled := s.handled ++ [⟨c, k, s.callback c k⟩]
          place := if s.callback c k then .callback c left todo else .handleEvent c left todo }
      else { s with place := .handleEvent c left todo }
  | .outside | .poll | .callback _ _ _ => s

def next (s : Reactor ι) : Event ι → Except Fault (Reactor ι)
  | .setCallback c k set =>
      .ok { s with callback := Function.update s.callback c (Function.update (s.callback c) k set) }
  | .enableReading c =>
      let events := (BitVec.ofInt 32 (s.poller.channel c).events ||| kReadEvent).toInt
      s.update D (s.poller.setEvents c events) c
  | .updateChannel c => s.update D s.poller c
  | .quit | .otherQuit => .ok { s with quit := true }
  | .loop => do
      check (s.looping = false) .looping
      return { s with looping := true, quit := false, place := .condition }
  | .poll revents numEvents => do
      let (p, activeChannels) ← (s.poller.poll D revents numEvents []).mapError .poller
      return { s with
        poller := p
        place := .forEach activeChannels
        reports := s.reports ++ [if 0 ≤ numEvents then reported s.poller revents else []] }
  | .step => .ok s.step
  | .returned =>
      match s.place with
      | .callback c left todo => .ok { s with place := .handleEvent c left todo }
      | _ => .ok s

/-- `poll` reports the events asked for, and the three that it always does. -/
def Asked (p : Poller ι) (revents : List Int) : Prop :=
  ∀ x ∈ p.pollfds.zip revents,
    BitVec.ofInt 32 x.2 &&& ~~~(BitVec.ofInt 32 x.1.events ||| unasked) = 0

instance (p : Poller ι) (revents : List Int) : Decidable (Asked p revents) :=
  inferInstanceAs (Decidable (∀ x ∈ _, _))

def enabled (s : Reactor ι) : Event ι → Prop
  | .setCallback _ _ _ | .enableReading _ | .updateChannel _ | .quit | .loop =>
      s.place.isUser = true
  | .otherQuit => True
  | .poll revents numEvents => s.place = .poll ∧ revents.length = s.poller.pollfds.length ∧
      (0 ≤ numEvents → s.poller.PollResult revents numEvents ∧ Asked s.poller revents)
  | .step => s.place.isStep = true
  | .returned => s.place.isCallback = true

def reactor : Lts (Reactor ι) (Event ι) Fault where
  init s := s = new
  enabled := enabled
  next := next D

instance (s : Reactor ι) (a : Event ι) : Decidable ((reactor D).enabled s a) := by
  cases a <;> dsimp only [reactor, enabled] <;> infer_instance

/-! ## What is to be dispatched -/

/-- The callbacks a report is for, in the order of `handleEvent()`. -/
def asks (x : ι × Int) : List (ι × Kind) := (Kind.all.filter (·.asked x.2)).map (x.1, ·)

/-- Those of the current batch whose turn is to come. -/
def owed (s : Reactor ι) : List (ι × Kind) :=
  let rest (todo : List ι) := todo.flatMap fun c => asks (c, (s.poller.channel c).revents)
  match s.place with
  | .outside | .condition | .poll => []
  | .forEach todo => rest todo
  | .handleEvent c left todo | .callback c left todo =>
      (left.filter (·.asked (s.poller.channel c).revents)).map (c, ·) ++ rest todo

/-- A mask is that of a channel for which `enableReading()` was called, or
empty; the entry of a channel may lag behind. -/
structure Masks (p : Poller ι) : Prop where
  channel : ∀ c, (p.channel c).events = 0 ∨ (p.channel c).events = 3
  entry : ∀ c (i : Nat) (pfd : PollFd), (p.channel c).index = i → p.pollfds[i]? = some pfd →
    pfd.events = 0 ∨ pfd.events = 3 ∧ (p.channel c).events = 3

structure Inv (s : Reactor ι) : Prop where
  tables : s.poller.Consistent D
  masks : Masks s.poller
  looping : s.looping = false ↔ s.place = .outside
  dispatched : s.handled.map (fun h => (h.channel, h.kind)) ++ s.owed =
    s.reports.flatten.flatMap asks
  /-- Nobody is asked for what was not enabled. -/
  enabled : ∀ x ∈ s.reports.flatten, Kind.write.asked x.2 = false ∧
    (Kind.read.asked x.2 = true → (s.poller.channel x.1).events = 3)

variable {D} {s s' : Reactor ι} {p p' : Poller ι} {a : Event ι} {as : List (Event ι)}

/-! ## The masks -/

omit [DecidableEq ι] in
theorem masks_new : Masks (Poller.new : Poller ι) where
  channel _ := Or.inl rfl
  entry _ _ _ _ h := by cases h

/-- `events_ |= kReadEvent` -/
theorem or_kReadEvent {events : Int} (h : events = 0 ∨ events = 3) :
    (BitVec.ofInt 32 events ||| kReadEvent).toInt = 3 := by
  rcases h with rfl | rfl
  · decide
  · decide

theorem Masks.enableReading (h : Masks p) (c : ι) : Masks (p.setEvents c 3) := by
  have hchannel (c' : ι) : ((p.setEvents c 3).channel c').events = 3 ∨
      ((p.setEvents c 3).channel c').events = (p.channel c').events := by
    simp only [setEvents, setChannel, Function.update_apply]
    split
    · exact Or.inl rfl
    · exact Or.inr rfl
  have hindex (c' : ι) : ((p.setEvents c 3).channel c').index = (p.channel c').index := by
    simp only [setEvents, setChannel, Function.update_apply]
    split
    · rename_i heq
      rw [heq]
    · rfl
  refine ⟨fun c' => ?_, fun c' i pfd hc' hi => ?_⟩
  · rcases hchannel c' with hthree | hsame
    · exact Or.inr hthree
    · rw [hsame]
      exact h.channel c'
  · rw [hindex] at hc'
    refine (h.entry c' i pfd hc' hi).imp_right fun hboth => ⟨hboth.1, ?_⟩
    rcases hchannel c' with hthree | hsame
    · exact hthree
    · rw [hsame]
      exact hboth.2

/-- What `updateChannel` changes of the channels is one index. -/
theorem updateChannel_channel (h : p.Consistent D) {c : ι} (hp : p.updateChannel D c = .ok p')
    (c' : ι) : (p'.channel c').events = (p.channel c').events ∧
      (p'.channel c').revents = (p.channel c').revents := by
  obtain ⟨-, -, heq⟩ | ⟨i, pfd, -, -, heq⟩ := updateChannel_cases h c
  · obtain rfl := Except.ok.inj (heq.symm.trans hp)
    dsimp only
    rw [Function.update_apply]
    split
    · rename_i heq
      rw [heq]
      exact ⟨rfl, rfl⟩
    · exact ⟨rfl, rfl⟩
  · obtain rfl := Except.ok.inj (heq.symm.trans hp)
    exact ⟨rfl, rfl⟩

theorem Masks.updateChannel (h : Masks p) (ht : p.Consistent D) {c : ι}
    (hp : p.updateChannel D c = .ok p') : Masks p' := by
  have hrecorded (c' : ι) : toShort (p.channel c').events = 0 ∨
      toShort (p.channel c').events = 3 ∧ (p.channel c').events = 3 := by
    rcases h.channel c' with hzero | hthree
    · rw [hzero]
      exact Or.inl rfl
    · rw [hthree]
      exact Or.inr ⟨rfl, rfl⟩
  refine ⟨fun c' => (updateChannel_channel ht hp c').1 ▸ h.channel c', ?_⟩
  intro c' i pfd hc' hi
  rw [(updateChannel_channel ht hp c').1]
  obtain ⟨hneg, -, heq⟩ | ⟨j, pfd₀, hj, hget, heq⟩ := updateChannel_cases ht c
  · obtain rfl := Except.ok.inj (heq.symm.trans hp)
    dsimp only at hc' hi
    by_cases hcc : c' = c
    · rw [hcc, Function.update_self] at hc'
      obtain rfl : p.pollfds.length = i := Int.ofNat.inj hc'
      rw [List.getElem?_concat_length] at hi
      obtain rfl := Option.some.inj hi
      exact hcc ▸ hrecorded c
    · rw [Function.update_of_ne hcc] at hc'
      have hlt : i < p.pollfds.length := (ht.covers i).mpr ⟨c', hc'⟩
      rw [List.getElem?_append_left hlt] at hi
      exact h.entry c' i pfd hc' hi
  · obtain rfl := Except.ok.inj (heq.symm.trans hp)
    dsimp only at hc' hi
    rw [List.getElem?_set] at hi
    split at hi
    · rename_i hij
      split at hi
      · obtain rfl := Option.some.inj hi
        obtain rfl : c' = c := ht.distinct c' c (by omega) (by omega)
        have hevents : (updatedEntry (p.channel c') pfd₀).events =
            toShort (p.channel c').events := by
          unfold updatedEntry
          split <;> rfl
        rw [hevents]
        exact hrecorded c'
      · cases hi
    · exact h.entry c' i pfd hc' hi

omit [DecidableEq ι] in
theorem Masks.poll (h : Masks p) {revents : List Int}
    (hpfds : p'.pollfds = (p.setRevents revents).pollfds)
    (hkeep : ∀ c, (p'.channel c).index = (p.channel c).index ∧
      (p'.channel c).events = (p.channel c).events) : Masks p' := by
  refine ⟨fun c => (hkeep c).2 ▸ h.channel c, fun c i pfd hc hi => ?_⟩
  rw [hpfds] at hi
  obtain ⟨pfd₀, r, hpfd, -, rfl⟩ := (getElem?_setRevents p revents i pfd).mp hi
  rw [(hkeep c).1] at hc
  rw [(hkeep c).2]
  exact h.entry c i pfd₀ hc hpfd

/-- A bit that is neither asked for nor one of the three is not reported. -/
theorem and_eq_zero_of_asked {r mask bits : BitVec 32} (h : r &&& mask = 0)
    (hbits : mask &&& bits = bits) : r &&& bits = 0 := by
  rw [← hbits, ← BitVec.and_assoc, h]
  exact BitVec.zero_and

/-! ## A poll -/

/-- The active channels are those reported, with the events they have. -/
theorem poll_reported (h : p.Consistent D) {revents : List Int} {numEvents : Int}
    (hr : p.PollResult revents numEvents) : ∃ p',
      p.poll D revents numEvents [] = .ok (p', (reported p revents).map Prod.fst) ∧
      ∀ x ∈ reported p revents, (p'.channel x.1).revents = x.2 := by
  have hmap : ∀ pfd ∈ (p.setRevents revents).pollfds, pfd.revents > 0 →
      ∃ c, p.channels pfd.fd = some c ∧ D.fd c = pfd.fd := by
    intro pfd hpfd hpos
    obtain ⟨i, hi⟩ := List.getElem?_of_mem hpfd
    obtain ⟨c, -, hc⟩ := hr.found h hi hpos
    exact ⟨c, hc⟩
  have hnodup : ((p.setRevents revents).pollfds.filterMap p.ready).Nodup :=
    (hr.ordered h).imp fun hlt heq => absurd hlt (by rw [heq]; exact lt_irrefl _)
  obtain ⟨p', hp', -, -, -, hset⟩ := fillActiveChannels_spec
    (p.setRevents revents).pollfds numEvents (p.setRevents revents) [] hr.countP hmap hnodup
  have hfirst : (reported p revents).map Prod.fst =
      (p.setRevents revents).pollfds.filterMap p.ready := by
    rw [reported, List.map_filterMap]
    congr 1
    funext pfd
    cases p.ready pfd <;> rfl
  refine ⟨p', ?_, ?_⟩
  · rw [poll_eq, hp', hfirst]
    rfl
  · intro x hx
    obtain ⟨pfd, hpfd, hready⟩ := List.mem_filterMap.mp hx
    obtain ⟨c, hc, rfl⟩ := Option.map_eq_some_iff.mp hready
    rw [hset pfd hpfd c hc]

omit [DecidableEq ι] in
/-- What is reported of a channel has been asked for. -/
theorem reported_enabled (h : p.Consistent D) (hm : Masks p) {revents : List Int} {numEvents : Int}
    (hr : p.PollResult revents numEvents) (hasked : Asked p revents) {x : ι × Int}
    (hx : x ∈ reported p revents) : Kind.write.asked x.2 = false ∧
      (Kind.read.asked x.2 = true → (p.channel x.1).events = 3) := by
  obtain ⟨pfd, hpfd, hready⟩ := List.mem_filterMap.mp hx
  obtain ⟨c, hc, rfl⟩ := Option.map_eq_some_iff.mp hready
  obtain ⟨i, hi⟩ := List.getElem?_of_mem hpfd
  obtain ⟨hindex, -⟩ := (hr.ready_iff h hi c).mp hc
  obtain ⟨pfd₀, r, hpfd₀, hrev, rfl⟩ := (getElem?_setRevents p revents i pfd).mp hi
  have hbits := hasked (pfd₀, r)
    (List.mem_of_getElem? (List.getElem?_zip_eq_some.mpr ⟨hpfd₀, hrev⟩))
  have hmask := hm.entry c i pfd₀ hindex hpfd₀
  dsimp only at hbits ⊢
  have hwrite : BitVec.ofInt 32 r &&& Kind.write.mask = 0 := by
    refine and_eq_zero_of_asked hbits ?_
    rcases hmask with hzero | ⟨hthree, -⟩
    · rw [hzero]
      decide
    · rw [hthree]
      decide
  refine ⟨by simp [Kind.asked, hwrite], fun hread => ?_⟩
  rcases hmask with hzero | ⟨-, hevents⟩
  · have hnone : BitVec.ofInt 32 r &&& Kind.read.mask = 0 := by
      refine and_eq_zero_of_asked hbits ?_
      rw [hzero]
      decide
    simp [Kind.asked, hnone] at hread
  · exact hevents

/-! ## One event -/

/-- What an event makes of the reactor. -/
inductive Move (s : Reactor ι) : Event ι → Reactor ι → Prop where
  | setCallback {c : ι} {k : Kind} {set : Bool} : Move s (.setCallback c k set) { s with
      callback := Function.update s.callback c (Function.update (s.callback c) k set) }
  | enableReading {c : ι} {p : Poller ι} :
      (∀ c' ≠ c, (p.channel c').events = (s.poller.channel c').events) →
      Move s (.enableReading c) (s.setPoller p)
  | updateChannel {c : ι} {p : Poller ι} :
      (∀ c', (p.channel c').events = (s.poller.channel c').events) →
      Move s (.updateChannel c) (s.setPoller p)
  | quit : Move s .quit { s with quit := true }
  | otherQuit : Move s .otherQuit { s with quit := true }
  | loop : s.place = .outside →
      Move s .loop { s with looping := true, quit := false, place := .condition }
  | poll {revents : List Int} {numEvents : Int} {p : Poller ι} {found : List ι}
      {report : List (ι × Int)} : s.place = .poll → found.length ≤ revents.length →
      (∀ c, (p.channel c).events = (s.poller.channel c).events) →
      Move s (.poll revents numEvents) { s with
        poller := p
        place := .forEach found
        reports := s.reports ++ [report] }
  | step : s.place.isStep = true → Move s .step s.step
  | returned {c : ι} {left : List Kind} {todo : List ι} : s.place = .callback c left todo →
      Move s .returned { s with place := .handleEvent c left todo }

omit [DecidableEq ι] in
theorem inv_new : Inv D (new : Reactor ι) where
  tables := consistent_new
  masks := masks_new
  looping := iff_of_true rfl rfl
  dispatched := rfl
  enabled x hx := by cases hx

omit [DecidableEq ι] in
theorem owed_of_revents (s : Reactor ι)
    (hrev : ∀ c, (p.channel c).revents = (s.poller.channel c).revents) :
    (s.setPoller p).owed = s.owed := by
  simp only [owed, setPoller, hrev]

omit [DecidableEq ι] in
/-- User code changes the tables. -/
theorem Inv.setPoller (h : Inv D s) (htables : p.Consistent D) (hmasks : Masks p)
    (hrev : ∀ c, (p.channel c).revents = (s.poller.channel c).revents)
    (hevents : ∀ c, (s.poller.channel c).events = 3 → (p.channel c).events = 3) :
    Inv D (s.setPoller p) where
  tables := htables
  masks := hmasks
  looping := h.looping
  dispatched := by
    rw [owed_of_revents s hrev]
    exact h.dispatched
  enabled x hx := ⟨(h.enabled x hx).1, fun hread => hevents _ ((h.enabled x hx).2 hread)⟩

theorem Inv.enableReading (h : Inv D s) (c : ι) :
    ∃ s', s.next D (.enableReading c) = .ok s' ∧ Move s (.enableReading c) s' ∧ Inv D s' := by
  have hthree := or_kReadEvent (h.masks.channel c)
  have htables := setEvents_consistent h.tables c 3
  obtain ⟨p, hp⟩ := updateChannel_ok htables c
  have hkeep := updateChannel_channel htables hp
  have hset (c' : ι) : (c' ≠ c → ((s.poller.setEvents c 3).channel c') = s.poller.channel c') ∧
      ((s.poller.setEvents c 3).channel c').revents = (s.poller.channel c').revents ∧
      (c' = c → ((s.poller.setEvents c 3).channel c').events = 3) := by
    simp only [setEvents, setChannel, Function.update_apply]
    split
    · rename_i heq
      exact ⟨fun hne => absurd heq hne, heq ▸ rfl, fun _ => rfl⟩
    · rename_i hne
      exact ⟨fun _ => rfl, rfl, fun heq => absurd heq hne⟩
  refine ⟨s.setPoller p, ?_, .enableReading fun c' hc' => ?_, h.setPoller
    (updateChannel_consistent htables hp) ((h.masks.enableReading c).updateChannel htables hp)
    (fun c' => (hkeep c').2.trans (hset c').2.1) fun c' hc' => ?_⟩
  · change s.update D (s.poller.setEvents c _) c = _
    rw [hthree, update, hp]
    rfl
  · rw [(hkeep c').1, (hset c').1 hc']
  · rw [(hkeep c').1]
    by_cases heq : c' = c
    · exact (hset c').2.2 heq
    · rw [(hset c').1 heq]
      exact hc'

theorem Inv.updateChannel (h : Inv D s) (c : ι) :
    ∃ s', s.next D (.updateChannel c) = .ok s' ∧ Move s (.updateChannel c) s' ∧ Inv D s' := by
  obtain ⟨p, hp⟩ := updateChannel_ok h.tables c
  have hkeep := updateChannel_channel h.tables hp
  refine ⟨s.setPoller p, ?_, .updateChannel fun c' => (hkeep c').1, h.setPoller
    (updateChannel_consistent h.tables hp) (h.masks.updateChannel h.tables hp)
    (fun c' => (hkeep c').2) fun c' hc' => (hkeep c').1.trans hc'⟩
  change s.update D s.poller c = _
  rw [update, hp]
  rfl

omit [DecidableEq ι] in
/-- What a poll has found is what is to be dispatched. -/
theorem Inv.polled (h : Inv D s) (hplace : s.place = .poll) {report : List (ι × Int)}
    (htables : p.Consistent D) (hmasks : Masks p)
    (hevents : ∀ c, (p.channel c).events = (s.poller.channel c).events)
    (hrev : ∀ x ∈ report, (p.channel x.1).revents = x.2)
    (henabled : ∀ x ∈ report, Kind.write.asked x.2 = false ∧
      (Kind.read.asked x.2 = true → (s.poller.channel x.1).events = 3)) :
    Inv D { s with
      poller := p
      place := .forEach (report.map Prod.fst)
      reports := s.reports ++ [report] } where
  tables := htables
  masks := hmasks
  looping := by
    have hlooping := h.looping
    rw [hplace] at hlooping
    exact iff_of_false (fun hf => by cases hlooping.mp hf) fun hf => by cases hf
  dispatched := by
    have hdispatched := h.dispatched
    rw [owed, hplace] at hdispatched
    have howed : ((report.map Prod.fst).flatMap fun c => asks (c, (p.channel c).revents)) =
        report.flatMap asks := by
      rw [List.flatMap_map]
      exact List.flatMap_congr fun x hx => by rw [hrev x hx]
    rw [List.flatten_append, List.flatMap_append, ← hdispatched, List.flatten_singleton,
      List.append_nil]
    exact congrArg _ howed
  enabled x hx := by
    rw [List.flatten_append, List.flatten_singleton] at hx
    change _ ∧ (_ → (p.channel x.1).events = 3)
    rw [hevents]
    rcases List.mem_append.mp hx with hx | hx
    · exact h.enabled x hx
    · exact henabled x hx

theorem Inv.poll (h : Inv D s) {revents : List Int} {numEvents : Int}
    (he : s.enabled (.poll revents numEvents)) : ∃ s', s.next D (.poll revents numEvents) = .ok s' ∧
      Move s (.poll revents numEvents) s' ∧ Inv D s' := by
  obtain ⟨hplace, hlen, hresult⟩ := he
  rcases lt_or_ge numEvents 0 with hneg | hpos
  · -- the call has failed
    have hpoll : s.poller.poll D revents numEvents [] = .ok (s.poller.setRevents revents, []) :=
      if_neg (not_lt.mpr hneg.le)
    refine ⟨{ s with
      poller := s.poller.setRevents revents
      place := .forEach []
      reports := s.reports ++ [[]] }, ?_, .poll hplace (Nat.zero_le _) fun _ => rfl, ?_⟩
    · unfold next
      dsimp only
      rw [hpoll, if_neg (not_le.mpr hneg)]
      rfl
    · exact h.polled hplace (setRevents_consistent h.tables hlen)
        (h.masks.poll rfl fun _ => ⟨rfl, rfl⟩) (fun _ => rfl)
        (fun x (hx : x ∈ ([] : List (ι × Int))) => by cases hx)
        fun x (hx : x ∈ ([] : List (ι × Int))) => by cases hx
  · obtain ⟨hr, hasked⟩ := hresult hpos
    obtain ⟨p, hp, hrev⟩ := poll_reported h.tables hr
    obtain ⟨hpfds, -, hkeep⟩ := poll_keeps h.tables (fun _ => hr) hp
    have hlength : ((reported s.poller revents).map Prod.fst).length ≤ revents.length := by
      rw [List.length_map]
      refine (List.length_filterMap_le _ _).trans ?_
      rw [setRevents, List.length_zipWith]
      exact Nat.min_le_right _ _
    refine ⟨{ s with
      poller := p
      place := .forEach ((reported s.poller revents).map Prod.fst)
      reports := s.reports ++ [reported s.poller revents] }, ?_,
      .poll hplace hlength fun c => (hkeep c).2, ?_⟩
    · unfold next
      dsimp only
      rw [hp, if_pos hpos]
      rfl
    · exact h.polled hplace (poll_consistent h.tables hlen (fun _ => hr) hp)
        (h.masks.poll hpfds hkeep) (fun c => (hkeep c).2) hrev
        fun x hx => reported_enabled h.tables h.masks hr hasked hx

omit [DecidableEq ι] in
/-- The record and the place change, together. -/
theorem Inv.goTo (h : Inv D s) {place : Place ι} {handled : List (Handled ι)}
    (hplace : s.place ≠ .outside) (hplace' : place ≠ .outside)
    (howed : ({ s with place := place, handled := handled } : Reactor ι).handled.map
        (fun h => (h.channel, h.kind)) ++
        ({ s with place := place, handled := handled } : Reactor ι).owed =
      s.handled.map (fun h => (h.channel, h.kind)) ++ s.owed) :
    Inv D { s with place := place, handled := handled } where
  tables := h.tables
  masks := h.masks
  looping := iff_of_false (fun hf => hplace (h.looping.mp hf)) hplace'
  dispatched := howed.trans h.dispatched
  enabled := h.enabled

omit [DecidableEq ι] in
/-- A callback whose turn it is gets called if it is set, and is not called later. -/
theorem Inv.step (h : Inv D s) (hstep : s.place.isStep = true) : Inv D s.step := by
  have hout : s.place ≠ .outside := fun heq => by rw [heq] at hstep; cases hstep
  unfold Reactor.step
  cases hplace : s.place with
  | outside => exact absurd hplace hout
  | poll => rw [hplace] at hstep; cases hstep
  | callback c left todo => rw [hplace] at hstep; cases hstep
  | condition =>
      have howed : s.owed = [] := by rw [owed, hplace]
      dsimp only
      split
      · refine ⟨h.tables, h.masks, iff_of_true rfl rfl, ?_, h.enabled⟩
        rw [← h.dispatched, howed]
        rfl
      · exact h.goTo hout (fun hf => by cases hf) (by rw [howed]; rfl)
  | forEach todo =>
      cases todo with
      | nil => exact h.goTo hout (fun hf => by cases hf) (by rw [owed, owed, hplace]; rfl)
      | cons c todo => exact h.goTo hout (fun hf => by cases hf) (by rw [owed, owed, hplace]; rfl)
  | handleEvent c left todo =>
      cases left with
      | nil => exact h.goTo hout (fun hf => by cases hf) (by rw [owed, owed, hplace]; rfl)
      | cons k left =>
          dsimp only
          cases hasked : k.asked (s.poller.channel c).revents with
          | false =>
              rw [if_neg Bool.false_ne_true]
              refine h.goTo hout (fun hf => by cases hf) ?_
              rw [owed, owed, hplace]
              dsimp only
              rw [List.filter_cons_of_neg (by simp [hasked])]
          | true =>
              rw [if_pos rfl]
              refine h.goTo hout ?_ ?_
              · split
                · exact fun hf => by cases hf
                · exact fun hf => by cases hf
              · have howed : ({ s with
                    handled := s.handled ++ [⟨c, k, s.callback c k⟩]
                    place := if s.callback c k then .callback c left todo
                      else .handleEvent c left todo } : Reactor ι).owed =
                    (left.filter (·.asked (s.poller.channel c).revents)).map (c, ·) ++
                      todo.flatMap fun c => asks (c, (s.poller.channel c).revents) := by
                  cases s.callback c k <;> rfl
                rw [howed, List.map_append, owed, hplace]
                dsimp only
                rw [List.filter_cons_of_pos
                  (p := fun k : Kind => k.asked (s.poller.channel c).revents) hasked,
                  List.append_assoc]
                rfl

/-- The one assertion that can fail is that of `loop()`, in a callback. -/
theorem Inv.next_cases (h : Inv D s) (he : s.enabled a) :
    (∃ s', s.next D a = .ok s' ∧ Move s a s' ∧ Inv D s') ∨
      (a = .loop ∧ s.looping = true ∧ s.next D a = .error .looping) := by
  cases a with
  | setCallback c k set =>
      exact Or.inl ⟨_, rfl, .setCallback, h.tables, h.masks, h.looping, h.dispatched, h.enabled⟩
  | enableReading c => exact Or.inl (h.enableReading c)
  | updateChannel c => exact Or.inl (h.updateChannel c)
  | quit => exact Or.inl ⟨_, rfl, .quit, h.tables, h.masks, h.looping, h.dispatched, h.enabled⟩
  | otherQuit =>
      exact Or.inl ⟨_, rfl, .otherQuit, h.tables, h.masks, h.looping, h.dispatched, h.enabled⟩
  | loop =>
      cases hlooping : s.looping with
      | true => exact Or.inr ⟨rfl, rfl, by rw [next, hlooping]; rfl⟩
      | false =>
          left
          have hplace := h.looping.mp hlooping
          refine ⟨_, by rw [next, hlooping]; rfl, .loop hplace, h.tables, h.masks, ?_, ?_,
            h.enabled⟩
          · exact iff_of_false (fun hf => by cases hf) fun hf => by cases hf
          · have hdispatched := h.dispatched
            rw [owed, hplace] at hdispatched
            exact hdispatched
  | poll revents numEvents => exact Or.inl (h.poll he)
  | step => exact Or.inl ⟨_, rfl, .step he, h.step he⟩
  | returned =>
      have hcallback : s.place.isCallback = true := he
      cases hplace : s.place with
      | callback c left todo =>
          left
          have hout : s.place ≠ .outside := fun hf => by rw [hplace] at hf; cases hf
          refine ⟨_, by rw [next, hplace], .returned hplace, ?_⟩
          exact h.goTo hout (fun hf => by cases hf) (by rw [owed, owed, hplace])
      | outside | condition | poll | forEach | handleEvent =>
          rw [hplace] at hcallback
          cases hcallback

theorem Inv.move_of_ok (h : Inv D s) (he : s.enabled a) (hn : s.next D a = .ok s') :
    Move s a s' ∧ Inv D s' := by
  rcases h.next_cases he with ⟨s₁, hok, hmove, hinv⟩ | ⟨-, -, herr⟩
  · rw [hn] at hok
    obtain rfl := Except.ok.inj hok
    exact ⟨hmove, hinv⟩
  · rw [hn] at herr
    cases herr

/-! ## How long a batch takes -/

/-- The steps and returns there can be until the next poll. -/
def Place.weight : Place ι → Nat
  | .outside | .poll => 0
  | .condition => 1
  | .forEach todo => 8 * todo.length + 2
  | .handleEvent _ left todo => 2 * left.length + 8 * todo.length + 3
  | .callback _ left todo => 2 * left.length + 8 * todo.length + 4

/-- What an event may add to that, with itself. -/
def gain : Event ι → Nat
  | .setCallback _ _ _ | .enableReading _ | .updateChannel _ | .quit | .otherQuit => 1
  | .loop => 2
  | .poll revents _ => 8 * revents.length + 3
  | .step | .returned => 0

omit [DecidableEq ι] in
theorem weight_step (hstep : s.place.isStep = true) : s.step.place.weight + 1 ≤ s.place.weight := by
  unfold Reactor.step
  cases hplace : s.place with
  | outside | poll | callback =>
      rw [hplace] at hstep
      cases hstep
  | condition =>
      dsimp only
      split <;> exact Nat.le_refl _
  | forEach todo =>
      cases todo with
      | nil => exact Nat.le_refl _
      | cons c todo =>
          simp only [Place.weight, Kind.all, List.length_cons, List.length_nil]
          omega
  | handleEvent c left todo =>
      cases left with
      | nil =>
          simp only [Place.weight, List.length_nil]
          omega
      | cons k left =>
          dsimp only
          split
          · dsimp only
            split <;> simp only [Place.weight, List.length_cons] <;> omega
          · simp only [Place.weight, List.length_cons]
            omega

theorem weight_move (hm : Move s a s') : s'.place.weight + 1 ≤ s.place.weight + gain a := by
  cases hm with
  | setCallback | enableReading | updateChannel | quit | otherQuit => exact Nat.le_refl _
  | loop hplace =>
      rw [hplace]
      exact Nat.le_refl _
  | poll hplace hlength =>
      rw [hplace]
      simp only [Place.weight, gain]
      omega
  | step hstep => exact weight_step hstep
  | returned hplace =>
      rw [hplace]
      simp only [Place.weight, gain]
      omega

/-! ## After `quit()` -/

def Event.isPoll : Event ι → Bool
  | .poll _ _ => true
  | .setCallback _ _ _ | .enableReading _ | .updateChannel _ | .quit | .otherQuit | .loop => false
  | .step | .returned => false

/-- One poll is still to come if the loop is at it already. -/
def pollsLeft (s : Reactor ι) : Nat :=
  match s.place with
  | .poll => 1
  | .outside | .condition | .forEach _ | .handleEvent _ _ _ | .callback _ _ _ => 0

omit [DecidableEq ι] in
theorem quit_step (hq : s.quit = true) (hstep : s.place.isStep = true) :
    s.step.quit = true ∧ s.step.pollsLeft = 0 := by
  unfold Reactor.step
  cases hplace : s.place with
  | outside | poll | callback =>
      rw [hplace] at hstep
      cases hstep
  | condition =>
      dsimp only
      rw [if_pos hq]
      exact ⟨hq, rfl⟩
  | forEach todo =>
      cases todo with
      | nil => exact ⟨hq, rfl⟩
      | cons c todo => exact ⟨hq, rfl⟩
  | handleEvent c left todo =>
      cases left with
      | nil => exact ⟨hq, rfl⟩
      | cons k left =>
          dsimp only
          split
          · refine ⟨hq, ?_⟩
            cases s.callback c k <;> rfl
          · exact ⟨hq, rfl⟩

theorem quit_move (hm : Move s a s') (hq : s.quit = true) (ha : a ≠ .loop) :
    s'.quit = true ∧ [a].countP Event.isPoll + s'.pollsLeft ≤ s.pollsLeft := by
  cases hm with
  | setCallback | enableReading | updateChannel => exact ⟨hq, (Nat.zero_add _).le⟩
  | quit | otherQuit => exact ⟨rfl, (Nat.zero_add _).le⟩
  | loop => exact absurd rfl ha
  | poll hplace =>
      refine ⟨hq, ?_⟩
      rw [pollsLeft, pollsLeft, hplace]
      exact Nat.le_refl _
  | step hstep =>
      obtain ⟨hquit, hnone⟩ := quit_step hq hstep
      refine ⟨hquit, ?_⟩
      rw [hnone]
      exact Nat.zero_le _
  | returned hplace => exact ⟨hq, Nat.zero_le _⟩

theorem polls_after_quit {bs : List (Event ι)} (hrun : (reactor D).Run s bs s') (h : Inv D s)
    (hq : s.quit = true) (hloop : .loop ∉ bs) : bs.countP Event.isPoll ≤ s.pollsLeft := by
  have hall : Inv D s' ∧ s'.quit = true ∧
      bs.countP Event.isPoll + s'.pollsLeft ≤ s.pollsLeft := by
    induction hrun with
    | nil => exact ⟨h, hq, (Nat.zero_add _).le⟩
    | @snoc s₁ s₂ bs a _ he hn ih =>
        obtain ⟨hinv, hquit, hle⟩ := ih fun hmem => hloop (List.mem_append_left _ hmem)
        obtain ⟨hmove, hinv'⟩ := hinv.move_of_ok he hn
        have ha : a ≠ .loop := fun heq =>
          hloop (heq ▸ List.mem_append_right _ List.mem_cons_self)
        obtain ⟨hquit', hle'⟩ := quit_move hmove hquit ha
        refine ⟨hinv', hquit', ?_⟩
        rw [List.countP_append]
        omega
  omega

/-! ## Whole runs -/

/-- After the events `as`. -/
structure Follows (D : Descriptors ι) (as : List (Event ι)) (s : Reactor ι) : Prop where
  inv : Inv D s
  enabled : ∀ c, (s.poller.channel c).events = 3 → .enableReading c ∈ as

theorem Move.enabled (hm : Move s a s') (h : ∀ c, (s.poller.channel c).events = 3 →
    .enableReading c ∈ as) : ∀ c, (s'.poller.channel c).events = 3 →
      .enableReading c ∈ as ++ [a] := by
  intro c hc
  cases hm with
  | setCallback | quit | otherQuit | loop | returned => exact List.mem_append_left _ (h c hc)
  | @enableReading c' p hkeep =>
      by_cases heq : c = c'
      · exact List.mem_append_right _ (heq ▸ List.mem_cons_self)
      · exact List.mem_append_left _ (h c ((hkeep c heq).symm.trans hc))
  | updateChannel hkeep => exact List.mem_append_left _ (h c ((hkeep c).symm.trans hc))
  | poll _ _ hkeep => exact List.mem_append_left _ (h c ((hkeep c).symm.trans hc))
  | step =>
      have hsame : s.step.poller = s.poller := by
        unfold Reactor.step
        split <;> first | rfl | (split <;> rfl)
      rw [hsame] at hc
      exact List.mem_append_left _ (h c hc)

theorem follows_of_run (hrun : (reactor D).Run new as s) : Follows D as s := by
  induction hrun with
  | nil => exact ⟨inv_new, fun c hc => by cases hc⟩
  | snoc _ he hn ih =>
      obtain ⟨hmove, hinv⟩ := ih.inv.move_of_ok he hn
      exact ⟨hinv, hmove.enabled ih.enabled⟩

theorem length_le_of_run (hrun : (reactor D).Run new as s) : as.length ≤ Lts.total gain as := by
  have hlen := hrun.length_le (I := Inv D) (fun s => s.place.weight) gain
    (fun s a s' h he hn => (h.move_of_ok he hn).2)
    (fun s a s' h he hn => weight_move (h.move_of_ok he hn).1) inv_new
  have hstart : (new : Reactor ι).place.weight = 0 := rfl
  omega

/-- **Dispatch over whole runs.** Whatever the callbacks do: those that have
had their turn, and those of the batch that are to have it, are what all polls
have reported, each once and in order; nobody is called for what was not
enabled, and no write callback ever; the one assertion that can fail is that
`loop()` is not entered twice; once `quit()` has been called the batch is still
gone through, but there is no further poll, or the one the loop is at; and
between two polls there are only so many steps, each of which can be taken. -/
theorem reactor_dispatches (D : Descriptors ι) (as : List (Event ι)) (s : Reactor ι)
    (hrun : (reactor D).Run new as s) :
    s.handled.map (fun h => (h.channel, h.kind)) ++ s.owed = s.reports.flatten.flatMap asks ∧
    (∀ h ∈ s.handled, h.kind ≠ .write ∧ (h.kind = .read → .enableReading h.channel ∈ as)) ∧
    (∀ a e, s.enabled a → s.next D a = .error e → a = .loop ∧ s.looping = true) ∧
    (s.quit = true → ∀ bs s', (reactor D).Run s bs s' → .loop ∉ bs →
      bs.countP Event.isPoll ≤ s.pollsLeft) ∧
    as.length ≤ Lts.total gain as ∧
    (s.place = .outside ∨ s.place = .poll ∨ ∃ a s', gain a = 0 ∧ s.enabled a ∧
      s.next D a = .ok s') := by
  have h := follows_of_run hrun
  refine ⟨h.inv.dispatched, fun x hx => ?_, fun a e he hn => ?_, fun hq bs s' hrun' hloop => ?_,
    length_le_of_run hrun, ?_⟩
  · have hmem : (x.channel, x.kind) ∈ s.reports.flatten.flatMap asks := by
      rw [← h.inv.dispatched]
      exact List.mem_append_left _ (List.mem_map_of_mem hx)
    obtain ⟨y, hy, hasks⟩ := List.mem_flatMap.mp hmem
    obtain ⟨k, hk, heq⟩ := List.mem_map.mp hasks
    obtain ⟨hchannel, hkind⟩ := Prod.mk.inj heq
    have hasked := (List.mem_filter.mp hk).2
    obtain ⟨hwrite, hread⟩ := h.inv.enabled y hy
    refine ⟨fun hw => ?_, fun hr => ?_⟩
    · rw [hkind, hw, hwrite] at hasked
      cases hasked
    · rw [hkind, hr] at hasked
      rw [← hchannel]
      exact h.enabled _ (hread hasked)
  · rcases h.inv.next_cases he with ⟨s', hok, -⟩ | ⟨ha, hlooping, -⟩
    · rw [hok] at hn
      cases hn
    · exact ⟨ha, hlooping⟩
  · exact polls_after_quit hrun' h.inv hq hloop
  · cases hplace : s.place with
    | outside => exact Or.inl rfl
    | poll => exact Or.inr (Or.inl rfl)
    | condition | forEach | handleEvent =>
        exact Or.inr (Or.inr ⟨.step, s.step, rfl, congrArg Place.isStep hplace, rfl⟩)
    | callback c left todo =>
        exact Or.inr (Or.inr ⟨.returned, _, rfl, congrArg Place.isCallback hplace,
          by rw [next, hplace]⟩)

/-- A timer expires, and its callback quits. -/
def timeout : List (Event Nat) :=
  [.setCallback 3 .read true, .enableReading 3, .loop, .step, .poll [1] 1, .step, .step, .step,
    .quit, .returned, .step, .step, .step, .step]

theorem reactor_dispatches_timeout : ∃ s : Reactor Nat, s.looping = false ∧
    s.handled = [⟨3, .read, true⟩] ∧ s.reports.flatten.flatMap asks = [(3, .read)] := by
  obtain ⟨s, hs, hp⟩ := Option.map_eq_some_iff.mp
    (show ((reactor .nat).exec new timeout).map (fun s => decide (s.looping = false ∧
      s.place = .outside ∧ s.handled = [⟨3, .read, true⟩])) = some true by decide +kernel)
  obtain ⟨hlooping, hplace, hhandled⟩ := of_decide_eq_true hp
  have hall := (reactor_dispatches .nat timeout s (Lts.run_of_exec hs)).1
  rw [hhandled, owed, hplace] at hall
  exact ⟨s, hlooping, hhandled, hall.symm⟩

end Reactor

end Muduo
