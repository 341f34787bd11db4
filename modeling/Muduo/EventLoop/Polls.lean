import Muduo.EventLoop.Poller

/-!
# What a poll finds

`fillActiveChannels` scans the vector up to the kernel's count of entries
with events and looks each of these up in the map. On consistent tables the
count is used up at the last such entry and not before, the look-ups succeed
and the assertions hold (`poll_spec`). With what `updateChannel` does this is
every history of a poller (`poller_tables`).
-/

namespace Muduo

open Lib

namespace Poller

variable {ι : Type} [DecidableEq ι] {D : Descriptors ι} {p p' : Poller ι}

/-! ## The scan -/

/-- The channel to be appended for an entry, if any. -/
def ready (p : Poller ι) (pfd : PollFd) : Option ι :=
  if pfd.revents > 0 then p.channels pfd.fd else none

/-- The scan of `fillActiveChannels`, when the count is that of the entries
with events: it visits them all, and each sets `revents_` of its channel. -/
theorem fillActiveChannels_spec : ∀ (pfds : List PollFd) (numEvents : Int) (p : Poller ι)
    (active : List ι), numEvents = pfds.countP (fun pfd => pfd.revents > 0) →
    (∀ pfd ∈ pfds, pfd.revents > 0 → ∃ c, p.channels pfd.fd = some c ∧ D.fd c = pfd.fd) →
    (pfds.filterMap p.ready).Nodup →
    ∃ p', fillActiveChannels D pfds numEvents p active =
        .ok (p', active ++ pfds.filterMap p.ready) ∧
      p'.pollfds = p.pollfds ∧ p'.channels = p.channels ∧
      (∀ c, c ∉ pfds.filterMap p.ready → p'.channel c = p.channel c) ∧
      ∀ pfd ∈ pfds, ∀ c, p.ready pfd = some c →
        p'.channel c = { p.channel c with revents := pfd.revents }
  | [], _, p, active, _, _, _ => by
      refine ⟨p, ?_, rfl, rfl, fun _ _ => rfl, fun _ h => absurd h List.not_mem_nil⟩
      rw [fillActiveChannels, List.filterMap_nil, List.append_nil]
  | pfd :: rest, numEvents, p, active, hcount, hmap, hnodup => by
      have hmap' : ∀ pfd ∈ rest, pfd.revents > 0 →
          ∃ c, p.channels pfd.fd = some c ∧ D.fd c = pfd.fd :=
        fun x hx => hmap x (List.mem_cons_of_mem pfd hx)
      by_cases hevents : pfd.revents > 0
      · obtain ⟨c, hc, hfd⟩ := hmap pfd (List.mem_cons_self ..) hevents
        have hready : p.ready pfd = some c := by rw [ready, if_pos hevents, hc]
        rw [List.countP_cons_of_pos (by simpa using hevents)] at hcount
        rw [List.filterMap_cons_some hready, List.nodup_cons] at hnodup
        obtain ⟨hnew, hnodup⟩ := hnodup
        obtain ⟨p', hp', hpfds, hchannels, hkeep, hset⟩ := fillActiveChannels_spec rest
          (numEvents - 1) (p.setChannel c { p.channel c with revents := pfd.revents })
          (active ++ [c]) (by omega) hmap' hnodup
        refine ⟨p', ?_, hpfds, hchannels, ?_, ?_⟩
        · rw [fillActiveChannels, if_pos (by omega), if_pos hevents, hc]
          simp only [check_of hfd, ok_bind]
          rw [hp', List.filterMap_cons_some hready, List.append_assoc]
          rfl
        · intro c' hc'
          rw [List.filterMap_cons_some hready, List.mem_cons, not_or] at hc'
          rw [hkeep c' hc'.2]
          exact Function.update_of_ne hc'.1 _ _
        · intro x hx c' hc'
          rcases List.mem_cons.mp hx with rfl | hx
          · obtain rfl := Option.some.inj (hready.symm.trans hc')
            rw [hkeep c hnew]
            exact Function.update_self c _ _
          · have hne : c' ≠ c := by
              rintro rfl
              exact hnew (List.mem_filterMap.mpr ⟨x, hx, hc'⟩)
            rw [hset x hx c' hc']
            simp only [setChannel, Function.update_of_ne hne]
      · have hready : p.ready pfd = none := by rw [ready, if_neg hevents]
        rw [List.countP_cons_of_neg (by simpa using hevents)] at hcount
        rw [List.filterMap_cons_none hready] at hnodup ⊢
        have hset : ∀ {p' : Poller ι}, (∀ x ∈ rest, ∀ c, p.ready x = some c →
            p'.channel c = { p.channel c with revents := x.revents }) →
            ∀ x ∈ pfd :: rest, ∀ c, p.ready x = some c →
              p'.channel c = { p.channel c with revents := x.revents } := by
          intro p' h x hx c hc
          rcases List.mem_cons.mp hx with rfl | hx
          · rw [hready] at hc
            cases hc
          · exact h x hx c hc
        obtain ⟨p', hp', hpfds, hchannels, hkeep, hrest⟩ :=
          fillActiveChannels_spec rest numEvents p active hcount hmap' hnodup
        by_cases hleft : numEvents > 0
        · refine ⟨p', ?_, hpfds, hchannels, hkeep, hset hrest⟩
          rw [fillActiveChannels, if_pos hleft, if_neg hevents, hp']
        · -- the count is used up: no entry to come has events
          have hnone : ∀ x ∈ rest, ¬x.revents > 0 := by
            have hzero : rest.countP (fun pfd => pfd.revents > 0) = 0 := by omega
            intro x hx
            simpa using List.countP_eq_zero.mp hzero x hx
          have hnil : rest.filterMap p.ready = [] :=
            List.filterMap_eq_nil_iff.mpr fun x hx => if_neg (hnone x hx)
          refine ⟨p, ?_, rfl, rfl, fun _ _ => rfl, hset fun x hx c hc => ?_⟩
          · rw [fillActiveChannels, if_neg hleft, hnil, List.append_nil]
          · rw [ready, if_neg (hnone x hx)] at hc
            cases hc

omit [DecidableEq ι] in
theorem getElem?_setRevents (p : Poller ι) (revents : List Int) (i : Nat) (pfd' : PollFd) :
    (p.setRevents revents).pollfds[i]? = some pfd' ↔
      ∃ pfd r, p.pollfds[i]? = some pfd ∧ revents[i]? = some r ∧
        pfd' = { pfd with revents := r } := by
  simp only [setRevents, List.getElem?_zipWith]
  cases p.pollfds[i]? <;> cases revents[i]? <;> simp [eq_comm]

omit [DecidableEq ι] in
theorem setRevents_consistent (h : p.Consistent D) {revents : List Int}
    (hlen : revents.length = p.pollfds.length) : (p.setRevents revents).Consistent D := by
  refine h.of_same rfl (fun _ => rfl) ?_ fun i pfd' hi => ?_
  · simp only [setRevents, List.length_zipWith]
    omega
  · obtain ⟨pfd, r, hpfd, -, rfl⟩ := (getElem?_setRevents p revents i pfd').mp hi
    exact ⟨pfd, hpfd, Or.inl rfl⟩

variable {revents : List Int} {numEvents : Int}

omit [DecidableEq ι] in
/-- An entry with events is that of a channel, which the map finds under the
entry's descriptor. -/
theorem PollResult.found (h : p.Consistent D) (hr : p.PollResult revents numEvents) {i : Nat}
    {pfd : PollFd} (hi : (p.setRevents revents).pollfds[i]? = some pfd) (hpos : pfd.revents > 0) :
    ∃ c, (p.channel c).index = i ∧ p.channels pfd.fd = some c ∧ D.fd c = pfd.fd := by
  obtain ⟨pfd₀, r, hpfd, hrev, rfl⟩ := (getElem?_setRevents p revents i pfd).mp hi
  obtain ⟨c, hc⟩ := (h.covers i).mp (List.getElem?_eq_some_iff.mp hpfd).1
  have hfd : pfd₀.fd = D.fd c := by
    rcases h.entry c i pfd₀ hc hpfd with hfd | hfd
    · exact hfd
    · -- an ignored entry has no events
      have hmem : (pfd₀, r) ∈ p.pollfds.zip revents :=
        List.mem_of_getElem? (List.getElem?_zip_eq_some.mpr ⟨hpfd, hrev⟩)
      have hzero := hr.ignored _ hmem (by dsimp only; omega)
      dsimp only at hpos hzero
      omega
  exact ⟨c, hc, (h.registered _ _).mpr ⟨hfd, by omega⟩, hfd.symm⟩

omit [DecidableEq ι] in
theorem PollResult.ready_iff (h : p.Consistent D) (hr : p.PollResult revents numEvents) {i : Nat}
    {pfd : PollFd} (hi : (p.setRevents revents).pollfds[i]? = some pfd) (c : ι) :
    p.ready pfd = some c ↔ (p.channel c).index = i ∧ pfd.revents > 0 := by
  unfold ready
  by_cases hpos : pfd.revents > 0
  · obtain ⟨c₀, hc₀, hmap, -⟩ := hr.found h hi hpos
    rw [if_pos hpos, hmap]
    constructor
    · intro heq
      obtain rfl := Option.some.inj heq
      exact ⟨hc₀, hpos⟩
    · rintro ⟨hc, -⟩
      rw [h.distinct c c₀ (by omega) (by omega)]
  · rw [if_neg hpos]
    exact ⟨nofun, fun hboth => absurd hboth.2 hpos⟩

omit [DecidableEq ι] in
theorem PollResult.countP (hr : p.PollResult revents numEvents) :
    numEvents = (p.setRevents revents).pollfds.countP (fun pfd => pfd.revents > 0) := by
  have hmap : (p.setRevents revents).pollfds.map PollFd.revents = revents := by
    apply List.ext_getElem?
    intro i
    simp only [setRevents, List.getElem?_map, List.getElem?_zipWith]
    rcases Nat.lt_or_ge i revents.length with hlt | hge
    · have hlt' : i < p.pollfds.length := hr.length ▸ hlt
      rw [List.getElem?_eq_getElem hlt, List.getElem?_eq_getElem hlt']
      rfl
    · rw [List.getElem?_eq_none hge]
      cases p.pollfds[i]? <;> rfl
  have hcount := hr.count
  rw [← hmap, List.countP_map] at hcount
  rw [hcount]
  congr 1
  refine List.countP_congr fun pfd hpfd => ?_
  have hnonneg : 0 ≤ pfd.revents := hr.nonneg _ (hmap ▸ List.mem_map_of_mem hpfd)
  simp only [Function.comp_apply, decide_eq_true_eq]
  omega

omit [DecidableEq ι] in
/-- The channels found are in the order of the vector. -/
theorem PollResult.ordered (h : p.Consistent D) (hr : p.PollResult revents numEvents) :
    ((p.setRevents revents).pollfds.filterMap p.ready).Pairwise
      fun c c' => (p.channel c).index < (p.channel c').index := by
  rw [List.pairwise_filterMap, List.pairwise_iff_getElem]
  intro i j hi hj hij c hc c' hc'
  have hci := ((hr.ready_iff h (List.getElem?_eq_getElem hi) c).mp hc).1
  have hcj := ((hr.ready_iff h (List.getElem?_eq_getElem hj) c').mp hc').1
  omega

/-- The channel's entry has the events `r`. -/
def HasEvents (p : Poller ι) (revents : List Int) (c : ι) (r : Int) : Prop :=
  ∃ i : Nat, (p.channel c).index = i ∧ revents[i]? = some r ∧ r ≠ 0

omit [DecidableEq ι] in
theorem PollResult.hasEvents_iff (h : p.Consistent D) (hr : p.PollResult revents numEvents)
    (c : ι) (r : Int) : p.HasEvents revents c r ↔
      ∃ pfd ∈ (p.setRevents revents).pollfds, p.ready pfd = some c ∧ pfd.revents = r := by
  constructor
  · rintro ⟨i, hc, hrev, hne⟩
    obtain ⟨hlt, hget⟩ := List.getElem?_eq_some_iff.mp hrev
    have hnonneg : 0 ≤ r := hr.nonneg r (hget ▸ List.getElem_mem hlt)
    have hlt' : i < p.pollfds.length := hr.length ▸ hlt
    have hi : (p.setRevents revents).pollfds[i]? = some { p.pollfds[i] with revents := r } :=
      (getElem?_setRevents p revents i _).mpr
        ⟨p.pollfds[i], r, List.getElem?_eq_getElem hlt', hrev, rfl⟩
    exact ⟨_, List.mem_of_getElem? hi, (hr.ready_iff h hi c).mpr ⟨hc, by dsimp only; omega⟩, rfl⟩
  · rintro ⟨pfd, hpfd, hready, rfl⟩
    obtain ⟨i, hi⟩ := List.getElem?_of_mem hpfd
    obtain ⟨hc, hpos⟩ := (hr.ready_iff h hi c).mp hready
    obtain ⟨pfd₀, r, -, hrev, rfl⟩ := (getElem?_setRevents p revents i pfd).mp hi
    exact ⟨i, hc, hrev, ne_of_gt hpos⟩

/-- With no events counted the scan is over before it begins. -/
theorem poll_eq (p : Poller ι) (revents : List Int) (numEvents : Int) (active : List ι) :
    p.poll D revents numEvents active = fillActiveChannels D (p.setRevents revents).pollfds
      numEvents (p.setRevents revents) active := by
  unfold poll
  by_cases hpos : numEvents > 0
  · exact if_pos hpos
  · cases hpfds : (p.setRevents revents).pollfds with
    | nil => simp only [if_neg hpos, fillActiveChannels]
    | cons pfd rest => simp only [if_neg hpos, fillActiveChannels]

/-- **A poll appends exactly the channels whose entry has events**, each
once, in the order of the vector, and sets their `revents_`. -/
theorem poll_spec (h : p.Consistent D) (hr : p.PollResult revents numEvents) (active : List ι) :
    ∃ p' found, p.poll D revents numEvents active = .ok (p', active ++ found) ∧
      found.Pairwise (fun c c' => (p.channel c).index < (p.channel c').index) ∧
      (∀ c, c ∈ found ↔ ∃ r, p.HasEvents revents c r) ∧
      (∀ c r, p.HasEvents revents c r → p'.channel c = { p.channel c with revents := r }) ∧
      (∀ c, c ∉ found → p'.channel c = p.channel c) ∧
      p'.pollfds = (p.setRevents revents).pollfds ∧ p'.channels = p.channels := by
  have hmap : ∀ pfd ∈ (p.setRevents revents).pollfds, pfd.revents > 0 →
      ∃ c, p.channels pfd.fd = some c ∧ D.fd c = pfd.fd := by
    intro pfd hpfd hpos
    obtain ⟨i, hi⟩ := List.getElem?_of_mem hpfd
    obtain ⟨c, -, hc⟩ := hr.found h hi hpos
    exact ⟨c, hc⟩
  have hnodup : ((p.setRevents revents).pollfds.filterMap p.ready).Nodup :=
    (hr.ordered h).imp fun hlt heq => absurd hlt (by rw [heq]; exact lt_irrefl _)
  obtain ⟨p', hp', hpfds, hchannels, hkeep, hset⟩ := fillActiveChannels_spec
    (p.setRevents revents).pollfds numEvents (p.setRevents revents) active hr.countP hmap hnodup
  refine ⟨p', (p.setRevents revents).pollfds.filterMap p.ready, (poll_eq ..).trans hp',
    hr.ordered h, ?_, ?_, hkeep, hpfds, hchannels⟩
  · intro c
    simp only [hr.hasEvents_iff h, List.mem_filterMap]
    constructor
    · rintro ⟨pfd, hpfd, hready⟩
      exact ⟨pfd.revents, pfd, hpfd, hready, rfl⟩
    · rintro ⟨-, pfd, hpfd, hready, rfl⟩
      exact ⟨pfd, hpfd, hready⟩
  · intro c r hc
    obtain ⟨pfd, hpfd, hready, rfl⟩ := (hr.hasEvents_iff h c r).mp hc
    exact hset pfd hpfd c hready

/-- What a poll changes are the events found, in the entries and in the
channels; one that fails may change the former. -/
theorem poll_keeps (h : p.Consistent D) (hr : 0 ≤ numEvents → p.PollResult revents numEvents)
    {active active' : List ι} (hn : p.poll D revents numEvents active = .ok (p', active')) :
    p'.pollfds = (p.setRevents revents).pollfds ∧ p'.channels = p.channels ∧
      ∀ c, (p'.channel c).index = (p.channel c).index ∧
        (p'.channel c).events = (p.channel c).events := by
  rcases lt_or_ge numEvents 0 with hneg | hpos
  · unfold poll at hn
    simp only [if_neg (not_lt.mpr hneg.le)] at hn
    cases hn
    exact ⟨rfl, rfl, fun _ => ⟨rfl, rfl⟩⟩
  · obtain ⟨p₁, found, hp₁, -, hfound, hevents, hkeep, hpfds, hchannels⟩ :=
      poll_spec h (hr hpos) active
    obtain rfl := (Prod.mk.inj (Except.ok.inj (hp₁.symm.trans hn))).1
    refine ⟨hpfds, hchannels, fun c => ?_⟩
    by_cases hc : c ∈ found
    · obtain ⟨r, hr'⟩ := (hfound c).mp hc
      rw [hevents c r hr']
      exact ⟨rfl, rfl⟩
    · rw [hkeep c hc]
      exact ⟨rfl, rfl⟩

/-- Polls leave the tables consistent, those that fail too. -/
theorem poll_consistent (h : p.Consistent D) (hlen : revents.length = p.pollfds.length)
    (hr : 0 ≤ numEvents → p.PollResult revents numEvents) {active active' : List ι}
    (hn : p.poll D revents numEvents active = .ok (p', active')) : p'.Consistent D := by
  obtain ⟨hpfds, hchannels, hkeep⟩ := poll_keeps h hr hn
  refine (setRevents_consistent h hlen).of_same hchannels (fun c => (hkeep c).1)
    (by rw [hpfds]) fun i pfd hi => ?_
  exact ⟨pfd, hpfds ▸ hi, Or.inl rfl⟩

/-! ## Every history -/

theorem poll_of_next (hn : p.next D (.poll revents numEvents) = .ok p') :
    ∃ active, p.poll D revents numEvents [] = .ok (p', active) := by
  have hmap : (p.poll D revents numEvents []).map Prod.fst = .ok p' := hn
  cases hpoll : p.poll D revents numEvents [] with
  | error e => rw [hpoll] at hmap; cases hmap
  | ok r =>
      rw [hpoll] at hmap
      obtain rfl := Except.ok.inj hmap
      exact ⟨r.2, rfl⟩

theorem consistent_invariant (D : Descriptors ι) : (poller D).Invariant (Consistent D) where
  init p hp := by
    obtain rfl : p = .new := hp
    exact consistent_new
  step p a p' h he hn := by
    cases a with
    | setEvents c events =>
        cases hn
        exact setEvents_consistent h c events
    | updateChannel c => exact updateChannel_consistent h hn
    | poll revents numEvents =>
        obtain ⟨active, hpoll⟩ := poll_of_next hn
        exact poll_consistent h he.1 he.2 hpoll

/-- **The tables stay consistent and dispatch is complete.** After any calls
of `updateChannel`, changes of masks and polls: the vector, the map and the
indices agree, the next call of `updateChannel` fails no assertion, and the
next poll that is not an error appends exactly the channels whose entry has
events, each once, in the order of the vector, with `revents_` set to that
entry's value. -/
theorem poller_tables (D : Descriptors ι) {p : Poller ι} (hp : (poller D).Reachable p) :
    p.Consistent D ∧ (∀ c, ∃ p', p.updateChannel D c = .ok p') ∧
      ∀ revents numEvents, p.PollResult revents numEvents → ∀ active, ∃ p' found,
        p.poll D revents numEvents active = .ok (p', active ++ found) ∧
        found.Pairwise (fun c c' => (p.channel c).index < (p.channel c').index) ∧
        (∀ c, c ∈ found ↔ ∃ r, p.HasEvents revents c r) ∧
        ∀ c r, p.HasEvents revents c r → (p'.channel c).revents = r := by
  have h := (consistent_invariant D).reachable hp
  refine ⟨h, updateChannel_ok h, fun revents numEvents hr active => ?_⟩
  obtain ⟨p', found, hp', hordered, hfound, hevents, -⟩ := poll_spec h hr active
  refine ⟨p', found, hp', hordered, hfound, fun c r hc => ?_⟩
  rw [hevents c r hc]

/-- The descriptors 0, 1, 2, … -/
def Descriptors.nat : Descriptors Nat where
  fd c := c
  fd_nonneg := Int.natCast_nonneg
  fd_inj := Int.ofNat.inj

/-- Two channels are added and a third time one of them is updated, with an
empty mask; then the other has an event. -/
theorem poller_tables_two : ∃ p p' found, (poller .nat).Reachable p ∧
    p.poll .nat [0, 4] 1 [] = .ok (p', found) ∧ 2 ∈ found ∧ (p'.channel 2).revents = 4 := by
  obtain ⟨p, hp, hcheck⟩ := Lts.exists_reachable_of_exec (L := poller .nat)
    [.setEvents 5 3, .updateChannel 5, .setEvents 2 3, .updateChannel 2, .setEvents 5 0,
      .updateChannel 5]
    (fun p => decide (p.PollResult [0, 4] 1) && decide ((p.channel 2).index = 1)) rfl
    (by decide +kernel)
  simp only [Bool.and_eq_true, decide_eq_true_eq] at hcheck
  obtain ⟨p', found, hp', -, hfound, hevents⟩ :=
    (poller_tables .nat hp).2.2 [0, 4] 1 hcheck.1 []
  have htwo : p.HasEvents [0, 4] 2 4 := ⟨1, hcheck.2, rfl, by decide⟩
  exact ⟨p, p', found, hp, hp', (hfound 2).mpr ⟨4, htwo⟩, hevents 2 4 htwo⟩

end Poller

end Muduo
