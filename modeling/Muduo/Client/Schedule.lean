import Muduo.Client.Pace

/-!
# The schedule of the retries

Called while there is nothing else to come, the connector keeps to the
schedule: a socket is opened no sooner than the delay of the retry after the
one before, 0.5 s, 1 s, 2 s up to 30 s. And it goes on: as long as nobody
stops it and no error is one not to be retried, it is connected or on its way
(`attempts_spaced`).
-/

namespace Muduo

open Lib

namespace Connector

section GoesOn

variable {Tid G : Type} {s s' : Connector Tid G}

/-- Connected, or on the way. -/
def GoesOn (s : Connector Tid G) : Prop :=
  s.state = .kConnected ∨ 0 < s.starts + s.isRegistered.toNat

theorem GoesOn.congr (h : GoesOn s) (hstate : s'.state = s.state)
    (hle : s.starts + s.isRegistered.toNat ≤ s'.starts + s'.isRegistered.toNat) : GoesOn s' :=
  h.imp (fun hc => hstate.trans hc) fun hpos => Nat.lt_of_lt_of_le hpos hle

theorem goesOn_goTo (h : GoesOn s) {pc : Pc} (hpc : s.pc.starts ≤ pc.starts) :
    GoesOn (s.goTo pc) := by
  have hgo := starts_goTo (s := s) pc
  refine h.congr rfl (Nat.add_le_add_right ?_ s.isRegistered.toNat)
  omega

theorem goesOn_step (h : GoesOn s) (hconnect : s.connect_ = true) (m : Step s s') :
    s'.connect_ = true ∧ GoesOn s' := by
  cases m with
  | start hpc _ =>
      rw [if_pos hconnect]
      refine ⟨hconnect, goesOn_goTo h ?_⟩
      rw [hpc]
      exact Nat.le_refl 1
  | @drop sockfd write hpc _ hc =>
      have hgo := starts_removed (s := s) sockfd (.retry write)
      have hnot : s.pc.starts = 0 := by
        rcases hpc with ⟨hpc, -⟩ | hpc | ⟨w, hpc, -⟩
        all_goals rw [hpc]; rfl
      rw [hnot] at hgo
      exact ⟨hconnect, .inr (Nat.lt_of_lt_of_eq (Nat.succ_pos _) hgo.symm)⟩
  | stopped hpc _ =>
      refine ⟨hconnect, goesOn_goTo h ?_⟩
      rw [hpc]
      exact Nat.le_refl 0
  | write hpc _ =>
      refine ⟨hconnect, goesOn_goTo h ?_⟩
      rw [hpc]
      exact Nat.le_refl 0
  | succeed _ _ _ => exact ⟨hconnect, .inl rfl⟩
  | @retry write hpc =>
      refine ⟨?_, .inr ?_⟩
      · unfold runAfter
        split <;> exact hconnect
      · have hset : 0 < s.runAfter.timers.length := by
          rw [runAfter, if_pos hconnect, List.length_append]
          exact Nat.succ_pos _
        simp only [starts, goTo]
        omega
  | established hpc =>
      have hgo : GoesOn (s.goTo .idle) := goesOn_goTo h (by rw [hpc]; exact Nat.le_refl 0)
      unfold established
      split
      · exact ⟨hconnect, hgo⟩
      · exact ⟨hconnect, hgo⟩

theorem goesOn_connect (hconnect : s.connect_ = true) {e : Errno}
    (he : e.outcome ≠ .close) (m : Opens s e s') : s'.connect_ = true ∧ GoesOn s' := by
  cases m with
  | connecting _ hc => exact ⟨hconnect, .inr (Nat.succ_pos _)⟩
  | retry _ =>
      refine ⟨hconnect, .inr ?_⟩
      simp only [starts, Connector.retry, goTo, Pc.starts]
      omega
  | close hclose => exact absurd hclose he

theorem goesOn_runFunctor (h : GoesOn s) (hconnect : s.connect_ = true) (hd : Deferred s)
    (hpc : s.pc = .idle) {f : Functor G} {fs : List (Functor G)}
    (hf : s.functors.todo = f :: fs) :
    ({ s with functors := s.functors.advance }.runFunctor f).connect_ = true ∧
      GoesOn ({ s with functors := s.functors.advance }.runFunctor f) := by
  have hadv := starts_advance hf
  have hgo := starts_from_idle (s := { s with functors := s.functors.advance }) hpc
  have hsame : ∀ pc : Pc, s.starts = { s with functors := s.functors.advance }.starts + pc.starts →
      GoesOn ({ s with functors := s.functors.advance }.goTo pc) := by
    intro pc hp
    refine h.congr rfl (Nat.add_le_add_right (Nat.le_of_eq ?_) s.isRegistered.toNat)
    exact hp.trans (hgo pc).symm
  cases f with
  | startInLoop => exact ⟨hconnect, hsame .startInLoop hadv⟩
  | stopInLoop => exact ⟨hconnect, hsame .stopInLoop hadv⟩
  | resetChannel =>
      -- What the reset destroys has left the poller.
      have hresets : s.resets ≠ 0 := by
        rw [resets_advance hf]
        exact Nat.succ_ne_zero _
      have hreg := not_registered_of_stale (hd.stale_of_resets hresets)
      refine ⟨hconnect, h.congr rfl ?_⟩
      rw [hreg, hadv]
      exact Nat.le_refl _
  | other g =>
      exact ⟨hconnect, h.congr rfl (Nat.add_le_add_right (Nat.le_of_eq hadv) s.isRegistered.toNat)⟩

variable [DecidableEq Tid] {a : Event Tid G}

/-- Begun, the attempts go on until they are stopped or fail for good. -/
theorem goesOn_next (h : GoesOn s) (hconnect : s.connect_ = true) (hd : Deferred s)
    (hkind : ∀ r, a.kind ≠ .call r) (hgives : a.givesUp = false) (he : s.enabled a = true)
    (hn : s.next a = .ok s') : s'.connect_ = true ∧ GoesOn s' := by
  cases a with
  | start t => exact absurd rfl (hkind false)
  | restart => exact absurd rfl (hkind true)
  | stop t => cases hgives
  | connect e =>
      exact goesOn_connect hconnect (of_decide_eq_false hgives) (opens_of_next hn)
  | step =>
      simp only [enabled, Bool.and_eq_true, decide_eq_true_eq] at he
      exact goesOn_step h hconnect (step_of_next he.1 he.2 hn)
  | queueStart t =>
      cases hn
      refine ⟨hconnect, .inr ?_⟩
      have hqueue := starts_queueInLoop (s := { s with starting := s.starting.erase t })
        .startInLoop
      rw [hqueue]
      exact Nat.lt_of_lt_of_le (Nat.succ_pos _) (Nat.le_add_right _ _)
  | queueStop t =>
      cases hn
      exact ⟨hconnect, h.congr rfl (Nat.add_le_add_right (Nat.le_of_eq (starts_queueInLoop (s := {
        s with stopping := s.stopping.erase t }) .stopInLoop).symm) _)⟩
  | queueInLoop g =>
      cases hn
      exact ⟨hconnect, h.congr rfl (Nat.add_le_add_right
        (Nat.le_of_eq (starts_queueInLoop (.other g)).symm) _)⟩
  | swap =>
      simp only [enabled, Bool.and_eq_true, decide_eq_true_eq] at he
      cases hn
      refine ⟨hconnect, h.congr rfl (Nat.add_le_add_right (Nat.le_of_eq ?_) s.isRegistered.toNat)⟩
      simp only [starts, Batch.queued_swap he.2]
  | functor =>
      simp only [enabled, Bool.and_eq_true, decide_eq_true_eq] at he
      simp only [Connector.next] at hn
      split at hn
      · cases hn
        exact ⟨hconnect, h⟩
      · rename_i hf
        cases hn
        exact goesOn_runFunctor h hconnect hd he.1 hf
  | finish =>
      simp only [enabled, Bool.and_eq_true, List.isEmpty_iff] at he
      cases hn
      refine ⟨hconnect, h.congr rfl (Nat.add_le_add_right (Nat.le_of_eq ?_) s.isRegistered.toNat)⟩
      simp only [starts, Batch.queued_finish he.2]
  | timer i =>
      cases hn
      refine ⟨hconnect, .inr ?_⟩
      simp only [starts, Pc.starts]
      omega
  | channel error write =>
      simp only [enabled, Bool.and_eq_true, decide_eq_true_eq] at he
      cases hn
      have hgo : ∀ pc, GoesOn (s.goTo pc) := by
        intro pc
        refine goesOn_goTo h ?_
        rw [he.1.1]
        exact Nat.zero_le _
      unfold handleEvent
      split
      · exact ⟨hconnect, hgo _⟩
      · split
        · exact ⟨hconnect, hgo _⟩
        · exact ⟨hconnect, h⟩
  | lost =>
      cases hn
      exact ⟨hconnect, h⟩

theorem goesOn_call {r : Bool} (hkind : a.kind = .call r) (hn : s.next a = .ok s') :
    s'.connect_ = true ∧ GoesOn s' := by
  cases a with
  | start t =>
      cases t with
      | loop =>
          cases hn
          refine ⟨rfl, .inr ?_⟩
          simp only [starts, Pc.starts]
          omega
      | other t =>
          cases hn
          refine ⟨rfl, .inr ?_⟩
          simp only [starts, List.length_cons]
          omega
  | restart =>
      cases hn
      refine ⟨rfl, .inr ?_⟩
      simp only [starts, restart, Pc.starts]
      omega
  | _ => cases hkind

end GoesOn

namespace Timed

variable {Tid G : Type} {s s' : Timed Tid G}

/-! ## The schedule -/

/-- At `t` a whole delay has passed since the newest opening. -/
def Due (base t : Nat) : List Nat → Prop
  | [] => True
  | o :: os => expiry o (backoff (base + os.length)) ≤ t

/-- The openings, the newest first, are as far apart as the schedule says. -/
def Spaced (base : Nat) : List Nat → Prop
  | [] => True
  | o :: os => Due base o os ∧ Spaced base os

theorem Due.mono {base t t' : Nat} {os : List Nat} (h : Due base t os) (hle : t ≤ t') :
    Due base t' os := by
  cases os with
  | nil => trivial
  | cons o os => exact Nat.le_trans h hle

/-- The delays of `n` retries in a row, in microseconds. -/
def waits (base : Nat) : Nat → Nat
  | 0 => 0
  | n + 1 => waits base n + 1000 * backoff (base + n)

theorem Spaced.elapsed {base o first : Nat} {os : List Nat} (h : Spaced base (o :: os))
    (hfirst : first ∈ (o :: os).getLast?) : first + waits base os.length ≤ o := by
  induction os generalizing o with
  | nil =>
      obtain rfl := Option.some.inj hfirst
      exact Nat.le_refl _
  | cons o' os ih =>
      have hdue : o' + 1000 * backoff (base + os.length) ≤ o := h.1
      have hrest := ih h.2 hfirst
      rw [List.length_cons, waits]
      omega

theorem waits_late (base m : Nat) :
    waits base (6 + m) = waits base 6 + 1000 * kMaxRetryDelayMs * m := by
  induction m with
  | zero => rw [Nat.mul_zero, Nat.add_zero, Nat.add_zero]
  | succ m ih =>
      rw [← Nat.add_assoc, waits, ih, backoff_late (by omega), Nat.mul_succ, Nat.add_assoc]

theorem leastWait_le_waits (base n : Nat) : leastWait * n ≤ waits base n := by
  induction n with
  | zero => exact Nat.le_refl _
  | succ n ih =>
      have hone := kInitRetryDelayMs_le_backoff (base + n)
      rw [waits, Nat.mul_succ, leastWait]
      rw [leastWait] at ih
      omega

/-- All but two and a half minutes at half a minute for each retry. -/
theorem le_waits (base n : Nat) : 1000 * kMaxRetryDelayMs * n ≤ waits base n + 148500000 := by
  have hmax : kMaxRetryDelayMs = 30000 := rfl
  rw [hmax]
  by_cases hn : n < 6
  · have hleast := leastWait_le_waits base n
    rw [leastWait_eq] at hleast
    omega
  · obtain ⟨m, rfl⟩ := Nat.exists_eq_add_of_le (Nat.not_lt.mp hn)
    have hlow : waits 0 6 ≤ waits base 6 := by
      have hle := fun k => backoff_mono (Nat.le_add_left k base)
      have h₀ := hle 0
      have h₁ := hle 1
      have h₂ := hle 2
      have h₃ := hle 3
      have h₄ := hle 4
      have h₅ := hle 5
      simp only [waits, Nat.zero_add]
      omega
    have hsix : waits 0 6 = 31500000 := rfl
    rw [waits_late, hmax]
    omega

/-- Where the attempt under way stands on the schedule. -/
structure Paced (s : Timed Tid G) : Prop where
  single : Single s.conn
  due : s.due.length = s.conn.timers.length
  delay : s.conn.retryDelayMs = backoff (s.base + s.retries)
  past : ∀ t ∈ s.openings, t ≤ s.now
  spaced : Spaced s.base s.openings
  ready : 0 < s.conn.ready → s.openings.length = s.retries ∧ Due s.base s.now s.openings
  timer : ∀ u ∈ s.due, s.openings.length = s.retries ∧ Due s.base u s.openings
  pending : 0 < s.conn.pending → s.openings.length = s.retries + 1

theorem paced_new : Paced (new : Timed Tid G) where
  single := single_new
  due := rfl
  delay := rfl
  past := by simp [new]
  spaced := trivial
  ready _ := ⟨rfl, trivial⟩
  timer := by simp [new]
  pending h := absurd h (Nat.lt_irrefl 0)

theorem Paced.pass (h : Paced s) (d : Nat) : Paced { s with now := s.now + d } :=
  { h with
    past := fun t ht => Nat.le_add_right_of_le (h.past t ht)
    ready := fun hr => ⟨(h.ready hr).1, (h.ready hr).2.mono (Nat.le_add_right _ d)⟩ }

/-- The delay set after an opening has passed when its timer expires. -/
theorem Paced.due_expiry (h : Paced s) (hlen : s.openings.length = s.retries + 1) :
    Due s.base (expiry s.now s.conn.retryDelayMs) s.openings := by
  cases ho : s.openings with
  | nil =>
      rw [ho] at hlen
      cases hlen
  | cons o os =>
      have hpast : o ≤ s.now := h.past o (ho ▸ List.mem_cons_self)
      rw [ho, List.length_cons] at hlen
      rw [Due, Nat.succ.inj hlen, h.delay]
      exact Nat.add_le_add_right hpast _

theorem Paced.event (h : Paced s) {a : Connector.Event Tid G} {conn : Connector Tid G}
    (hexpired : s.expired a = true) (hbeat : Beat s.conn a conn) (hsingle : Single conn)
    (hcall : ∀ r, a.kind = .call r → s.conn.starts + s.conn.isRegistered.toNat = 0) :
    Paced (s.after a conn) := by
  have hone : s.conn.ready + s.conn.timers.length + s.conn.pending ≤ 1 :=
    starts_eq s.conn ▸ h.single.one
  cases hbeat with
  | @call restart hkind ho ht hd hr hp =>
      have hno := hcall restart hkind
      rw [starts_eq] at hno
      rw [after_call hkind]
      refine ⟨hsingle, by rw [ht]; exact h.due, ?_, by simp, trivial, fun _ => ⟨rfl, trivial⟩,
        fun u hu => ?_, fun hpos => ?_⟩
      · dsimp only
        rw [hd]
        cases restart with
        | false => exact h.delay
        | true => rfl
      · have hpos := List.length_pos_of_mem hu
        have hdue := h.due
        dsimp only at hpos
        omega
      · dsimp only at hpos
        omega
  | fires hkind hlt ho ht hd hr hp =>
      obtain ⟨u, hu, hle⟩ := expired_timer hkind hexpired
      obtain ⟨hlen, hdue⟩ := h.timer u (List.mem_of_getElem? hu)
      rw [after_fires hkind]
      refine ⟨hsingle, ?_, hd.trans h.delay, h.past, h.spaced,
        fun _ => ⟨hlen, hdue.mono hle⟩, fun v hv => h.timer v (List.mem_of_mem_eraseIdx hv),
        fun hpos => ?_⟩
      · dsimp only
        rw [ht, List.length_eraseIdx_of_lt hlt, List.length_eraseIdx_of_lt (h.due ▸ hlt), h.due]
      · dsimp only at hpos
        omega
  | opens hkind ho ht hd hr hp =>
      obtain ⟨hlen, hdue⟩ := h.ready (Nat.lt_of_lt_of_le (Nat.succ_pos _) hr)
      rw [after_opens hkind ho ht]
      refine ⟨hsingle, by rw [ht]; exact h.due, hd.trans h.delay, ?_, ⟨hdue, h.spaced⟩,
        fun hpos => ?_, fun u hu => ?_, fun _ => congrArg (· + 1) hlen⟩
      · intro t ht
        rcases List.mem_cons.mp ht with rfl | ht
        · exact Nat.le_refl _
        · exact h.past t ht
      · dsimp only at hpos
        omega
      · have hpos := List.length_pos_of_mem hu
        have hlength := h.due
        dsimp only at hpos
        omega
  | arms hkind ho ht hd hr hp =>
      have hlen := h.pending (Nat.lt_of_lt_of_le (Nat.succ_pos _) hp)
      have hnil : s.due = [] := List.eq_nil_of_length_eq_zero (by rw [h.due]; omega)
      rw [after_arms hkind ho ht]
      refine ⟨hsingle, ?_, ?_, h.past, h.spaced, fun hpos => ?_, fun u hu => ?_, fun hpos => ?_⟩
      · dsimp only
        rw [ht, List.length_append, List.length_append, h.due]
        rfl
      · dsimp only
        rw [hd, h.delay]
        rfl
      · dsimp only at hpos
        omega
      · dsimp only at hu ⊢
        rw [hnil, List.nil_append] at hu
        obtain rfl := List.mem_singleton.mp hu
        exact ⟨hlen, h.due_expiry hlen⟩
      · dsimp only at hpos
        omega
  | quiet hkind ho ht hd hr hp =>
      rw [after_quiet hkind ho ht]
      exact ⟨hsingle, by rw [ht]; exact h.due, hd.trans h.delay, h.past, h.spaced,
        fun hpos => h.ready (Nat.lt_of_lt_of_le hpos hr), h.timer,
        fun hpos => h.pending (Nat.lt_of_lt_of_le hpos hp)⟩

/-! ## Runs that keep to it -/

/-- A call of `start()` or `restart()` is made while there is nothing else to
come, as for `Connector.WellStarted`. -/
def WellStarted (s : Timed Tid G) : Event Tid G → Prop
  | .pass _ => True
  | .event a => s.conn.WellStarted a

theorem starts_eq_zero (h : Single s.conn) {a : Connector.Event Tid G}
    (hC : s.conn.WellStarted a) {r : Bool} (hkind : a.kind = .call r) :
    s.conn.starts + s.conn.isRegistered.toNat = 0 := by
  cases a with
  | start t =>
      obtain ⟨hno, hstate⟩ := hC
      rw [hno, h.not_registered (by rw [hstate]; simp)]
      rfl
  | restart =>
      obtain ⟨hno, hstate⟩ := hC
      rw [hno, h.not_registered hstate]
      rfl
  | _ => cases hkind

/-- Called and not given up, the attempts go on. -/
def Persists (s : Timed Tid G) : Prop :=
  s.calls ≠ [] → s.givenUp = false → s.conn.connect_ = true ∧ GoesOn s.conn

variable [DecidableEq Tid]

theorem Persists.event (h : Persists s) (hd : Deferred s.conn) {a : Connector.Event Tid G}
    {conn : Connector Tid G} (he : s.conn.enabled a = true) (hn : s.conn.next a = .ok conn) :
    Persists (s.after a conn) := by
  intro hcalls hgiven
  cases hkind : a.kind with
  | call r =>
      rw [after_call hkind]
      exact goesOn_call hkind hn
  | timer i =>
      have hgives : a.givesUp = false := by cases a <;> first | rfl | cases hkind
      rw [after_fires hkind] at hcalls hgiven ⊢
      obtain ⟨hconnect, hgo⟩ := h hcalls hgiven
      exact goesOn_next hgo hconnect hd (by rw [hkind]; simp) hgives he hn
  | other =>
      have hcalls' : s.calls ≠ [] := by
        rw [after, hkind] at hcalls
        exact hcalls
      have hgiven' : (s.givenUp || a.givesUp) = false := by
        rw [after, hkind] at hgiven
        exact hgiven
      obtain ⟨hgiven, hgives⟩ := Bool.or_eq_false_iff.mp hgiven'
      obtain ⟨hconnect, hgo⟩ := h hcalls' hgiven
      rw [after, hkind]
      exact goesOn_next hgo hconnect hd (by rw [hkind]; simp) hgives he hn

/-- The clock aside, these are runs of the connector. -/
theorem conn_reachable (hs : system.Reachable s) : Connector.system.Reachable s.conn := by
  have hinv : (system : Lts (Timed Tid G) _ _).Invariant
      fun s => Connector.system.Reachable s.conn := {
    init := by
      rintro s hs
      rw [show s = new from hs]
      exact .of_init rfl
    step := fun s a s' h he hn => by
      cases a with
      | pass d =>
          cases hn
          exact h
      | event a =>
          obtain ⟨conn, hconn, rfl⟩ := next_ok hn
          have hstep := h.step (Bool.and_eq_true .. |>.mp he).1 hconn
          cases hkind : a.kind with
          | call r =>
              rw [after_call hkind]
              exact hstep
          | timer i =>
              rw [after_fires hkind]
              exact hstep
          | other =>
              rw [after, hkind]
              exact hstep }
  exact hinv.reachable hs

theorem paced_reachable (hs : (system.guarded WellStarted).Reachable s) :
    Paced s ∧ Persists s := by
  refine hs.invariant (I := fun s => Paced s ∧ Persists s) ?_ ?_
  · rintro s hs
    rw [show s = new from hs]
    exact ⟨paced_new, fun h => absurd rfl h⟩
  · intro s a s' hs h he hn
    cases a with
    | pass d =>
        cases hn
        exact ⟨h.1.pass d, h.2⟩
    | event a =>
        obtain ⟨conn, hconn, rfl⟩ := next_ok hn
        obtain ⟨⟨he, hexpired⟩, hC⟩ := And.imp_left (Bool.and_eq_true .. |>.mp) he
        have hd := deferred_reachable (conn_reachable hs.of_guarded)
        refine ⟨h.1.event hexpired (beat_of_next he hconn) (h.1.single.next he hC hconn)
          fun r hkind => starts_eq_zero h.1.single hC hkind, h.2.event hd he hconn⟩

/-- Since the last call, two sockets in a row have been opened no closer than
the delay of the retry between them; so the last is all the delays later than
the first, in the long run half a minute for each; and unless it is stopped or
an error is not to be retried, the connector is connected, or one attempt or
timer is there to go on. -/
structure OnSchedule (s : Timed Tid G) : Prop where
  spaced : Spaced s.base s.openings
  elapsed : ∀ first ∈ s.openings.getLast?,
    first + waits s.base (s.openings.length - 1) ≤ s.now ∧
    1000 * kMaxRetryDelayMs * (s.openings.length - 1) ≤ s.now - first + 148500000
  goesOn : s.calls ≠ [] → s.givenUp = false → s.conn.state = .kConnected ∨
    s.conn.starts + s.conn.isRegistered.toNat = 1

/-- **The schedule is kept**, and kept up, in every run under the side
condition. -/
theorem attempts_spaced (hs : (system.guarded WellStarted).Reachable s) : s.OnSchedule := by
  obtain ⟨hpaced, hpersists⟩ := paced_reachable hs
  refine ⟨hpaced.spaced, fun first hfirst => ?_, fun hcalls hgiven => ?_⟩
  · have hpast := hpaced.past
    have hspaced := hpaced.spaced
    cases ho : s.openings with
    | nil =>
        rw [ho] at hfirst
        cases hfirst
    | cons o os =>
        rw [ho] at hfirst hpast hspaced
        have helapsed := hspaced.elapsed hfirst
        have hnow := hpast o List.mem_cons_self
        have hrate := le_waits s.base os.length
        rw [List.length_cons, Nat.add_sub_cancel]
        exact ⟨Nat.le_trans helapsed hnow, by omega⟩
  · refine (hpersists hcalls hgiven).2.imp_right fun hpos => ?_
    exact Nat.le_antisymm hpaced.single.one hpos

/-- Refused once, and tried again half a second later. -/
theorem attempts_spaced_refused : ∃ s : Timed Nat Unit,
    s.openings = [500000, 0] ∧ s.conn.state = .kConnecting ∧ s.OnSchedule := by
  let L : Lts (Timed Nat Unit) (Event Nat Unit) Fault := system.guarded WellStarted
  have h₀ : L.Reachable new := .of_init rfl
  have h₁ := h₀.step (a := Event.event (.start .loop)) ⟨rfl, rfl, rfl⟩ rfl
  have h₂ := h₁.step (a := Event.event .step) ⟨rfl, trivial⟩ rfl
  have h₃ := h₂.step (a := Event.event (.connect .ECONNREFUSED)) ⟨rfl, trivial⟩ rfl
  have h₄ := h₃.step (a := Event.event .step) ⟨rfl, trivial⟩ rfl
  have h₅ := h₄.step (a := Event.pass 500000) ⟨rfl, trivial⟩ rfl
  have h₆ := h₅.step (a := Event.event (.timer 0)) ⟨rfl, trivial⟩ rfl
  have h₇ := h₆.step (a := Event.event .step) ⟨rfl, trivial⟩ rfl
  have h₈ := h₇.step (a := Event.event (.connect .EINPROGRESS)) ⟨rfl, trivial⟩ rfl
  exact ⟨_, rfl, rfl, attempts_spaced h₈⟩

end Timed

end Connector

end Muduo
