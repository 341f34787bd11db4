import Muduo.Client.Attempts
import Muduo.Client.Slot

/-!
# The connector and the clock

`runAfter` adds a timer that expires so much later, and a timer fires when
the clock has got there, not before. An event is told apart by what it does
to the sockets opened and to the timers (`Beat`), and by what it leaves of the
calls that have been made: the starts that may open a socket at once
(`ready`), the timers, and the attempts that have opened theirs (`pending`).
-/

namespace Muduo

open Lib

namespace Connector

/-- `retryDelayMs_` after so many retries. -/
def backoff : Nat → Nat
  | 0 => kInitRetryDelayMs
  | n + 1 => min (backoff n * 2) kMaxRetryDelayMs

theorem kInitRetryDelayMs_le_backoff : ∀ n, kInitRetryDelayMs ≤ backoff n
  | 0 => Nat.le_refl _
  | n + 1 => by
      have ih := kInitRetryDelayMs_le_backoff n
      have hmax : kInitRetryDelayMs ≤ kMaxRetryDelayMs := by decide
      exact Nat.le_min.mpr ⟨by omega, hmax⟩

theorem backoff_eq (n : Nat) : backoff n = min (kInitRetryDelayMs * 2 ^ n) kMaxRetryDelayMs := by
  induction n with
  | zero => rfl
  | succ n ih =>
      have hinit : kInitRetryDelayMs = 500 := rfl
      have hmax : kMaxRetryDelayMs = 30000 := rfl
      rw [backoff, ih, Nat.pow_succ, hinit, hmax]
      omega

theorem backoff_mono {m n : Nat} (h : m ≤ n) : backoff m ≤ backoff n := by
  have hpow : 2 ^ m ≤ 2 ^ n := Nat.pow_le_pow_right (by decide) h
  have hmul := Nat.mul_le_mul_left kInitRetryDelayMs hpow
  rw [backoff_eq, backoff_eq]
  omega

/-- From the seventh retry on. -/
theorem backoff_late {n : Nat} (h : 6 ≤ n) : backoff n = kMaxRetryDelayMs := by
  have hpow : 2 ^ 6 ≤ 2 ^ n := Nat.pow_le_pow_right (by decide) h
  have hinit : kInitRetryDelayMs = 500 := rfl
  have hmax : kMaxRetryDelayMs = 30000 := rfl
  rw [backoff_eq, hinit, hmax]
  omega

variable {Tid G : Type} {s s' : Connector Tid G}

/-! ## What is still to come of a call -/

def Pc.ready : Pc → Nat
  | startInLoop => 1
  | connect => 1
  | _ => 0

def Pc.retries : Pc → Nat
  | retry _ => 1
  | _ => 0

/-- The starts that may open a socket at once. -/
def ready (s : Connector Tid G) : Nat :=
  s.functors.queued.countP Functor.isStart + s.starting.length + s.pc.ready

/-- The attempts that have opened theirs. -/
def pending (s : Connector Tid G) : Nat := s.isRegistered.toNat + s.pc.retries

theorem starts_eq (s : Connector Tid G) :
    s.starts + s.isRegistered.toNat = s.ready + s.timers.length + s.pending := by
  have hpc : s.pc.starts = s.pc.ready + s.pc.retries := by cases s.pc <;> rfl
  unfold starts ready pending
  omega

/-- An event as the clock sees it. -/
inductive Kind where
  | call (restart : Bool) | timer (i : Nat) | other

def Event.kind : Event Tid G → Kind
  | start _ => .call false
  | restart => .call true
  | timer i => .timer i
  | _ => .other

/-- The transitions, by what they do to the sockets opened, the timers, and
what is ready and pending. -/
inductive Beat (s : Connector Tid G) (a : Event Tid G) (s' : Connector Tid G) : Prop
  | call {restart : Bool} (kind : a.kind = .call restart) (opened : s'.opened = s.opened)
      (timers : s'.timers = s.timers)
      (delay : s'.retryDelayMs = if restart then kInitRetryDelayMs else s.retryDelayMs)
      (ready : s'.ready ≤ s.ready + 1) (pending : s'.pending ≤ s.pending)
  | fires {i : Nat} (kind : a.kind = .timer i) (lt : i < s.timers.length)
      (opened : s'.opened = s.opened) (timers : s'.timers = s.timers.eraseIdx i)
      (delay : s'.retryDelayMs = s.retryDelayMs)
      (ready : s'.ready ≤ s.ready + 1) (pending : s'.pending ≤ s.pending)
  | opens (kind : a.kind = .other) (opened : s'.opened = s.opened + 1)
      (timers : s'.timers = s.timers) (delay : s'.retryDelayMs = s.retryDelayMs)
      (ready : s'.ready + 1 ≤ s.ready) (pending : s'.pending ≤ s.pending + 1)
  | arms (kind : a.kind = .other) (opened : s'.opened = s.opened)
      (timers : s'.timers = s.timers ++ [s.retryDelayMs])
      (delay : s'.retryDelayMs = min (s.retryDelayMs * 2) kMaxRetryDelayMs)
      (ready : s'.ready ≤ s.ready) (pending : s'.pending + 1 ≤ s.pending)
  | quiet (kind : a.kind = .other) (opened : s'.opened = s.opened)
      (timers : s'.timers = s.timers) (delay : s'.retryDelayMs = s.retryDelayMs)
      (ready : s'.ready ≤ s.ready) (pending : s'.pending ≤ s.pending)

theorem ready_goTo (pc : Pc) : (s.goTo pc).ready + s.pc.ready = s.ready + pc.ready := by
  simp only [ready, goTo]
  omega

theorem pending_goTo (pc : Pc) :
    (s.goTo pc).pending + s.pc.retries = s.pending + pc.retries := by
  simp only [pending, goTo, isRegistered]
  omega

theorem ready_queueInLoop (f : Functor G) :
    (s.queueInLoop f).ready = s.ready + if f.isStart then 1 else 0 := by
  simp only [ready, queueInLoop, Batch.queued_push, List.countP_append, List.countP_singleton]
  omega

theorem ready_advance {f : Functor G} {fs : List (Functor G)} (hf : s.functors.todo = f :: fs) :
    s.ready = { s with functors := s.functors.advance }.ready + if f.isStart then 1 else 0 := by
  simp only [ready, Batch.queued_advance hf, List.countP_cons]
  omega

theorem ready_removed (sockfd : Nat) : (s.removed sockfd).ready = s.ready :=
  ready_queueInLoop (s := { s with channel := some ⟨sockfd, false⟩ }) .resetChannel

/-- The loop thread goes on to another point and nothing else changes. -/
theorem beat_goTo {a : Event Tid G} (hkind : a.kind = .other) {pc : Pc}
    (hready : pc.ready ≤ s.pc.ready) (hretries : pc.retries ≤ s.pc.retries) :
    Beat s a (s.goTo pc) := by
  have hr := ready_goTo (s := s) pc
  have hp := pending_goTo (s := s) pc
  exact .quiet hkind rfl rfl rfl (by omega) (by omega)

theorem beat_step (m : Step s s') : Beat s .step s' := by
  cases m with
  | start hpc _ =>
      refine beat_goTo rfl ?_ ?_
      · rw [hpc]
        split
        · exact Nat.le_refl _
        · exact Nat.zero_le _
      · split
        · exact Nat.zero_le _
        · exact Nat.zero_le _
  | @drop sockfd write hpc _ hc =>
      have hnot : s.pc.ready = 0 ∧ s.pc.retries = 0 := by
        rcases hpc with ⟨hpc, -⟩ | hpc | ⟨w, hpc, -⟩
        all_goals rw [hpc]; exact ⟨rfl, rfl⟩
      have hr := ready_goTo (s := s.removed sockfd) (.retry write)
      rw [ready_removed] at hr
      have hp : s.pending = 1 := by rw [pending, isRegistered, hc, hnot.2]; rfl
      refine .quiet rfl rfl rfl rfl ?_ ?_
      · change ((s.removed sockfd).goTo (.retry write)).ready ≤ s.ready
        exact Nat.le_of_add_right_le (Nat.le_of_eq hr)
      · rw [hp]
        exact Nat.le_refl 1
  | stopped hpc _ => exact beat_goTo rfl (Nat.zero_le _) (Nat.zero_le _)
  | write hpc _ => exact beat_goTo rfl (Nat.zero_le _) (Nat.zero_le _)
  | @succeed w sockfd hpc _ hc =>
      have hr := ready_goTo (s := s.removed sockfd) (.connected sockfd)
      rw [ready_removed] at hr
      refine .quiet rfl rfl rfl rfl ?_ (Nat.zero_le _)
      change ((s.removed sockfd).goTo (.connected sockfd)).ready ≤ s.ready
      exact Nat.le_of_add_right_le (Nat.le_of_eq hr)
  | @retry write hpc =>
      have hnone : (write.elim Pc.idle .handleWrite).ready = 0 ∧
          (write.elim Pc.idle .handleWrite).retries = 0 := by cases write <;> exact ⟨rfl, rfl⟩
      have hr := ready_goTo (s := s) (write.elim .idle .handleWrite)
      have hp := pending_goTo (s := s) (write.elim .idle .handleWrite)
      rw [hnone.1] at hr
      rw [hnone.2, hpc, Pc.retries] at hp
      unfold runAfter
      split
      · exact .arms rfl rfl rfl rfl (Nat.le_of_add_right_le (Nat.le_of_eq hr)) (Nat.le_of_eq hp)
      · exact .quiet rfl rfl rfl rfl (Nat.le_of_add_right_le (Nat.le_of_eq hr))
          (Nat.le_of_add_right_le (Nat.le_of_eq hp))
  | @established sockfd hpc =>
      have hr := ready_goTo (s := s) .idle
      have hp := pending_goTo (s := s) .idle
      unfold established
      split
      · exact .quiet rfl rfl rfl rfl (Nat.le_of_add_right_le (Nat.le_of_eq hr))
          (Nat.le_of_add_right_le (Nat.le_of_eq hp))
      · exact .quiet rfl rfl rfl rfl (Nat.le_of_add_right_le (Nat.le_of_eq hr))
          (Nat.le_of_add_right_le (Nat.le_of_eq hp))

theorem beat_connect {e : Errno} (hpc : s.pc = .connect) (m : Opens s e s') :
    Beat s (.connect e) s' := by
  have hr := ready_goTo (s := s) .idle
  have hp := pending_goTo (s := s) .idle
  rw [hpc, Pc.ready] at hr
  cases m with
  | connecting _ hc =>
      refine .opens rfl rfl rfl rfl (Nat.le_of_eq hr) ?_
      exact Nat.le_add_left 1 _
  | retry _ =>
      have hp := pending_goTo (s := s) (.retry none)
      exact .opens rfl rfl rfl rfl (Nat.le_of_eq hr) (Nat.le_of_add_right_le (Nat.le_of_eq hp))
  | close _ =>
      exact .opens rfl rfl rfl rfl (Nat.le_of_eq hr)
        (Nat.le_succ_of_le (Nat.le_of_add_right_le (Nat.le_of_eq hp)))

theorem beat_runFunctor (hpc : s.pc = .idle) {f : Functor G} {fs : List (Functor G)}
    (hf : s.functors.todo = f :: fs) :
    Beat s .functor ({ s with functors := s.functors.advance }.runFunctor f) := by
  have hadv := ready_advance hf
  have hr := fun pc => ready_goTo (s := { s with functors := s.functors.advance }) pc
  have hp := fun pc => pending_goTo (s := { s with functors := s.functors.advance }) pc
  cases f with
  | startInLoop =>
      have hr := hr .startInLoop
      have hp := hp .startInLoop
      have hidle : s.pc.ready = 0 := by rw [hpc]; rfl
      change _ + s.pc.ready = _ at hr
      rw [hidle] at hr
      refine .quiet rfl rfl rfl rfl (Nat.le_of_eq (hr.trans hadv.symm)) ?_
      exact Nat.le_of_add_right_le (Nat.le_of_eq hp)
  | stopInLoop =>
      have hr := hr .stopInLoop
      have hp := hp .stopInLoop
      refine .quiet rfl rfl rfl rfl ?_ (Nat.le_of_add_right_le (Nat.le_of_eq hp))
      rw [hadv]
      exact Nat.le_of_add_right_le (Nat.le_of_eq hr)
  | resetChannel =>
      refine .quiet rfl rfl rfl rfl (Nat.le_of_eq hadv.symm) ?_
      exact Nat.add_le_add_right (Nat.zero_le _) _
  | other g => exact .quiet rfl rfl rfl rfl (Nat.le_of_eq hadv.symm) (Nat.le_refl _)

/-- Every event that does not fault is one of these. -/
theorem beat_of_next [DecidableEq Tid] {a : Event Tid G} (he : s.enabled a = true)
    (hn : s.next a = .ok s') : Beat s a s' := by
  cases a with
  | start t =>
      cases t with
      | loop =>
          cases hn
          have hr := ready_goTo (s := s) .startInLoop
          have hp := pending_goTo (s := s) .startInLoop
          exact .call rfl rfl rfl rfl (Nat.le_of_add_right_le (Nat.le_of_eq hr))
            (Nat.le_of_add_right_le (Nat.le_of_eq hp))
      | other t =>
          cases hn
          refine .call rfl rfl rfl rfl ?_ (Nat.le_refl _)
          simp only [ready, List.length_cons]
          omega
  | queueStart t =>
      have ht : t ∈ s.starting := of_decide_eq_true he
      have hlen := List.length_erase_add_one ht
      cases hn
      have hr := ready_queueInLoop (s := { s with starting := s.starting.erase t }) .startInLoop
      refine .quiet rfl rfl rfl rfl (Nat.le_of_eq (hr.trans ?_)) (Nat.le_refl _)
      change _ + 1 = _
      simp only [ready]
      omega
  | stop t =>
      cases t with
      | loop =>
          cases hn
          have hr := ready_goTo (s := s) .stopInLoop
          have hp := pending_goTo (s := s) .stopInLoop
          exact .quiet rfl rfl rfl rfl (Nat.le_of_add_right_le (Nat.le_of_eq hr))
            (Nat.le_of_add_right_le (Nat.le_of_eq hp))
      | other t =>
          cases hn
          exact .quiet rfl rfl rfl rfl (Nat.le_refl _) (Nat.le_refl _)
  | queueStop t =>
      cases hn
      exact .quiet rfl rfl rfl rfl (Nat.le_of_eq (ready_queueInLoop (s := { s with
        stopping := s.stopping.erase t }) .stopInLoop)) (Nat.le_refl _)
  | restart =>
      cases hn
      have hr := ready_goTo (s := s) .startInLoop
      have hp := pending_goTo (s := s) .startInLoop
      exact .call rfl rfl rfl rfl (Nat.le_of_add_right_le (Nat.le_of_eq hr))
        (Nat.le_of_add_right_le (Nat.le_of_eq hp))
  | queueInLoop g =>
      cases hn
      exact .quiet rfl rfl rfl rfl (Nat.le_of_eq (ready_queueInLoop (.other g))) (Nat.le_refl _)
  | step =>
      simp only [enabled, Bool.and_eq_true, decide_eq_true_eq] at he
      exact beat_step (step_of_next he.1 he.2 hn)
  | connect e => exact beat_connect (of_decide_eq_true he) (opens_of_next hn)
  | swap =>
      simp only [enabled, Bool.and_eq_true, decide_eq_true_eq] at he
      cases hn
      refine .quiet rfl rfl rfl rfl (Nat.le_of_eq ?_) (Nat.le_refl _)
      simp only [ready, Batch.queued_swap he.2]
  | functor =>
      simp only [enabled, Bool.and_eq_true, decide_eq_true_eq] at he
      simp only [Connector.next] at hn
      split at hn
      · cases hn
        exact .quiet rfl rfl rfl rfl (Nat.le_refl _) (Nat.le_refl _)
      · rename_i hf
        cases hn
        exact beat_runFunctor he.1 hf
  | finish =>
      simp only [enabled, Bool.and_eq_true, List.isEmpty_iff] at he
      cases hn
      refine .quiet rfl rfl rfl rfl (Nat.le_of_eq ?_) (Nat.le_refl _)
      simp only [ready, Batch.queued_finish he.2]
  | timer i =>
      simp only [enabled, Bool.and_eq_true, decide_eq_true_eq] at he
      cases hn
      have hr := ready_goTo (s := s) .startInLoop
      have hp := pending_goTo (s := s) .startInLoop
      exact .fires rfl he.2 rfl rfl rfl (Nat.le_of_add_right_le (Nat.le_of_eq hr))
        (Nat.le_of_add_right_le (Nat.le_of_eq hp))
  | channel error write =>
      simp only [enabled, Bool.and_eq_true, decide_eq_true_eq] at he
      cases hn
      unfold handleEvent
      split
      · exact beat_goTo rfl (Nat.zero_le _) (Nat.zero_le _)
      · split
        · exact beat_goTo rfl (Nat.zero_le _) (Nat.zero_le _)
        · exact .quiet rfl rfl rfl rfl (Nat.le_refl _) (Nat.le_refl _)
  | lost =>
      cases hn
      exact .quiet rfl rfl rfl rfl (Nat.le_refl _) (Nat.le_refl _)

/-! ## The clock -/

/-- `Timestamp::now()` and `addTime`, in microseconds. -/
def expiry (now delayMs : Nat) : Nat := now + 1000 * delayMs

/-- Does the event end the attempts for good? `stop()`, and an error that is
not to be retried. -/
def Event.givesUp : Event Tid G → Bool
  | stop _ => true
  | connect e => e.outcome = .close
  | _ => false

/-- The connector and the clock, which starts with it and does not go back.
`due` says when each of `conn.timers` expires. The rest is a record: the
times of the calls of `start()` and `restart()`, the newest first, the retries
scheduled between the last reset of the delay and the last call (`base`) and
since, when each socket was opened since the last call, the newest first, and
whether the attempts it began have been given up. -/
structure Timed (Tid G : Type) where
  conn : Connector Tid G
  now : Nat
  due : List Nat
  calls : List Nat
  base : Nat
  retries : Nat
  openings : List Nat
  givenUp : Bool

namespace Timed

/-- Time passes; or an event of the connector happens. -/
inductive Event (Tid G : Type) where
  | pass (d : Nat)
  | event (a : Connector.Event Tid G)

def new : Timed Tid G := ⟨.new, 0, [], [], 0, 0, [], false⟩

/-- What the event `a`, which makes `conn` of the connector, makes of the rest. -/
def after (s : Timed Tid G) (a : Connector.Event Tid G) (conn : Connector Tid G) : Timed Tid G :=
  match a.kind with
  | .call restart =>
      { s with
        conn := conn
        calls := s.now :: s.calls
        base := if restart then 0 else s.base + s.retries
        retries := 0
        openings := []
        givenUp := false }
  | .timer i => { s with conn := conn, due := s.due.eraseIdx i }
  | .other =>
      let added := conn.timers.drop s.conn.timers.length
      { s with
        conn := conn
        due := s.due ++ added.map (expiry s.now)
        retries := s.retries + added.length
        openings := if s.conn.opened < conn.opened then s.now :: s.openings else s.openings
        givenUp := s.givenUp || a.givesUp }

/-- A timer fires once it has expired. -/
def expired (s : Timed Tid G) : Connector.Event Tid G → Bool
  | .timer i => s.due[i]?.any (· ≤ s.now)
  | _ => true

def next [DecidableEq Tid] (s : Timed Tid G) : Event Tid G → Except Fault (Timed Tid G)
  | .pass d => .ok { s with now := s.now + d }
  | .event a => (s.conn.next a).map (s.after a)

section After

variable {s : Timed Tid G} {a : Connector.Event Tid G} {conn : Connector Tid G}

theorem after_call {restart : Bool} (hkind : a.kind = .call restart) :
    s.after a conn = { s with
      conn := conn
      calls := s.now :: s.calls
      base := if restart then 0 else s.base + s.retries
      retries := 0
      openings := []
      givenUp := false } := by
  rw [after, hkind]

theorem after_fires {i : Nat} (hkind : a.kind = .timer i) :
    s.after a conn = { s with conn := conn, due := s.due.eraseIdx i } := by
  rw [after, hkind]

theorem after_opens (hkind : a.kind = .other) (hopened : conn.opened = s.conn.opened + 1)
    (htimers : conn.timers = s.conn.timers) :
    s.after a conn = { s with
      conn := conn
      openings := s.now :: s.openings
      givenUp := s.givenUp || a.givesUp } := by
  have hlt : s.conn.opened < conn.opened := hopened ▸ Nat.lt_succ_self _
  rw [after, hkind, htimers, List.drop_length]
  simp only [List.map_nil, List.append_nil, List.length_nil, Nat.add_zero, if_pos hlt]

theorem after_arms (hkind : a.kind = .other) (hopened : conn.opened = s.conn.opened)
    (htimers : conn.timers = s.conn.timers ++ [s.conn.retryDelayMs]) :
    s.after a conn = { s with
      conn := conn
      due := s.due ++ [expiry s.now s.conn.retryDelayMs]
      retries := s.retries + 1
      givenUp := s.givenUp || a.givesUp } := by
  have hnot : ¬s.conn.opened < conn.opened := by rw [hopened]; exact Nat.lt_irrefl _
  rw [after, hkind, htimers, List.drop_left]
  simp only [List.map_cons, List.map_nil, List.length_singleton, if_neg hnot]

theorem after_quiet (hkind : a.kind = .other) (hopened : conn.opened = s.conn.opened)
    (htimers : conn.timers = s.conn.timers) :
    s.after a conn = { s with conn := conn, givenUp := s.givenUp || a.givesUp } := by
  have hnot : ¬s.conn.opened < conn.opened := by rw [hopened]; exact Nat.lt_irrefl _
  rw [after, hkind, htimers, List.drop_length]
  simp only [List.map_nil, List.append_nil, List.length_nil, Nat.add_zero, if_neg hnot]

end After

def enabled [DecidableEq Tid] (s : Timed Tid G) : Event Tid G → Bool
  | .pass _ => true
  | .event a => s.conn.enabled a && s.expired a

/-- The connector's runs, the time of each event known. -/
def system [DecidableEq Tid] : Lts (Timed Tid G) (Event Tid G) Fault where
  init s := s = new
  enabled s a := s.enabled a = true
  next := next

theorem next_ok [DecidableEq Tid] {s s' : Timed Tid G} {a : Connector.Event Tid G}
    (hn : s.next (.event a) = .ok s') :
    ∃ conn, s.conn.next a = .ok conn ∧ s' = s.after a conn := by
  cases hc : s.conn.next a with
  | ok conn =>
      rw [next, hc] at hn
      cases hn
      exact ⟨conn, rfl, rfl⟩
  | error f =>
      rw [next, hc] at hn
      cases hn

/-- A timer that fires has expired. -/
theorem expired_timer {s : Timed Tid G} {a : Connector.Event Tid G} {i : Nat}
    (hkind : a.kind = .timer i) (h : s.expired a = true) : ∃ u, s.due[i]? = some u ∧ u ≤ s.now := by
  cases a with
  | timer j =>
      obtain rfl : j = i := Kind.timer.inj hkind
      exact Option.any_eq_true .. |>.mp h |>.imp fun u hu => ⟨hu.1, of_decide_eq_true hu.2⟩
  | start t => cases hkind
  | _ => cases hkind

end Timed

end Connector

end Muduo
