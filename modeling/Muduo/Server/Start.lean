import Muduo.Base
import Muduo.Lib.Lts
import Mathlib.Logic.Function.Basic

/-!
# `TcpServer::start`, from any thread

`start()` reads and writes `started_` and reads `listenning()` without a
lock, starts the thread pool, which may be done once and in the loop thread
only, and has `Acceptor::listen` run in the loop. Here every test and every
assignment is a step of its own, and any thread may call `start()`, code
inside `threadInitCallback_` included: with no I/O threads the pool runs the
callback in the loop thread, in the middle of `start()`.

The header promises that `start()` may be called more than once and from any
thread. A thread other than the loop's that finds `started_` false runs into
the assertions of the pool; one that finds `listenning()` false queues a
second `listen`. When neither happens all is done once (`started_once`).
-/

namespace Muduo

open Lib

/-- Where a call of `start()` is: at `if (!started_)`; at `started_ = true`; at
the assertions of `EventLoopThreadPool::start`; in its loop; in
`cb(baseLoop_)`; at `if (!acceptor_->listenning())`; at `runInLoop`. -/
inductive StartPc where
  | testStarted | setStarted | poolStart
  | poolLoop (i : Nat)
  | initCallback | testListenning | runInLoop
deriving DecidableEq, Repr

/-- `assert(!started_)` in the pool, and `assertInLoopThread()` there and in
`Acceptor::listen`. -/
inductive StartFault where
  | poolStarted | notInLoopThread
deriving DecidableEq

/-- What `start()` reads and does not change. -/
structure StartConfig (Tid : Type) where
  loopThread : Tid
  numThreads : Nat
  /-- `threadInitCallback_` is set. -/
  hasCallback : Bool

structure ServerStart (Tid : Type) where
  started : Bool
  /-- `started_` of the thread pool. -/
  poolStarted : Bool
  /-- The I/O threads created. -/
  threads : Nat
  listenning : Bool
  /-- The `Acceptor::listen` functors waiting in the base loop. -/
  queued : Nat
  /-- The calls of `start()` a thread is in, the innermost first. -/
  calls : Tid → List StartPc
  /-- How often `EventLoopThreadPool::start` ran, `Acceptor::listen` ran and
  `start()` returned. -/
  poolStarts : Nat
  listens : Nat
  returns : Nat

/-- A thread calls `start()`, or makes one step in the call it is in; the
base loop runs a queued `Acceptor::listen`. -/
inductive StartEvent (Tid : Type) where
  | start (t : Tid)
  | step (t : Tid)
  | runListen

namespace ServerStart

variable {Tid : Type} [DecidableEq Tid]

def new : ServerStart Tid := ⟨false, false, 0, false, 0, fun _ => [], 0, 0, 0⟩

/-- May user code run there? -/
def inUser : List StartPc → Bool
  | [] => true
  | pc :: _ => pc = .initCallback

def setCalls (s : ServerStart Tid) (t : Tid) (pcs : List StartPc) : ServerStart Tid :=
  { s with calls := Function.update s.calls t pcs }

@[simp] theorem calls_setCalls_self (s : ServerStart Tid) (t : Tid) (pcs : List StartPc) :
    (s.setCalls t pcs).calls t = pcs := Function.update_self ..

theorem calls_setCalls_ne (s : ServerStart Tid) {t t' : Tid} (h : t' ≠ t) (pcs : List StartPc) :
    (s.setCalls t pcs).calls t' = s.calls t' := Function.update_of_ne h ..

/-- `Acceptor::listen`, run by `t`. -/
def listen (cfg : StartConfig Tid) (s : ServerStart Tid) (t : Tid) :
    Except StartFault (ServerStart Tid) := do
  check (cfg.loopThread = t) .notInLoopThread
  return { s with listenning := true, listens := s.listens + 1 }

/-- `start()` returns to the calls below it. -/
def leave (s : ServerStart Tid) (t : Tid) (below : List StartPc) : ServerStart Tid :=
  { s.setCalls t below with returns := s.returns + 1 }

/-- The next step of `t` in the call it is in, `below` being those around it. -/
def advance (cfg : StartConfig Tid) (s : ServerStart Tid) (t : Tid) (below : List StartPc) :
    StartPc → Except StartFault (ServerStart Tid)
  | .testStarted =>
      .ok (s.setCalls t ((if !s.started then .setStarted else .testListenning) :: below))
  | .setStarted => .ok ({ s with started := true }.setCalls t (.poolStart :: below))
  | .poolStart => do
      check (s.poolStarted = false) .poolStarted
      check (cfg.loopThread = t) .notInLoopThread
      return { s with poolStarted := true, poolStarts := s.poolStarts + 1 }.setCalls t
        (.poolLoop 0 :: below)
  | .poolLoop i =>
      if i < cfg.numThreads then
        .ok ({ s with threads := s.threads + 1 }.setCalls t (.poolLoop (i + 1) :: below))
      else if cfg.numThreads = 0 && cfg.hasCallback then
        .ok (s.setCalls t (.initCallback :: below))
      else .ok (s.setCalls t (.testListenning :: below))
  | .initCallback => .ok (s.setCalls t (.testListenning :: below))
  | .testListenning =>
      if !s.listenning then .ok (s.setCalls t (.runInLoop :: below)) else .ok (s.leave t below)
  | .runInLoop =>
      if t = cfg.loopThread then do return (← s.listen cfg t).leave t below
      else .ok ({ s with queued := s.queued + 1 }.leave t below)

def enabled (cfg : StartConfig Tid) (s : ServerStart Tid) : StartEvent Tid → Bool
  | .start t => inUser (s.calls t)
  | .step t => s.calls t ≠ []
  | .runListen => 0 < s.queued && inUser (s.calls cfg.loopThread)

def next (cfg : StartConfig Tid) (s : ServerStart Tid) :
    StartEvent Tid → Except StartFault (ServerStart Tid)
  | .start t => .ok (s.setCalls t (.testStarted :: s.calls t))
  | .step t =>
      match s.calls t with
      | [] => .ok s
      | pc :: below => s.advance cfg t below pc
  | .runListen => { s with queued := s.queued - 1 }.listen cfg cfg.loopThread

/-- Any number of threads calling `start()`, and the base loop. -/
def system (cfg : StartConfig Tid) : Lts (ServerStart Tid) (StartEvent Tid) StartFault where
  init s := s = new
  enabled s a := s.enabled cfg a = true
  next := next cfg

instance (cfg : StartConfig Tid) (s : ServerStart Tid) (a : StartEvent Tid) :
    Decidable ((system cfg).enabled s a) := inferInstanceAs (Decidable (_ = true))

/-- The side condition on events: a thread other than the loop's finds
`started_` true where it tests it, and `listenning()` true where it tests
that. -/
def Settled (cfg : StartConfig Tid) (s : ServerStart Tid) (a : StartEvent Tid) : Prop :=
  ∀ t, a = .step t → t ≠ cfg.loopThread →
    ((s.calls t).head? = some .testStarted → s.started = true) ∧
      ((s.calls t).head? = some .testListenning → s.listenning = true)

/-! ## The loop thread's own calls -/

/-- A step of `start()` once the pool has been started; at `runInLoop` nobody
else has made the server listen. -/
def Late (listenning : Bool) (pc : StartPc) : Prop :=
  pc = .testStarted ∨ pc = .testListenning ∨ (pc = .runInLoop ∧ listenning = false)

/-- How far the loop thread has come, by `started_`, the pool's `started_`,
`listenning_` and the calls it is in. A call made inside the callback of the
pool is never in the callback itself. -/
inductive Phase : Bool → Bool → Bool → List StartPc → Prop where
  | idle : Phase false false false []
  | testing : Phase false false false [.testStarted]
  | setting : Phase false false false [.setStarted]
  | pool : Phase true false false [.poolStart]
  | creating (i : Nat) : Phase true true false [.poolLoop i]
  | callback (b : Bool) : Phase true true b [.initCallback]
  | nested {b : Bool} {pc : StartPc} : Late b pc → Phase true true b [pc, .initCallback]
  | late {b : Bool} {pc : StartPc} : Late b pc → Phase true true b [pc]
  | done : Phase true true true []

theorem Phase.pool_started {a b : Bool} {pcs : List StartPc} (h : Phase a b true pcs) :
    b = true := by
  cases h <;> rfl

/-- User code of the loop thread calls `start()`. -/
theorem Phase.start {a b c : Bool} {pcs : List StartPc} (h : Phase a b c pcs)
    (hu : inUser pcs = true) : Phase a b c (.testStarted :: pcs) := by
  cases h with
  | idle => exact .testing
  | callback b => exact .nested (Or.inl rfl)
  | done => exact .late (Or.inl rfl)
  | nested hlate => rcases hlate with rfl | rfl | ⟨rfl, -⟩ <;> cases hu
  | late hlate => rcases hlate with rfl | rfl | ⟨rfl, -⟩ <;> cases hu
  | _ => cases hu

variable {cfg : StartConfig Tid} {s s' : ServerStart Tid} {a : StartEvent Tid} {t : Tid}

/-- All is done at most once: nothing is queued, and the threads other than
the loop's only test. -/
structure Once (cfg : StartConfig Tid) (s : ServerStart Tid) : Prop where
  phase : Phase s.started s.poolStarted s.listenning (s.calls cfg.loopThread)
  others : ∀ t, t ≠ cfg.loopThread → ∀ pc ∈ s.calls t, pc = .testStarted ∨ pc = .testListenning
  queued : s.queued = 0
  poolStarts : s.poolStarts = s.poolStarted.toNat
  listens : s.listens = s.listenning.toNat
  returns : 0 < s.returns → s.listenning = true

omit [DecidableEq Tid] in
theorem once_new : Once cfg new where
  phase := .idle
  others := nofun
  queued := rfl
  poolStarts := rfl
  listens := rfl
  returns := nofun

/-- A call returns once the server listens. -/
theorem Once.leave {pcs : List StartPc} (h : Once cfg (s.setCalls t pcs))
    (hl : s.listenning = true) : Once cfg (s.leave t pcs) :=
  ⟨h.phase, h.others, h.queued, h.poolStarts, h.listens, fun _ => hl⟩

/-- The loop thread goes on to another phase, with the flags and the counts
that belong to it. -/
theorem Once.to (h : Once cfg s) {pcs : List StartPc} (hthreads : s'.calls = s.calls)
    (hphase : Phase s'.started s'.poolStarted s'.listenning pcs) (hqueued : s'.queued = s.queued)
    (hpool : s'.poolStarts = s'.poolStarted.toNat) (hlistens : s'.listens = s'.listenning.toNat)
    (hreturns : 0 < s'.returns → s'.listenning = true) :
    Once cfg (s'.setCalls cfg.loopThread pcs) where
  phase := by rwa [calls_setCalls_self]
  others t ht := by
    rw [calls_setCalls_ne s' ht, hthreads]
    exact h.others t ht
  queued := hqueued.trans h.queued
  poolStarts := hpool
  listens := hlistens
  returns := hreturns

/-- Another phase that touches neither. -/
theorem Once.move (h : Once cfg s) {pcs : List StartPc}
    (hphase : Phase s.started s.poolStarted s.listenning pcs) :
    Once cfg (s.setCalls cfg.loopThread pcs) :=
  h.to rfl hphase rfl h.poolStarts h.listens h.returns

/-- A thread other than the loop's moves from test to test. -/
theorem Once.other (h : Once cfg s) (ht : t ≠ cfg.loopThread) {pcs : List StartPc}
    (hpcs : ∀ pc ∈ pcs, pc = .testStarted ∨ pc = .testListenning) :
    Once cfg (s.setCalls t pcs) where
  phase := by
    rw [calls_setCalls_ne s ht.symm]
    exact h.phase
  others t' ht' := by
    by_cases heq : t' = t
    · rwa [heq, calls_setCalls_self]
    · rw [calls_setCalls_ne s heq]
      exact h.others t' ht'
  queued := h.queued
  poolStarts := h.poolStarts
  listens := h.listens
  returns := h.returns

/-! ## One event -/

theorem Once.start (h : Once cfg s) (he : inUser (s.calls t) = true) :
    Once cfg (s.setCalls t (.testStarted :: s.calls t)) := by
  by_cases ht : t = cfg.loopThread
  · subst ht
    exact h.move (h.phase.start he)
  · refine h.other ht fun pc hpc => ?_
    rcases List.mem_cons.mp hpc with rfl | hpc
    · exact Or.inl rfl
    · exact h.others t ht pc hpc

/-- The loop thread in a call that comes after the start of the pool. -/
theorem Once.advance_late (h : Once cfg s) {pc : StartPc} {below : List StartPc}
    (hstarted : s.started = true) (hpool : s.poolStarted = true) (hlate : Late s.listenning pc)
    (hgo : ∀ {b pc}, Late b pc → Phase true true b (pc :: below))
    (hreturn : Phase true true true below) :
    ∃ s', s.advance cfg cfg.loopThread below pc = .ok s' ∧ Once cfg s' := by
  have hmove : ∀ {pc}, Late s.listenning pc → Once cfg (s.setCalls cfg.loopThread (pc :: below)) :=
    fun hl => h.move (by rw [hstarted, hpool]; exact hgo hl)
  rcases hlate with rfl | rfl | ⟨rfl, hl⟩
  · refine ⟨_, rfl, ?_⟩
    rw [hstarted]
    exact hmove (Or.inr (Or.inl rfl))
  · cases hl : s.listenning with
    | false =>
        refine ⟨_, by rw [ServerStart.advance, hl]; rfl, hmove (Or.inr (Or.inr ⟨rfl, hl⟩))⟩
    | true =>
        refine ⟨_, by rw [ServerStart.advance, hl]; rfl, Once.leave (h.move ?_) hl⟩
        rwa [hstarted, hpool, hl]
  · let s₁ : ServerStart Tid := { s with listenning := true, listens := s.listens + 1 }
    have hrun : s.advance cfg cfg.loopThread below .runInLoop =
        .ok (s₁.leave cfg.loopThread below) := by
      rw [ServerStart.advance, if_pos rfl, listen, check_of rfl]
      rfl
    refine ⟨_, hrun, Once.leave (h.to rfl ?_ rfl h.poolStarts ?_ fun _ => rfl) rfl⟩
    · change Phase s.started s.poolStarted true below
      rwa [hstarted, hpool]
    · change s.listens + 1 = 1
      rw [h.listens, hl]
      rfl

/-- The loop thread takes a step in the call it is in. -/
theorem Once.advance (h : Once cfg s) {pc : StartPc} {below : List StartPc}
    (hcalls : s.calls cfg.loopThread = pc :: below) :
    ∃ s', s.advance cfg cfg.loopThread below pc = .ok s' ∧ Once cfg s' := by
  have hphase := h.phase
  rw [hcalls] at hphase
  generalize hstarted : s.started = a at hphase
  generalize hpool : s.poolStarted = b at hphase
  generalize hlist : s.listenning = c at hphase
  have hmove : ∀ {pcs}, Phase a b c pcs → Once cfg (s.setCalls cfg.loopThread pcs) := fun hp =>
    h.move (by rwa [hstarted, hpool, hlist])
  cases hphase with
  | testing =>
      refine ⟨_, rfl, ?_⟩
      rw [hstarted]
      exact hmove .setting
  | setting =>
      refine ⟨_, rfl, h.to rfl ?_ rfl h.poolStarts h.listens h.returns⟩
      rw [hpool, hlist]
      exact .pool
  | pool =>
      let s₁ : ServerStart Tid := { s with poolStarted := true, poolStarts := s.poolStarts + 1 }
      have hrun : s.advance cfg cfg.loopThread [] .poolStart =
          .ok (s₁.setCalls cfg.loopThread [.poolLoop 0]) := by
        rw [ServerStart.advance, check_of hpool, check_of rfl]
        rfl
      refine ⟨_, hrun, h.to rfl ?_ rfl ?_ h.listens h.returns⟩
      · change Phase s.started true s.listenning _
        rw [hstarted, hlist]
        exact .creating 0
      · change s.poolStarts + 1 = 1
        rw [h.poolStarts, hpool]
        rfl
  | creating i =>
      simp only [ServerStart.advance]
      split_ifs with hi hcb
      · refine ⟨_, rfl, h.to rfl ?_ rfl h.poolStarts h.listens h.returns⟩
        rw [hstarted, hpool, hlist]
        exact .creating (i + 1)
      · exact ⟨_, rfl, hmove (.callback false)⟩
      · exact ⟨_, rfl, hmove (.late (Or.inr (Or.inl rfl)))⟩
  | callback => exact ⟨_, rfl, hmove (.late (Or.inr (Or.inl rfl)))⟩
  | nested hlate =>
      exact h.advance_late hstarted hpool (hlist ▸ hlate) .nested (.callback true)
  | late hlate => exact h.advance_late hstarted hpool (hlist ▸ hlate) .late .done

/-- Another thread takes a step, and finds what it tests. -/
theorem Once.advance_other (h : Once cfg s) (ht : t ≠ cfg.loopThread) {pc : StartPc}
    {below : List StartPc} (hcalls : s.calls t = pc :: below) (hC : Settled cfg s (.step t)) :
    ∃ s', s.advance cfg t below pc = .ok s' ∧ Once cfg s' := by
  obtain ⟨hstarted, hlistenning⟩ := hC t rfl ht
  have hbelow : ∀ pc ∈ below, pc = .testStarted ∨ pc = .testListenning := fun pc hpc =>
    h.others t ht pc (hcalls ▸ List.mem_cons_of_mem _ hpc)
  rw [hcalls] at hstarted hlistenning
  obtain rfl | rfl := h.others t ht pc (hcalls ▸ List.mem_cons_self ..)
  · refine ⟨_, rfl, h.other ht fun pc hpc => ?_⟩
    rw [hstarted rfl] at hpc
    rcases List.mem_cons.mp hpc with rfl | hpc
    · exact Or.inr rfl
    · exact hbelow pc hpc
  · have hl := hlistenning rfl
    refine ⟨s.leave t below, ?_, (h.other ht hbelow).leave hl⟩
    rw [ServerStart.advance, hl]
    rfl

/-- **One event** under the side condition: it does not fault. -/
theorem Once.step (h : Once cfg s) (he : s.enabled cfg a = true) (hC : Settled cfg s a) :
    ∃ s', s.next cfg a = .ok s' ∧ Once cfg s' := by
  cases a with
  | start t => exact ⟨_, rfl, h.start he⟩
  | runListen =>
      simp only [enabled, h.queued, Bool.and_eq_true, decide_eq_true_eq, lt_irrefl, false_and] at he
  | step t =>
      cases hcalls : s.calls t with
      | nil => simp [enabled, hcalls] at he
      | cons pc below =>
          simp only [next, hcalls]
          by_cases ht : t = cfg.loopThread
          · subst ht
            exact h.advance hcalls
          · exact h.advance_other ht hcalls hC

/-! ## Whole runs -/

/-- **`start()` does all once.** In every run in which the threads other than
the loop's find `started_` and `listenning()` true wherever they test them:
no assertion fails, the pool is started and the acceptor listens at most
once, and both have been done when a call has returned. -/
theorem started_once (hs : ((system cfg).guarded (Settled cfg)).Reachable s) :
    (∀ a, s.enabled cfg a = true → Settled cfg s a → ∃ s', s.next cfg a = .ok s') ∧
      s.poolStarts ≤ 1 ∧ s.listens ≤ 1 ∧
      (0 < s.returns → s.poolStarts = 1 ∧ s.listens = 1) := by
  have hinv : ((system cfg).guarded (Settled cfg)).Invariant (Once cfg) := {
    init := by
      rintro s hs
      rw [show s = new from hs]
      exact once_new
    step := by
      intro s a s' h he hn
      obtain ⟨s₁, hs₁, h₁⟩ := h.step he.1 he.2
      obtain rfl := Except.ok.inj (hs₁.symm.trans hn)
      exact h₁ }
  have h := hinv.reachable hs
  refine ⟨fun a he hC => ?_, ?_, ?_, fun hr => ?_⟩
  · obtain ⟨s', hs', -⟩ := h.step he hC
    exact ⟨s', hs'⟩
  · rw [h.poolStarts]
    exact Bool.toNat_le _
  · rw [h.listens]
    exact Bool.toNat_le _
  · have hl := h.returns hr
    have hphase := h.phase
    rw [hl] at hphase
    rw [h.poolStarts, h.listens, hphase.pool_started, hl]
    exact ⟨rfl, rfl⟩

/-- A thread other than the loop's that finds `started_` false runs into an
assertion two steps later. -/
theorem unsettled_faults (ht : t ≠ cfg.loopThread) {below : List StartPc}
    (hcalls : s.calls t = .testStarted :: below) (hstarted : s.started = false) :
    ∃ s' e, (system cfg).Run s [.step t, .step t] s' ∧ (system cfg).enabled s' (.step t) ∧
      (system cfg).next s' (.step t) = .error e := by
  let s₁ := s.setCalls t (.setStarted :: below)
  let s₂ := { s₁ with started := true }.setCalls t (.poolStart :: below)
  have hn₁ : s.next cfg (.step t) = .ok s₁ := by
    simp only [next, hcalls, ServerStart.advance, hstarted]
    rfl
  have hn₂ : s₁.next cfg (.step t) = .ok s₂ := by
    simp only [next, s₁, calls_setCalls_self]
    rfl
  have hrun : (system cfg).Run s [.step t, .step t] s₂ :=
    ((Lts.Run.nil s).snoc (by simp [system, enabled, hcalls]) hn₁).snoc
      (by simp [system, enabled, s₁]) hn₂
  have hn₃ : s₂.next cfg (.step t) = s₂.advance cfg t below .poolStart := by
    simp only [next, s₂, calls_setCalls_self]
  have he : s₂.enabled cfg (.step t) = true := by simp [enabled, s₂]
  by_cases hp : s₂.poolStarted = false
  · exact ⟨s₂, .notInLoopThread, hrun, he, hn₃.trans (by
      rw [ServerStart.advance, check_of hp, check_not ht.symm]
      rfl)⟩
  · exact ⟨s₂, .poolStarted, hrun, he, hn₃.trans (by
      rw [ServerStart.advance, check_not hp]
      rfl)⟩

/-- No I/O threads and no callback; the loop's thread is 0. -/
def plain : StartConfig Nat := ⟨0, 0, false⟩

/-- The loop's thread starts the server, then thread 1 does. -/
theorem started_once_twice : ∃ s : ServerStart Nat,
    s.returns = 2 ∧ s.poolStarts = 1 ∧ s.listens = 1 := by
  let L : Lts (ServerStart Nat) (StartEvent Nat) StartFault :=
    (system plain).guarded (Settled plain)
  have hloop : ∀ {s : ServerStart Nat}, Settled plain s (.step 0) := fun t h hne =>
    absurd (StartEvent.step.inj h).symm hne
  have h₀ : L.Reachable new := .of_init rfl
  have h₁ := h₀.step (a := StartEvent.start 0) ⟨rfl, nofun⟩ rfl
  have h₂ := h₁.step (a := StartEvent.step 0) ⟨rfl, hloop⟩ rfl
  have h₃ := h₂.step (a := StartEvent.step 0) ⟨rfl, hloop⟩ rfl
  have h₄ := h₃.step (a := StartEvent.step 0) ⟨rfl, hloop⟩ rfl
  have h₅ := h₄.step (a := StartEvent.step 0) ⟨rfl, hloop⟩ rfl
  have h₆ := h₅.step (a := StartEvent.step 0) ⟨rfl, hloop⟩ rfl
  have h₇ := h₆.step (a := StartEvent.step 0) ⟨rfl, hloop⟩ rfl
  have h₈ := h₇.step (a := StartEvent.start 1) ⟨rfl, nofun⟩ rfl
  have h₉ := h₈.step (a := StartEvent.step 1) ⟨rfl, fun _ _ _ => ⟨fun _ => rfl, fun _ => rfl⟩⟩ rfl
  have h₁₀ := h₉.step (a := StartEvent.step 1) ⟨rfl, fun _ _ _ => ⟨fun _ => rfl, fun _ => rfl⟩⟩ rfl
  exact ⟨_, rfl, (started_once h₁₀).2.2.2 (by decide)⟩

/-- Thread 1 is the first to call `start()`; or it calls while the loop's
thread, having started the pool, has not come to `listen` yet. -/
theorem start_not_thread_safe :
    (¬∀ s, (system plain).Reachable s → ∀ a, s.enabled plain a = true →
      ∃ s', s.next plain a = .ok s') ∧
      ¬∀ s, (system plain).Reachable s → s.listens ≤ 1 := by
  constructor
  · intro h
    obtain ⟨s, hs, he, hn⟩ := Lts.exists_fault_of_exec (L := system plain) new
      [.start 1, .step 1, .step 1] (.step 1) .notInLoopThread (by decide)
    obtain ⟨s', hs'⟩ := h s ⟨_, _, rfl, hs⟩ _ he
    rw [show s.next plain (.step 1) = _ from hn] at hs'
    cases hs'
  · intro h
    obtain ⟨s, hs, hp⟩ := Lts.exists_reachable_of_exec (L := system plain)
      [.start 0, .step 0, .step 0, .step 0, .step 0, .step 0, .start 1, .step 1, .step 1, .step 1,
        .step 0, .runListen]
      (fun s => s.listens = 2) rfl (by decide)
    have hle := h s hs
    rw [of_decide_eq_true hp] at hle
    exact absurd hle (by decide)

end ServerStart

end Muduo
