import Muduo.EventLoop.Functors

/-!
# `EventLoopThread`: is a quit request kept?

Two threads. The owner constructs the object, calls `startLoop()`, which
returns once `loop_` is published, and destroys it: `exiting_ = true`,
`loop_->quit()`, `join`. The I/O thread runs `threadFunc`: it constructs the
`EventLoop` on its stack, runs the callback it was given, publishes `loop_`
and calls `loop()`; its steps inside are those of the `EventLoop` model, the
calls its handlers and functors make included.

`loop()` begins with `quit_ = false`, after the publication that lets the
owner go on. A quit that comes before it is forgotten (`quit_lost`); one
that comes after it is kept until `loop()` has returned (`quit_kept`).
-/

namespace Muduo

open Lib EventLoop

inductive LoopThread where
  | owner | io
deriving DecidableEq, Repr

/-- Where the owner is: `startLoop` called, waiting for `loop_`; `startLoop`
returned; in the destructor, after `exiting_ = true`; after `quit_ = true`
in `loop_->quit()`; in `thread_.join()`; past it. -/
inductive OwnerPc where
  | constructed | waiting | started | exiting | quitting | joining | joined
deriving DecidableEq, Repr

/-- Where the I/O thread is in `threadFunc`: before it runs; constructing the
loop; with the loop constructed, in the callback; after the publication;
inside `loop()`; at the end. -/
inductive IoPc where
  | notStarted | constructing | callback | published | inLoop | finished
deriving DecidableEq, Repr

/-- The owner has executed `loop_->quit()`, up to the wakeup at least. -/
def OwnerPc.hasQuit : OwnerPc → Bool
  | quitting => true
  | joining => true
  | joined => true
  | _ => false

structure EventLoopThread (F : Type) where
  exiting : Bool
  /-- `loop_ != NULL` -/
  published : Bool
  owner : OwnerPc
  io : IoPc
  loop : EventLoop LoopThread F

inductive ThreadEvent (F : Type) where
  | startLoop | awaken | exit | quit | wake | join
  | construct | publish | enter | returned
  | io (e : LoopEvent LoopThread F)

namespace EventLoopThread

variable {F : Type}

def new : EventLoopThread F := ⟨false, false, .constructed, .notStarted, .new .io⟩

/-- The events of its `EventLoop` the I/O thread may be the cause of, other
than entering `loop()`. -/
def isIo : LoopEvent LoopThread F → Bool
  | .queueInLoop t _ => t = .io
  | .runInLoop t _ => t = .io
  | .finish t => t = .io
  | .step t => t = .io
  | .poll t _ => t = .io
  | .loop _ => false
  | .quit _ => false

/-- `loop()` has returned. -/
def returned (s : EventLoopThread F) : Bool :=
  s.io = .finished || (s.io = .inLoop && s.loop.frame.isNone)

def enabled (s : EventLoopThread F) : ThreadEvent F → Bool
  | .startLoop => s.owner = .constructed
  | .awaken => s.owner = .waiting && s.published
  | .exit => s.owner = .started
  | .quit => s.owner = .exiting && s.loop.enabled (.quit .owner)
  | .wake => s.owner = .quitting && s.loop.enabled (.finish .owner)
  | .join => s.owner = .joining && s.io = .finished
  | .construct => s.io = .constructing
  | .publish => s.io = .callback && s.loop.calls .io = .none
  | .enter => s.io = .published && s.loop.enabled (.loop .io)
  | .returned => s.io = .inLoop && s.returned && s.loop.calls .io = .none
  | .io e =>
      isIo e && s.loop.enabled e &&
        (s.io = .callback || (s.io = .inLoop && s.loop.frame.isSome))

def next (s : EventLoopThread F) : ThreadEvent F → Except LoopFault (EventLoopThread F)
  | .startLoop => .ok { s with owner := .waiting, io := .constructing }
  | .awaken => .ok { s with owner := .started }
  | .exit => .ok { s with owner := .exiting, exiting := true }
  | .quit => do return { s with owner := .quitting, loop := ← s.loop.next (.quit .owner) }
  | .wake => do return { s with owner := .joining, loop := ← s.loop.next (.finish .owner) }
  | .join => .ok { s with owner := .joined }
  | .construct => .ok { s with io := .callback, loop := .new .io }
  | .publish => .ok { s with io := .published, published := true }
  | .enter => do return { s with io := .inLoop, loop := ← s.loop.next (.loop .io) }
  | .returned => .ok { s with io := .finished }
  | .io e => do return { s with loop := ← s.loop.next e }

/-- The owner and the I/O thread, interleaved. -/
def system : Lts (EventLoopThread F) (ThreadEvent F) LoopFault where
  init s := s = new
  enabled s a := s.enabled a = true
  next := next

instance (s : EventLoopThread F) (a : ThreadEvent F) : Decidable (system.enabled s a) :=
  inferInstanceAs (Decidable (_ = true))

/-! ## Past the reset of `quit_` -/

/-- Inside `loop()`, with `quit_ = false` done. -/
def PastReset (l : EventLoop LoopThread F) : Prop :=
  ∃ t pc, l.frame = some (t, pc) ∧ pc ≠ .starting

/-- The side condition on events: the destructor calls `quit()` only when the
I/O thread has reset `quit_` in `loop()`. -/
def QuitsInLoop (s : EventLoopThread F) (a : ThreadEvent F) : Prop :=
  a = .quit → s.io = .inLoop ∧ PastReset s.loop

/-- The quit request is kept: `quit_` is true while `loop()` goes on. -/
def QuitKept (s : EventLoopThread F) : Prop :=
  s.io = .finished ∨ (s.io = .inLoop ∧
    ((PastReset s.loop ∧ s.loop.quit = true) ∨ s.loop.frame = none))

variable {l l' : EventLoop LoopThread F} {e : LoopEvent LoopThread F}

theorem pastReset_goTo {t : LoopThread} {pc : LoopPc LoopThread F} (h : pc ≠ .starting) :
    PastReset (l.goTo t pc) := ⟨t, pc, rfl, h⟩

/-- The loop goes on past the reset with `quit_` as it is, or returns. -/
theorem pastReset_advance {t : LoopThread} {pc : LoopPc LoopThread F} (hpc : pc ≠ .starting)
    (hf : l.frame = some (t, pc)) :
    (PastReset (l.advance t pc) ∧ (l.advance t pc).quit = l.quit) ∨
      (l.advance t pc).frame = none := by
  cases pc with
  | starting => exact absurd rfl hpc
  | test =>
      simp only [advance]
      split
      · exact Or.inr rfl
      · exact Or.inl ⟨pastReset_goTo (by simp), rfl⟩
  | clear => exact Or.inl ⟨pastReset_goTo (by simp), rfl⟩
  | polling => exact Or.inl ⟨⟨t, _, hf, by simp⟩, rfl⟩
  | dispatch todo b =>
      cases todo with
      | nil => exact Or.inl ⟨pastReset_goTo (by simp), rfl⟩
      | cons c todo => cases c <;> exact Or.inl ⟨pastReset_goTo (by simp), rfl⟩
  | swapping => exact Or.inl ⟨⟨t, _, rfl, by simp⟩, rfl⟩
  | running todo b => cases todo <;> exact Or.inl ⟨pastReset_goTo (by simp), rfl⟩
  | leaving => exact Or.inl ⟨pastReset_goTo (by simp), rfl⟩

theorem frame_finish (t : LoopThread) :
    (l.finish t).frame = l.frame ∧ (l.finish t).quit = l.quit := by
  obtain ⟨n, h⟩ := l.finish_eq t
  rw [h]
  exact ⟨rfl, rfl⟩

/-- **One event of the loop**: once past the reset, a request to quit stays
until `loop()` returns. -/
theorem pastReset_move (hframed : Framed l) (h : PastReset l) (hq : l.quit = true)
    (m : Move l e l') : (PastReset l' ∧ l'.quit = true) ∨ l'.frame = none := by
  obtain ⟨t, pc, hf, hpc⟩ := h
  cases m with
  | push _ _ => exact Or.inl ⟨⟨t, pc, hf, hpc⟩, hq⟩
  | inline => exact Or.inl ⟨⟨t, pc, hf, hpc⟩, hq⟩
  | quit _ => exact Or.inl ⟨⟨t, pc, hf, hpc⟩, rfl⟩
  | finish _ =>
      exact Or.inl ⟨⟨t, pc, (frame_finish _).1.trans hf, hpc⟩, (frame_finish _).2.trans hq⟩
  | loop _ hl =>
      rw [hframed.outside hl] at hf
      cases hf
  | advance hf' _ _ =>
      rw [hf] at hf'
      cases hf'
      rcases pastReset_advance hpc hf with ⟨hp, hquit⟩ | hnone
      · exact Or.inl ⟨hp, hquit.trans hq⟩
      · exact Or.inr hnone
  | poll _ _ _ => exact Or.inl ⟨pastReset_goTo (by simp), hq⟩

/-! ## Whole runs -/

variable {s s' : EventLoopThread F} {a : ThreadEvent F}

/-- The loop has a consistent frame, and a quit that has been executed is
kept. -/
structure KeepsQuit (s : EventLoopThread F) : Prop where
  framed : Framed s.loop
  kept : s.owner.hasQuit = true → s.QuitKept

/-- A quit that is kept finds the I/O thread in `loop()` or past it. -/
theorem QuitKept.elim {p : IoPc} (h : s.QuitKept) (hp : s.io = p) (hfin : p ≠ .finished)
    (hloop : p ≠ .inLoop) : False := by
  rcases h with hio | ⟨hio, -⟩
  · exact hfin (hp.symm.trans hio)
  · exact hloop (hp.symm.trans hio)

/-- A call of the loop made by the owner or by the I/O thread. -/
theorem QuitKept.move (h : s.QuitKept) (hframed : Framed s.loop) (m : Move s.loop e l')
    (hsome : s.loop.frame = none → l'.frame = none) {o : OwnerPc} :
    QuitKept { s with owner := o, loop := l' } := by
  rcases h with hfin | ⟨hio, ⟨hpast, hquit⟩ | hnone⟩
  · exact Or.inl hfin
  · exact Or.inr ⟨hio, pastReset_move hframed hpast hquit m⟩
  · exact Or.inr ⟨hio, Or.inr (hsome hnone)⟩

/-- **One event** under the side condition. -/
theorem KeepsQuit.step (h : s.KeepsQuit) (he : s.enabled a = true) (hn : s.next a = .ok s')
    (hC : s.QuitsInLoop a) : s'.KeepsQuit := by
  cases a with
  | startLoop =>
      cases hn
      exact ⟨h.framed, fun hq => by cases hq⟩
  | awaken =>
      cases hn
      exact ⟨h.framed, fun hq => by cases hq⟩
  | exit =>
      cases hn
      exact ⟨h.framed, fun hq => by cases hq⟩
  | quit =>
      simp only [enabled, Bool.and_eq_true] at he
      obtain ⟨hio, t, pc, hf, hpc⟩ := hC rfl
      cases hn
      refine ⟨h.framed.move (move_of_next he.2 rfl), fun _ => ?_⟩
      exact Or.inr ⟨hio, Or.inl ⟨⟨t, pc, hf, hpc⟩, rfl⟩⟩
  | wake =>
      simp only [enabled, Bool.and_eq_true, decide_eq_true_eq] at he
      cases hn
      have hm := move_of_next he.2 rfl
      have hkept := h.kept (by rw [he.1]; rfl)
      refine ⟨h.framed.move hm, fun _ => hkept.move h.framed hm fun hnone => ?_⟩
      exact (frame_finish _).1.trans hnone
  | join =>
      simp only [enabled, Bool.and_eq_true, decide_eq_true_eq] at he
      cases hn
      exact ⟨h.framed, fun _ => Or.inl he.2⟩
  | construct =>
      simp only [enabled, decide_eq_true_eq] at he
      cases hn
      exact ⟨framed_new LoopThread.io, fun hq => ((h.kept hq).elim he (by simp) (by simp)).elim⟩
  | publish =>
      simp only [enabled, Bool.and_eq_true, decide_eq_true_eq] at he
      cases hn
      exact ⟨h.framed, fun hq => ((h.kept hq).elim he.1 (by simp) (by simp)).elim⟩
  | enter =>
      simp only [enabled, Bool.and_eq_true, decide_eq_true_eq] at he
      obtain ⟨l, hl, hn⟩ := bind_eq_ok hn
      cases hn
      exact ⟨h.framed.move (move_of_next he.2 hl),
        fun hq => ((h.kept hq).elim he.1 (by simp) (by simp)).elim⟩
  | returned =>
      cases hn
      exact ⟨h.framed, fun _ => Or.inl rfl⟩
  | io e =>
      simp only [enabled, Bool.and_eq_true, Bool.or_eq_true, decide_eq_true_eq] at he
      obtain ⟨⟨-, he⟩, hio⟩ := he
      obtain ⟨l, hl, hn⟩ := bind_eq_ok hn
      cases hn
      have hm := move_of_next he hl
      refine ⟨h.framed.move hm, fun hq => (h.kept hq).move h.framed hm fun hnone => ?_⟩
      rcases hio with hio | ⟨-, hsome⟩
      · exact ((h.kept hq).elim hio (by simp) (by simp)).elim
      · rw [hnone] at hsome
        cases hsome

/-- **A quit request is kept.** In every run in which the destructor calls
`quit()` only when the I/O thread has reset `quit_` in `loop()`: once it
has, `quit_` is true until `loop()` has returned. -/
theorem quit_kept (hs : ((system (F := F)).guarded QuitsInLoop).Reachable s)
    (hq : s.owner.hasQuit = true) : s.loop.quit = true ∨ s.returned = true := by
  have hinv : ((system (F := F)).guarded QuitsInLoop).Invariant KeepsQuit := {
    init := by
      rintro s hs
      rw [show s = new from hs]
      exact ⟨framed_new LoopThread.io, nofun⟩
    step := fun s a s' h he hn => h.step he.1 hn he.2 }
  rcases (hinv.reachable hs).kept hq with hfin | ⟨hio, ⟨-, hquit⟩ | hnone⟩
  · exact Or.inr (by simp [returned, hfin])
  · exact Or.inl hquit
  · exact Or.inr (by simp [returned, hio, hnone])

/-- The owner waits in `join` while the I/O thread goes on to loop. -/
def stuck (s : EventLoopThread F) : Bool :=
  s.owner = .joining && !s.returned && !s.loop.quit

theorem quit_kept_joining : ∃ s : EventLoopThread Nat,
    s.owner = .joining ∧ (s.loop.quit = true ∨ s.returned = true) := by
  let L : Lts (EventLoopThread Nat) (ThreadEvent Nat) LoopFault := system.guarded QuitsInLoop
  have h₀ : L.Reachable new := .of_init rfl
  have h₁ := h₀.step (a := ThreadEvent.startLoop) ⟨rfl, nofun⟩ rfl
  have h₂ := h₁.step (a := ThreadEvent.construct) ⟨rfl, nofun⟩ rfl
  have h₃ := h₂.step (a := ThreadEvent.publish) ⟨rfl, nofun⟩ rfl
  have h₄ := h₃.step (a := ThreadEvent.enter) ⟨rfl, nofun⟩ rfl
  have h₅ := h₄.step (a := ThreadEvent.io (.step .io)) ⟨rfl, nofun⟩ rfl
  have h₆ := h₅.step (a := ThreadEvent.awaken) ⟨rfl, nofun⟩ rfl
  have h₇ := h₆.step (a := ThreadEvent.exit) ⟨rfl, nofun⟩ rfl
  have h₈ := h₇.step (a := ThreadEvent.quit) ⟨rfl, fun _ => ⟨rfl, _, _, rfl, nofun⟩⟩ rfl
  have h₉ := h₈.step (a := ThreadEvent.wake) ⟨rfl, nofun⟩ rfl
  exact ⟨_, rfl, quit_kept h₉ rfl⟩

/-- The destructor runs as soon as `startLoop()` has returned, before the I/O
thread has entered `loop()`. -/
theorem quit_lost :
    ¬∀ s : EventLoopThread Nat, system.Reachable s → s.owner.hasQuit = true →
      s.loop.quit = true ∨ s.returned = true := by
  intro h
  obtain ⟨s, hs, hp⟩ := Lts.exists_reachable_of_exec (L := system (F := Nat))
    [.startLoop, .construct, .publish, .awaken, .exit, .quit, .wake, .enter, .io (.step .io)]
    stuck rfl (by decide)
  simp only [stuck, Bool.and_eq_true, Bool.not_eq_true', decide_eq_true_eq] at hp
  obtain ⟨⟨howner, hreturned⟩, hquit⟩ := hp
  rcases h s hs (by rw [howner]; rfl) with hq | hr
  · rw [hquit] at hq
    cases hq
  · rw [hreturned] at hr
    cases hr

end EventLoopThread

end Muduo
