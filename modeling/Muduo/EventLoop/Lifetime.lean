import Muduo.EventLoop.EventLoopThread

/-!
# `EventLoopThread`: does the destructor find a live loop?

The two threads of `EventLoopThread` again, with all an owner may do to the
object: destroy it without having called `startLoop()`, and use the loop it
was given, `quit()` included; and with code in the loop that calls `quit()`
itself. `loop_` is never cleared, while the `EventLoop` it points to lives
on the stack of `threadFunc`. So a dereference is a fault of its own: of a
null pointer, or of a dangling one.

The destructor's `loop_->quit()` finds a live loop when it is the first to
quit the loop for good (`quit_live`). Inside that call `wakeup()` comes after
`quit_ = true`, and there the loop is alive only if the I/O thread has not
seen the flag yet (`wakeup_live`).
-/

namespace Muduo

open Lib EventLoop

inductive DerefFault where
  | loop (f : LoopFault)
  | null
  | dangling
deriving DecidableEq

/-- An event of the two threads as before; the destructor without a
`startLoop()`; a call the owner makes on the loop it was given; `quit()`
called by code in the loop. -/
inductive LifeEvent (F : Type) where
  | thread (a : ThreadEvent F)
  | abandon
  | use (e : LoopEvent LoopThread F)
  | quitInLoop

namespace EventLoopThread

variable {F : Type}

/-- The frame of `threadFunc`, and with it the loop that has been published,
is still there. -/
def Live (s : EventLoopThread F) : Prop :=
  s.published = true ∧ (s.io = .published ∨ s.io = .inLoop)

instance (s : EventLoopThread F) : Decidable s.Live := inferInstanceAs (Decidable (_ ∧ _))

/-- `*loop_` -/
def deref (s : EventLoopThread F) : Except DerefFault Unit := do
  check (s.published = true) .null
  check s.Live .dangling

/-- A fault of the loop itself. -/
def inLoop {α : Type} : Except LoopFault α → Except DerefFault α
  | .ok a => .ok a
  | .error f => .error (.loop f)

/-- The calls the owner may make on the loop it was given. -/
def isUse : LoopEvent LoopThread F → Bool
  | .queueInLoop t _ => t = .owner
  | .runInLoop t _ => t = .owner
  | .quit t => t = .owner
  | .finish t => t = .owner
  | _ => false

def enabledLife (s : EventLoopThread F) : LifeEvent F → Bool
  | .thread .exit => s.enabled .exit && s.loop.calls .owner = .none
  | .thread a => s.enabled a
  | .abandon => s.owner = .constructed
  | .use e => s.owner = .started && isUse e && s.loop.enabled e
  | .quitInLoop =>
      s.loop.enabled (.quit .io) && (s.io = .callback || (s.io = .inLoop && s.loop.frame.isSome))

def nextLife (s : EventLoopThread F) : LifeEvent F → Except DerefFault (EventLoopThread F)
  | .thread .quit => do
      s.deref
      inLoop (s.next .quit)
  | .thread .wake => do
      s.deref
      inLoop (s.next .wake)
  | .thread a => inLoop (s.next a)
  | .abandon => .ok { s with owner := .exiting, exiting := true }
  | .use e => do
      s.deref
      return { s with loop := ← inLoop (s.loop.next e) }
  | .quitInLoop => do return { s with loop := ← inLoop (s.loop.next (.quit .io)) }

/-- The owner and the I/O thread, interleaved, with all uses of the loop. -/
def lifetime : Lts (EventLoopThread F) (LifeEvent F) DerefFault where
  init s := s = new
  enabled s a := s.enabledLife a = true
  next := nextLife

instance (s : EventLoopThread F) (a : LifeEvent F) : Decidable (lifetime.enabled s a) :=
  inferInstanceAs (Decidable (_ = true))

/-! ## The side conditions -/

/-- The destructor runs after `startLoop()`, and before it has called
`quit()` nobody quits the loop once it has reset `quit_`. -/
def QuitsAtEnd (s : EventLoopThread F) (a : LifeEvent F) : Prop :=
  a ≠ .abandon ∧
    (a = .use (.quit .owner) ∨ a = .quitInLoop → s.owner.hasQuit = true ∨ ¬PastReset s.loop)

/-- Between the destructor's `quit_ = true` and its `wakeup()` the I/O thread
does not see the flag at the test of `while (!quit_)`. -/
def WakesFirst (s : EventLoopThread F) (a : LifeEvent F) : Prop :=
  a = .thread (.io (.step .io)) → s.owner = .quitting → s.loop.frame = some (.io, .test) →
    s.loop.quit = false

/-! ## The loop goes on -/

variable {l l' : EventLoop LoopThread F} {e : LoopEvent LoopThread F} {t : LoopThread}

/-- Only the test of `quit_` ends `loop()`. -/
theorem advance_leaves {pc : LoopPc LoopThread F} (hf : l.frame = some (t, pc))
    (h : (l.advance t pc).frame = none) : pc = .test ∧ l.quit = true := by
  cases pc with
  | test =>
      simp only [advance] at h
      split at h
      · exact ⟨rfl, ‹_›⟩
      · cases h
  | polling =>
      rw [advance, hf] at h
      cases h
  | dispatch todo b =>
      cases todo with
      | nil => cases h
      | cons c todo => cases c <;> cases h
  | running todo b => cases todo <;> cases h
  | _ => cases h

/-- **One event of the loop**: it is left only at the test of `quit_`. -/
theorem move_inside (hframed : Framed l) (h : l.frame ≠ none) (m : Move l e l') :
    l'.frame ≠ none ∨ (e = .step l.threadId ∧ l.frame = some (l.threadId, .test) ∧
      l.quit = true) := by
  cases m with
  | @advance t pc hf _ _ =>
      obtain rfl := hframed.owner _ _ hf
      by_cases hnone : (l.advance l.threadId pc).frame = none
      · obtain ⟨rfl, hq⟩ := advance_leaves hf hnone
        exact Or.inr ⟨rfl, hf, hq⟩
      · exact Or.inl hnone
  | @finish t _ =>
      left
      rwa [(frame_finish t).1]
  | loop _ _ => exact Or.inl nofun
  | poll _ _ _ => exact Or.inl nofun
  | push _ _ => exact Or.inl h
  | inline => exact Or.inl h
  | quit _ => exact Or.inl h

theorem frame_loop (m : Move l e l') (he : e = .loop t) : l'.frame = some (t, .starting) := by
  cases m with
  | loop _ _ =>
      cases he
      rfl
  | push _ hevent =>
      subst he
      rcases hevent with h | ⟨h, -⟩ <;> cases h
  | _ => cases he

/-- The loop is running, and has not been told to stop since it reset
`quit_`. -/
def Running (l : EventLoop LoopThread F) : Prop :=
  l.frame ≠ none ∧ (PastReset l → l.quit = false)

theorem Running.move (h : Running l) (hframed : Framed l) (m : Move l e l')
    (hq : ∀ t, e = .quit t → ¬PastReset l) : Running l' := by
  cases m with
  | push _ _ => exact h
  | inline => exact h
  | quit _ => exact ⟨h.1, fun hp => absurd hp (hq _ rfl)⟩
  | @finish t _ =>
      obtain ⟨hf, hquit⟩ := frame_finish (l := l) t
      refine ⟨hf ▸ h.1, fun hp => ?_⟩
      rw [PastReset, hf] at hp
      exact hquit.trans (h.2 hp)
  | loop _ hl => exact absurd (hframed.outside hl) h.1
  | @advance t pc hf _ _ =>
      by_cases hpc : pc = .starting
      · rw [hpc]
        exact ⟨nofun, fun _ => rfl⟩
      · have hquit := h.2 ⟨t, pc, hf, hpc⟩
        rcases pastReset_advance hpc hf with ⟨⟨_, _, hf', -⟩, hsame⟩ | hnone
        · exact ⟨by rw [hf']; exact nofun, fun _ => hsame.trans hquit⟩
        · rw [(advance_leaves hf hnone).2] at hquit
          cases hquit
  | poll hf _ _ =>
      exact ⟨nofun, fun _ => h.2 ⟨_, _, hf, nofun⟩⟩

/-! ## Where the two threads can be -/

variable {s s' : EventLoopThread F} {a : LifeEvent F}

/-- The order the code itself imposes on the two threads. -/
structure Staged (s : EventLoopThread F) : Prop where
  framed : Framed s.loop
  thread : s.loop.threadId = .io
  unstarted : s.owner = .constructed → s.io = .notStarted
  published : s.published = true ↔ s.io = .published ∨ s.io = .inLoop ∨ s.io = .finished
  awake : s.owner ≠ .constructed → s.owner ≠ .waiting → s.published = true

theorem staged_new : Staged (new : EventLoopThread F) where
  framed := framed_new _
  thread := rfl
  unstarted _ := rfl
  published := by simp [new]
  awake h := absurd rfl h

theorem inLoop_eq_ok {α : Type} {x : Except LoopFault α} {b : α} (h : inLoop x = .ok b) :
    x = .ok b := by
  cases x with
  | ok b' => exact congrArg _ (Except.ok.inj h)
  | error f => cases h

/-- What a dereference does, the thread would have done. -/
theorem next_of_life {a : ThreadEvent F} (h : s.nextLife (.thread a) = .ok s') :
    s.next a = .ok s' := by
  cases a with
  | quit =>
      obtain ⟨_, -, h⟩ := bind_eq_ok h
      exact inLoop_eq_ok h
  | wake =>
      obtain ⟨_, -, h⟩ := bind_eq_ok h
      exact inLoop_eq_ok h
  | _ => exact inLoop_eq_ok h

theorem enabled_of_life {a : ThreadEvent F} (h : s.enabledLife (.thread a) = true) :
    s.enabled a = true := by
  cases a with
  | exit => exact (Bool.and_eq_true_iff.mp h).1
  | _ => exact h

/-- **All an event can do**, one clause per kind: a move of the owner that
leaves the loop alone, the start of the I/O thread, its own moves outside
`loop()`, its entry into `loop()`, and a call or step of the loop. -/
inductive LifeMove (s : EventLoopThread F) : LifeEvent F → EventLoopThread F → Prop where
  | start : s.owner = .constructed →
      LifeMove s (.thread .startLoop) { s with owner := .waiting, io := .constructing }
  | awaken : s.owner = .waiting → s.published = true →
      LifeMove s (.thread .awaken) { s with owner := .started }
  | exit : s.owner = .started →
      LifeMove s (.thread .exit) { s with owner := .exiting, exiting := true }
  | join : s.owner = .joining → LifeMove s (.thread .join) { s with owner := .joined }
  | abandon : LifeMove s .abandon { s with owner := .exiting, exiting := true }
  | construct : s.io = .constructing →
      LifeMove s (.thread .construct) { s with io := .callback, loop := .new .io }
  | publish : s.io = .callback →
      LifeMove s (.thread .publish) { s with io := .published, published := true }
  | enter {l : EventLoop LoopThread F} : s.io = .published → Move s.loop (.loop .io) l →
      LifeMove s (.thread .enter) { s with io := .inLoop, loop := l }
  | returned : s.io = .inLoop → s.loop.frame = none →
      LifeMove s (.thread .returned) { s with io := .finished }
  | quit {l : EventLoop LoopThread F} : s.owner = .exiting → s.Live →
      Move s.loop (.quit .owner) l →
      LifeMove s (.thread .quit) { s with owner := .quitting, loop := l }
  | wake {l : EventLoop LoopThread F} : s.owner = .quitting → Move s.loop (.finish .owner) l →
      LifeMove s (.thread .wake) { s with owner := .joining, loop := l }
  | call {a : LifeEvent F} {e : LoopEvent LoopThread F} {l : EventLoop LoopThread F} :
      s.io ≠ .constructing → Move s.loop e l →
      (a = .thread (.io e) ∧ isIo e = true) ∨ (a = .use e ∧ isUse e = true ∧ s.owner = .started) ∨
        (a = .quitInLoop ∧ e = .quit .io) →
      LifeMove s a { s with loop := l }

theorem deref_ok {u : Unit} (h : s.deref = .ok u) : s.Live := by
  obtain ⟨_, -, h⟩ := bind_eq_ok h
  exact of_check h

theorem Live.io_ne (h : s.Live) : s.io ≠ .constructing := by
  rcases h.2 with h | h <;> rw [h] <;> exact nofun

theorem move_of_life (he : s.enabledLife a = true) (hn : s.nextLife a = .ok s') :
    LifeMove s a s' := by
  cases a with
  | abandon =>
      cases hn
      exact .abandon
  | use e =>
      simp only [enabledLife, Bool.and_eq_true, decide_eq_true_eq] at he
      obtain ⟨_, hlive, hn⟩ := bind_eq_ok hn
      obtain ⟨l, hl, hn⟩ := bind_eq_ok hn
      cases hn
      exact .call (deref_ok hlive).io_ne (move_of_next he.2 (inLoop_eq_ok hl))
        (.inr (.inl ⟨rfl, he.1.2, he.1.1⟩))
  | quitInLoop =>
      simp only [enabledLife, Bool.and_eq_true, Bool.or_eq_true, decide_eq_true_eq] at he
      obtain ⟨l, hl, hn⟩ := bind_eq_ok hn
      cases hn
      refine .call ?_ (move_of_next he.1 (inLoop_eq_ok hl)) (.inr (.inr ⟨rfl, rfl⟩))
      rcases he.2 with h | h
      · rw [h]
        intro hio
        cases hio
      · rw [h.1]
        intro hio
        cases hio
  | thread a =>
      have hnext := next_of_life hn
      have hen := enabled_of_life he
      cases a with
      | startLoop =>
          cases hnext
          exact .start (of_decide_eq_true hen)
      | awaken =>
          simp only [enabled, Bool.and_eq_true, decide_eq_true_eq] at hen
          cases hnext
          exact .awaken hen.1 hen.2
      | exit =>
          cases hnext
          exact .exit (of_decide_eq_true hen)
      | quit =>
          simp only [enabled, Bool.and_eq_true, decide_eq_true_eq] at hen
          obtain ⟨_, hlive, -⟩ := bind_eq_ok hn
          obtain ⟨l, hl, hnext⟩ := bind_eq_ok hnext
          cases hnext
          exact .quit hen.1 (deref_ok hlive) (move_of_next hen.2 hl)
      | wake =>
          simp only [enabled, Bool.and_eq_true, decide_eq_true_eq] at hen
          obtain ⟨l, hl, hnext⟩ := bind_eq_ok hnext
          cases hnext
          exact .wake hen.1 (move_of_next hen.2 hl)
      | join =>
          simp only [enabled, Bool.and_eq_true, decide_eq_true_eq] at hen
          cases hnext
          exact .join hen.1
      | construct =>
          cases hnext
          exact .construct (of_decide_eq_true hen)
      | publish =>
          simp only [enabled, Bool.and_eq_true, decide_eq_true_eq] at hen
          cases hnext
          exact .publish hen.1
      | enter =>
          simp only [enabled, Bool.and_eq_true, decide_eq_true_eq] at hen
          obtain ⟨l, hl, hnext⟩ := bind_eq_ok hnext
          cases hnext
          exact .enter hen.1 (move_of_next hen.2 hl)
      | returned =>
          simp only [enabled, returned, Bool.and_eq_true, Bool.or_eq_true, decide_eq_true_eq,
            Option.isNone_iff_eq_none] at hen
          cases hnext
          obtain ⟨⟨hio, hfin | hnone⟩, -⟩ := hen
          · rw [hio] at hfin
            cases hfin
          · exact .returned hio hnone.2
      | io e =>
          simp only [enabled, Bool.and_eq_true, Bool.or_eq_true, decide_eq_true_eq] at hen
          obtain ⟨l, hl, hnext⟩ := bind_eq_ok hnext
          cases hnext
          refine .call ?_ (move_of_next hen.1.2 hl) (.inl ⟨rfl, hen.1.1⟩)
          rcases hen.2 with h | h
          · rw [h]
            intro hio
            cases hio
          · rw [h.1]
            intro hio
            cases hio

/-- Once the I/O thread exists, `startLoop()` has been called. -/
theorem Staged.called (h : s.Staged) {p : IoPc} (hio : s.io = p) (hp : p ≠ .notStarted) :
    s.owner ≠ .constructed := fun ho => hp (hio.symm.trans (h.unstarted ho))

theorem Staged.step (h : s.Staged) (m : LifeMove s a s') (ha : a ≠ .abandon) : s'.Staged := by
  have hcalled := @Staged.called _ s h
  obtain ⟨hframed, hthread, hunstarted, hpublished, hawake⟩ := h
  cases m with
  | start ho =>
      have hp : ¬s.published = true := fun hp => by
        rw [hpublished, hunstarted ho] at hp
        simp at hp
      exact ⟨hframed, hthread, nofun, by simp [hp], fun _ h => absurd rfl h⟩
  | awaken _ hp => exact ⟨hframed, hthread, nofun, hpublished, fun _ _ => hp⟩
  | exit ho =>
      exact ⟨hframed, hthread, nofun, hpublished, fun _ _ => hawake (by simp [ho]) (by simp [ho])⟩
  | join ho =>
      exact ⟨hframed, hthread, nofun, hpublished, fun _ _ => hawake (by simp [ho]) (by simp [ho])⟩
  | abandon => exact absurd rfl ha
  | construct hio =>
      refine ⟨framed_new _, rfl, fun ho => absurd ho (hcalled hio nofun), ?_, hawake⟩
      rw [hpublished, hio]
      simp
  | publish hio =>
      exact ⟨hframed, hthread, fun ho => absurd ho (hcalled hio nofun), by simp, fun _ _ => rfl⟩
  | enter hio m =>
      refine ⟨hframed.move m, m.threadId_eq.trans hthread,
        fun ho => absurd ho (hcalled hio nofun), ?_, hawake⟩
      rw [hpublished, hio]
      simp
  | returned hio _ =>
      refine ⟨hframed, hthread, fun ho => absurd ho (hcalled hio nofun), ?_, hawake⟩
      rw [hpublished, hio]
      simp
  | quit ho _ m =>
      exact ⟨hframed.move m, m.threadId_eq.trans hthread, nofun, hpublished,
        fun _ _ => hawake (by simp [ho]) (by simp [ho])⟩
  | wake ho m =>
      exact ⟨hframed.move m, m.threadId_eq.trans hthread, nofun, hpublished,
        fun _ _ => hawake (by simp [ho]) (by simp [ho])⟩
  | call _ m _ =>
      exact ⟨hframed.move m, m.threadId_eq.trans hthread, hunstarted, hpublished, hawake⟩

/-! ## The call of `quit()` -/

/-- The I/O thread has not left `threadFunc`, nor been told to. -/
structure Unquit (s : EventLoopThread F) : Prop where
  unfinished : s.io ≠ .finished
  running : s.io = .inLoop → Running s.loop

/-- Until the destructor quits the loop it runs. -/
structure KeepsRunning (s : EventLoopThread F) : Prop where
  staged : s.Staged
  unquit : s.owner.hasQuit = false → s.Unquit

theorem keepsRunning_new : KeepsRunning (new : EventLoopThread F) :=
  ⟨staged_new, fun _ => ⟨nofun, nofun⟩⟩

/-- **One event** under the side condition. -/
theorem KeepsRunning.step (h : s.KeepsRunning) (m : LifeMove s a s') (hC : s.QuitsAtEnd a) :
    s'.KeepsRunning := by
  refine ⟨h.staged.step m hC.1, ?_⟩
  have hunquit := h.unquit
  have hframed := h.staged.framed
  cases m with
  | start ho => exact fun _ => ⟨nofun, nofun⟩
  | awaken ho _ =>
      have h := hunquit (by rw [ho]; rfl)
      exact fun _ => ⟨h.unfinished, h.running⟩
  | exit ho =>
      have h := hunquit (by rw [ho]; rfl)
      exact fun _ => ⟨h.unfinished, h.running⟩
  | join ho => exact nofun
  | abandon => exact absurd rfl hC.1
  | construct _ => exact fun _ => ⟨nofun, nofun⟩
  | publish _ => exact fun _ => ⟨nofun, nofun⟩
  | enter _ m =>
      have hf := frame_loop m rfl
      refine fun _ => ⟨nofun, fun _ => ⟨by rw [hf]; exact nofun, fun ⟨_, _, hf', hpc⟩ => ?_⟩⟩
      rw [hf] at hf'
      cases hf'
      exact absurd rfl hpc
  | returned hio hnone => exact fun hq => absurd hnone ((hunquit hq).running hio).1
  | quit _ _ _ => exact nofun
  | wake _ _ => exact nofun
  | @call a e l _ m hcause =>
      refine fun hq => ⟨(hunquit hq).unfinished, fun hio => ?_⟩
      refine ((hunquit hq).running hio).move hframed m ?_
      rintro t rfl
      have hearly : a = .use (.quit .owner) ∨ a = .quitInLoop → ¬PastReset s.loop := fun ha =>
        (hC.2 ha).resolve_left (by rw [hq]; exact Bool.false_ne_true)
      obtain ⟨-, hisIo⟩ | ⟨rfl, huse, -⟩ | ⟨rfl, -⟩ := hcause
      · cases hisIo
      · obtain rfl : t = .owner := of_decide_eq_true huse
        exact hearly (Or.inl rfl)
      · exact hearly (Or.inr rfl)

/-- A published loop of a thread that has not finished is alive. -/
theorem Staged.live (h : s.Staged) (hp : s.published = true) (hfin : s.io ≠ .finished) :
    s.Live := by
  obtain hio | hio | hio := h.published.mp hp
  · exact ⟨hp, Or.inl hio⟩
  · exact ⟨hp, Or.inr hio⟩
  · exact absurd hio hfin

/-! ## Its `wakeup()` -/

/-- While the destructor is in `quit()`, the I/O thread is in `threadFunc`. -/
def Waking (s : EventLoopThread F) : Prop :=
  s.owner = .quitting → s.io ≠ .finished ∧ (s.io = .inLoop → s.loop.frame ≠ none)

theorem Waking.step (h : s.Waking) (hkeeps : s.KeepsRunning) (m : LifeMove s a s')
    (hC : s.WakesFirst a) : s'.Waking := by
  have hframed := hkeeps.staged.framed
  cases m with
  | start _ => exact nofun
  | awaken _ _ => exact nofun
  | exit _ => exact nofun
  | join _ => exact nofun
  | abandon => exact nofun
  | construct _ => exact fun _ => ⟨nofun, nofun⟩
  | publish _ => exact fun _ => ⟨nofun, nofun⟩
  | enter _ m =>
      refine fun _ => ⟨nofun, fun _ => ?_⟩
      rw [frame_loop m rfl]
      exact nofun
  | returned hio hnone => exact fun ho => absurd hnone ((h ho).2 hio)
  | quit ho _ m =>
      have hunquit := hkeeps.unquit (by rw [ho]; rfl)
      refine fun _ => ⟨hunquit.unfinished, fun hio => ?_⟩
      obtain hin | ⟨habs, -⟩ := move_inside hframed (hunquit.running hio).1 m
      · exact hin
      · cases habs
  | wake _ _ => exact nofun
  | @call a e l _ m hcause =>
      refine fun ho => ⟨(h ho).1, fun hio => ?_⟩
      obtain hin | ⟨rfl, htest, hquit⟩ := move_inside hframed ((h ho).2 hio) m
      · exact hin
      · rw [hkeeps.staged.thread] at hcause htest
        obtain ⟨rfl, -⟩ | ⟨-, -, ho'⟩ | ⟨-, habs⟩ := hcause
        · rw [hC rfl ho htest] at hquit
          cases hquit
        · rw [ho'] at ho
          cases ho
        · cases habs

/-! ## Whole runs -/

theorem keepsRunning_reachable (hs : ((lifetime (F := F)).guarded QuitsAtEnd).Reachable s) :
    s.KeepsRunning := by
  have hinv : ((lifetime (F := F)).guarded QuitsAtEnd).Invariant KeepsRunning := {
    init := by
      rintro s hs
      rw [show s = new from hs]
      exact keepsRunning_new
    step := fun s a s' h he hn => h.step (move_of_life he.1 hn) he.2 }
  exact hinv.reachable hs

theorem waking_reachable
    (hs : ((lifetime (F := F)).guarded fun s a => QuitsAtEnd s a ∧ WakesFirst s a).Reachable s) :
    s.Waking := by
  refine hs.invariant ?_ fun s a s' hs h he hn => ?_
  · rintro s hs
    rw [show s = new from hs]
    exact nofun
  · have hkeeps := keepsRunning_reachable (hs.guarded_mono fun _ _ hC => hC.1)
    exact h.step hkeeps (move_of_life he.1 hn) he.2.2

/-- **The destructor finds a live loop.** In every run in which it comes
after `startLoop()` and nobody else quits the loop past the reset of `quit_`
before it does: when it is about to call `loop_->quit()`, `loop_` points to
a loop whose `threadFunc` has not been left. The same holds of the `wakeup()`
inside that call when the I/O thread does not see `quit_` before it. -/
theorem destructor_live (s : EventLoopThread F) :
    ((lifetime.guarded QuitsAtEnd).Reachable s → s.owner = .exiting → s.Live) ∧
      ((lifetime.guarded fun s a => QuitsAtEnd s a ∧ WakesFirst s a).Reachable s →
        s.owner = .quitting → s.Live) := by
  constructor
  · intro hs ho
    have h := keepsRunning_reachable hs
    exact h.staged.live (h.staged.awake (by simp [ho]) (by simp [ho]))
      (h.unquit (by rw [ho]; rfl)).unfinished
  · intro hs ho
    have h := keepsRunning_reachable (hs.guarded_mono fun _ _ hC => hC.1)
    exact h.staged.live (h.staged.awake (by simp [ho]) (by simp [ho]))
      (waking_reachable hs ho).1

theorem quitsAtEnd_thread (s : EventLoopThread F) (a : ThreadEvent F) :
    QuitsAtEnd s (.thread a) := ⟨nofun, fun h => by rcases h with h | h <;> cases h⟩

/-- The owner queues a functor and destroys the object. -/
theorem destructor_live_used : ∃ s s' : EventLoopThread Nat,
    s.owner = .exiting ∧ s.Live ∧ s'.owner = .quitting ∧ s'.Live := by
  let L : Lts (EventLoopThread Nat) (LifeEvent Nat) DerefFault :=
    lifetime.guarded fun s a => QuitsAtEnd s a ∧ WakesFirst s a
  have hthread : ∀ {s : EventLoopThread Nat} {a}, a ≠ .io (.step .io) →
      QuitsAtEnd s (.thread a) ∧ WakesFirst s (.thread a) := fun ha =>
    ⟨quitsAtEnd_thread _ _, fun h => absurd (LifeEvent.thread.inj h) ha⟩
  have huse : ∀ {s : EventLoopThread Nat} {e}, e ≠ .quit .owner →
      QuitsAtEnd s (.use e) ∧ WakesFirst s (.use e) := fun he =>
    ⟨⟨nofun, fun h => absurd (h.elim LifeEvent.use.inj nofun) he⟩, nofun⟩
  have h₀ : L.Reachable new := .of_init rfl
  have h₁ := h₀.step (a := LifeEvent.thread .startLoop) ⟨rfl, hthread nofun⟩ rfl
  have h₂ := h₁.step (a := LifeEvent.thread .construct) ⟨rfl, hthread nofun⟩ rfl
  have h₃ := h₂.step (a := LifeEvent.thread .publish) ⟨rfl, hthread nofun⟩ rfl
  have h₄ := h₃.step (a := LifeEvent.thread .enter) ⟨rfl, hthread nofun⟩ rfl
  have h₅ := h₄.step (a := LifeEvent.thread .awaken) ⟨rfl, hthread nofun⟩ rfl
  have h₆ := h₅.step (a := LifeEvent.use (.queueInLoop .owner 0)) ⟨rfl, huse nofun⟩ rfl
  have h₇ := h₆.step (a := LifeEvent.use (.finish .owner)) ⟨rfl, huse nofun⟩ rfl
  have h₈ := h₇.step (a := LifeEvent.thread .exit) ⟨rfl, hthread nofun⟩ rfl
  have h₉ := h₈.step (a := LifeEvent.thread .quit) ⟨rfl, hthread nofun⟩ rfl
  have hlive := (destructor_live _).1 (h₈.guarded_mono fun _ _ hC => hC.1) rfl
  exact ⟨_, _, rfl, hlive, rfl, (destructor_live _).2 h₉ rfl⟩

/-- The object is destroyed after its owner has quit the loop, as the
chapter's own test does. -/
theorem quit_then_destroy :
    ¬∀ s : EventLoopThread Nat, lifetime.Reachable s → s.owner = .exiting → s.Live := by
  intro h
  obtain ⟨s, hs, hp⟩ := Lts.exists_reachable_of_exec (L := lifetime (F := Nat))
    [.thread .startLoop, .thread .construct, .thread .publish, .thread .enter,
      .thread (.io (.step .io)), .thread .awaken, .use (.quit .owner), .use (.finish .owner),
      .thread (.io (.step .io)), .thread .returned, .thread .exit]
    (fun s => s.owner = .exiting && !decide s.Live) rfl (by decide)
  simp only [Bool.and_eq_true, Bool.not_eq_true', decide_eq_true_eq, decide_eq_false_iff_not] at hp
  exact hp.2 (h s hs hp.1)

end EventLoopThread

end Muduo
