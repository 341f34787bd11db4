import Mathlib.Algebra.Order.BigOperators.Group.Finset
import Mathlib.Data.Fintype.BigOperators

/-!
# Threads, a mutex and condition variables

Threads that share data under a mutex, each at a *place* in its code:
`pc : Tid → P`, and a step of `t` puts `Function.update pc t p` for `pc`.

- `Exclusive`: the mutex. What the thread inside asserts of the shared data
  is kept by the others for nothing (`Exclusive.known`).
- `Condition`: a condition variable. `notify` wakes one thread asleep, if
  there is any, and which one is not determined (`MayNotify`).
- `InHand`: two histories of one code, with what is between them in the hands
  of the threads.
- `Served`: the counting invariant of a condition variable, "if somebody is
  asleep, no more is left to do than there are threads awake to do it",
  with the rules for a move (`Served.move`) and for a signal
  (`Served.notify`).
-/

namespace Lib

namespace Threads

variable {Tid P : Type*} {pc : Tid → P} {t u : Tid} {p : P}

/-! ## The mutex -/

/-- The holder of the mutex is the one thread at a place inside. -/
def Exclusive (inside : P → Bool) (holder : Option Tid) (pc : Tid → P) : Prop :=
  ∀ t, inside (pc t) = true ↔ holder = some t

variable {inside : P → Bool} {holder : Option Tid}

theorem Exclusive.unique (h : Exclusive inside holder pc) (ht : inside (pc t) = true)
    (hu : inside (pc u) = true) : t = u :=
  Option.some.inj (((h t).mp ht).symm.trans ((h u).mp hu))

theorem Exclusive.outside (h : Exclusive inside none pc) (t : Tid) : inside (pc t) = false := by
  rw [← Bool.not_eq_true, h t]
  exact nofun

section Moves

variable [DecidableEq Tid]

/-- What a move does not change of its thread it does not change of any. -/
theorem apply_update {X : Type*} {g : P → X} (hp : g p = g (pc t)) (u : Tid) :
    g (Function.update pc t p u) = g (pc u) := by
  by_cases hu : u = t
  · rw [hu, Function.update_self, hp]
  · rw [Function.update_of_ne hu]

/-- What the threads are about, `call` of their places, after a move. -/
theorem calls_update {X : Type*} (call : P → X) (pc : Tid → P) (t : Tid) (p : P) :
    (fun u => call (Function.update pc t p u)) = Function.update (fun u => call (pc u)) t (call p) :=
  Function.comp_update call pc t p

/-- A move to another place of the same call. -/
theorem calls_same {X : Type*} {call : P → X} (hp : call p = call (pc t)) :
    (fun u => call (Function.update pc t p u)) = fun u => call (pc u) :=
  funext fun u => apply_update hp u

/-- A move to a place without a property makes nobody have it. -/
theorem of_update {g : P → Bool} (hp : g p = false) (h : g (Function.update pc t p u) = true) :
    g (pc u) = true := by
  by_cases hu : u = t
  · rw [hu, Function.update_self, hp] at h
    cases h
  · rwa [Function.update_of_ne hu] at h

theorem Exclusive.stay (h : Exclusive inside holder pc) (hp : inside p = inside (pc t)) :
    Exclusive inside holder (Function.update pc t p) := by
  intro u
  rw [apply_update hp]
  exact h u

theorem Exclusive.acquire (h : Exclusive inside none pc) (hp : inside p = true) :
    Exclusive inside (some t) (Function.update pc t p) := by
  intro u
  by_cases hu : u = t
  · rw [hu, Function.update_self, hp]
    exact ⟨fun _ => rfl, fun _ => rfl⟩
  · rw [Function.update_of_ne hu, h.outside u]
    exact ⟨nofun, fun hs => absurd (Option.some.inj hs).symm hu⟩

theorem Exclusive.release (h : Exclusive inside holder pc) (ht : inside (pc t) = true)
    (hp : inside p = false) : Exclusive inside none (Function.update pc t p) := by
  intro u
  by_cases hu : u = t
  · rw [hu, Function.update_self, hp]
    exact ⟨nofun, nofun⟩
  · rw [Function.update_of_ne hu]
    exact ⟨fun hin => absurd (h.unique hin ht) hu, nofun⟩

/-- What is asserted only of places inside need be shown only of the thread
that moves there, whatever it does to the shared data. -/
theorem Exclusive.known {K : P → Prop} (h : Exclusive inside holder pc)
    (hout : ∀ q, inside q = false → K q) (ht : inside (pc t) = true) (hp : K p) :
    ∀ u, K (Function.update pc t p u) := by
  intro u
  by_cases hu : u = t
  · rwa [hu, Function.update_self]
  · rw [Function.update_of_ne hu]
    refine hout _ (Bool.eq_false_iff.mpr fun hin => hu (h.unique hin ht))

end Moves

/-! ## Condition variables -/

/-- Where a thread sleeps in `wait`, and where it is once it has been woken. -/
structure Condition (P : Type*) where
  asleep : P → Bool
  woken : P → P
  woken_awake : ∀ p, asleep (woken p) = false
  woken_of_awake : ∀ p, asleep p = false → woken p = p

namespace Condition

variable (c : Condition P)

/-- A signal wakes one of the threads asleep, or none if there is none. -/
def MayNotify (pc : Tid → P) : Option Tid → Prop
  | some w => c.asleep (pc w) = true
  | none => ∀ t, c.asleep (pc t) = false

instance [Fintype Tid] (w : Option Tid) : Decidable (c.MayNotify pc w) :=
  match w with
  | some w => inferInstanceAs (Decidable (c.asleep (pc w) = true))
  | none => inferInstanceAs (Decidable (∀ t, c.asleep (pc t) = false))

def notify [DecidableEq Tid] (pc : Tid → P) : Option Tid → Tid → P
  | some w => Function.update pc w (c.woken (pc w))
  | none => pc

def notifyAll (pc : Tid → P) : Tid → P := fun t => c.woken (pc t)

variable {c}

theorem asleep_notifyAll (pc : Tid → P) (t : Tid) : c.asleep (c.notifyAll pc t) = false :=
  c.woken_awake _

/-- What waking keeps holds after a signal. -/
theorem forall_notify [DecidableEq Tid] {K : Tid → P → Prop}
    (hwoken : ∀ t q, K t q → K t (c.woken q)) (h : ∀ t, K t (pc t)) (w : Option Tid) :
    ∀ t, K t (c.notify pc w t) := by
  cases w with
  | none => exact h
  | some w => exact (Function.forall_update_iff pc _).mpr ⟨hwoken w _ (h w), fun t _ => h t⟩

theorem apply_notify [DecidableEq Tid] {X : Type*} {g : P → X} (hg : ∀ q, g (c.woken q) = g q)
    (w : Option Tid) (t : Tid) : g (c.notify pc w t) = g (pc t) :=
  forall_notify (K := fun t q => g q = g (pc t)) (fun _ q hq => (hg q).trans hq) (fun _ => rfl) w t

/-- Waking is nobody's call. -/
theorem calls_notify [DecidableEq Tid] {X : Type*} (call : P → X)
    (hcall : ∀ q, call (c.woken q) = call q) (w : Option Tid) :
    (fun u => call (c.notify pc w u)) = fun u => call (pc u) :=
  funext fun u => apply_notify hcall w u

theorem calls_notifyAll {X : Type*} (call : P → X) (hcall : ∀ q, call (c.woken q) = call q) :
    (fun u => call (c.notifyAll pc u)) = fun u => call (pc u) :=
  funext fun u => hcall (pc u)

/-- A signal leaves a thread where it is, or wakes it. -/
theorem notify_cases [DecidableEq Tid] (pc : Tid → P) (t : Tid) (w : Option Tid) :
    c.notify pc w t = pc t ∨ c.notify pc w t = c.woken (pc t) := by
  cases w with
  | none => exact Or.inl rfl
  | some w =>
      by_cases htw : t = w
      · rw [htw]
        exact Or.inr (Function.update_self ..)
      · exact Or.inl (Function.update_of_ne htw ..)

/-- Nobody goes to sleep in a move to a place awake, or when somebody is woken. -/
theorem asleep_of_update [DecidableEq Tid] (hp : c.asleep p = false)
    (h : c.asleep (Function.update pc t p u) = true) : c.asleep (pc u) = true :=
  of_update hp h

theorem asleep_of_notify [DecidableEq Tid] {w : Option Tid}
    (h : c.asleep (c.notify pc w u) = true) : c.asleep (pc u) = true := by
  cases w with
  | none => exact h
  | some w => exact asleep_of_update (c.woken_awake _) h

/-- A thread awake stays where it is. -/
theorem notify_of_awake [DecidableEq Tid] {w : Option Tid} (ht : c.asleep (pc t) = false) :
    c.notify pc w t = pc t :=
  (notify_cases pc t w).elim id fun h => h.trans (c.woken_of_awake _ ht)

theorem notify_eq [DecidableEq Tid] {w : Option Tid} (h : pc t = p) (hp : c.asleep p = false) :
    c.notify pc w t = p :=
  (notify_of_awake (by rwa [h])).trans h

theorem notifyAll_eq (h : pc t = p) (hp : c.asleep p = false) : c.notifyAll pc t = p := by
  rw [notifyAll, h, c.woken_of_awake p hp]

/-- One sleeper at most: all the signals wake is that one. -/
theorem notifyAll_eq_notify [DecidableEq Tid] (h : ∀ v, c.asleep (pc v) = true → v = u) :
    c.notifyAll pc = c.notify pc (some u) := by
  funext v
  by_cases hv : v = u
  · rw [hv, notify, Function.update_self]
    rfl
  · rw [notify, Function.update_of_ne hv]
    exact c.woken_of_awake _ (Bool.eq_false_iff.mpr fun hasleep => hv (h v hasleep))

end Condition

variable {c : Condition P}

theorem Exclusive.notifyAll (h : Exclusive inside holder pc)
    (hin : ∀ q, inside (c.woken q) = inside q) : Exclusive inside holder (c.notifyAll pc) :=
  fun t => by rw [Condition.notifyAll, hin, h t]

theorem Exclusive.notify [DecidableEq Tid] (h : Exclusive inside holder pc)
    (hin : ∀ q, inside (c.woken q) = inside q) (w : Option Tid) :
    Exclusive inside holder (c.notify pc w) :=
  fun t => by rw [Condition.apply_notify hin, h t]

/-! ## Histories -/

section History

variable [DecidableEq Tid] {T : Type*} {x : T}

/-- What `t` did, of a history of all threads. -/
def callsOf (t : Tid) (history : List (Tid × T)) : List T :=
  (history.filter fun e => e.1 = t).map Prod.snd

theorem callsOf_snoc_self (t : Tid) (l : List (Tid × T)) (x : T) :
    callsOf t (l ++ [(t, x)]) = callsOf t l ++ [x] := by
  simp [callsOf]

theorem callsOf_snoc_ne (h : u ≠ t) (l : List (Tid × T)) (x : T) :
    callsOf u (l ++ [(t, x)]) = callsOf u l := by
  simp [callsOf, h.symm]

theorem mem_callsOf {l : List (Tid × T)} : x ∈ callsOf t l ↔ (t, x) ∈ l := by
  simp [callsOf]

theorem count_callsOf [DecidableEq T] (t : Tid) (x : T) (l : List (Tid × T)) :
    (callsOf t l).count x = l.count (t, x) := by
  rw [callsOf, List.count, List.countP_map, List.countP_filter, List.count]
  refine List.countP_congr fun e _ => ?_
  simp [Prod.ext_iff, and_comm]

/-- Histories that agree for each thread are the same but for the order. -/
theorem perm_of_callsOf {l l' : List (Tid × T)} (h : ∀ t, callsOf t l = callsOf t l') :
    l.Perm l' := by
  classical
  refine List.perm_iff_count.mpr ?_
  rintro ⟨t, x⟩
  rw [← count_callsOf, ← count_callsOf, h]

/-- Every thread has ended, in the same order, what it has done, but for what
it has in hand. -/
def InHand (g : P → List T) (done ended : List (Tid × T)) (pc : Tid → P) : Prop :=
  ∀ t, callsOf t done = callsOf t ended ++ g (pc t)

variable {g : P → List T} {done ended : List (Tid × T)}

theorem InHand.same (h : InHand g done ended pc) (hp : g p = g (pc t)) :
    InHand g done ended (Function.update pc t p) := by
  intro u
  rw [apply_update hp]
  exact h u

theorem InHand.do (h : InHand g done ended pc) (ht : g (pc t) = []) (hp : g p = [x]) :
    InHand g (done ++ [(t, x)]) ended (Function.update pc t p) := by
  intro u
  by_cases hu : u = t
  · rw [hu, Function.update_self, callsOf_snoc_self, h t, ht, hp, List.append_nil]
  · rw [Function.update_of_ne hu, callsOf_snoc_ne hu, h u]

theorem InHand.end (h : InHand g done ended pc) (ht : g (pc t) = [x]) (hp : g p = []) :
    InHand g done (ended ++ [(t, x)]) (Function.update pc t p) := by
  intro u
  by_cases hu : u = t
  · rw [hu, Function.update_self, callsOf_snoc_self, h t, ht, hp, List.append_nil]
  · rw [Function.update_of_ne hu, callsOf_snoc_ne hu, h u]

theorem InHand.notify (h : InHand g done ended pc) (hg : ∀ q, g (c.woken q) = g q)
    (w : Option Tid) : InHand g done ended (c.notify pc w) :=
  fun t => by rw [Condition.apply_notify hg, h t]

end History

/-! ## Counting -/

section Tally

variable [Fintype Tid] {M : Type*} [AddCommMonoid M]

/-- What the threads weigh together, each by its place. -/
def tally (g : Tid → P → M) (pc : Tid → P) : M := ∑ t, g t (pc t)

/-- A thread moves: its old weight goes, its new one comes. -/
theorem tally_move [DecidableEq Tid] (g : Tid → P → M) (pc : Tid → P) (t : Tid) (p : P) :
    tally g (Function.update pc t p) + g t (pc t) = tally g pc + g t p := by
  have hrest : ∑ u ∈ Finset.univ.erase t, g u (Function.update pc t p u) =
      ∑ u ∈ Finset.univ.erase t, g u (pc u) :=
    Finset.sum_congr rfl fun u hu => by rw [Function.update_of_ne (Finset.ne_of_mem_erase hu)]
  calc tally g (Function.update pc t p) + g t (pc t)
      = (g t p + ∑ u ∈ Finset.univ.erase t, g u (pc u)) + g t (pc t) := by
        rw [tally, ← Finset.add_sum_erase _ _ (Finset.mem_univ t), hrest, Function.update_self]
    _ = (g t (pc t) + ∑ u ∈ Finset.univ.erase t, g u (pc u)) + g t p := by
        rw [add_comm (g t p), add_assoc, add_comm (g t p), ← add_assoc, add_comm (g t (pc t))]
    _ = tally g pc + g t p := by
        rw [tally, ← Finset.add_sum_erase _ (fun u => g u (pc u)) (Finset.mem_univ t)]

end Tally

/-- Two threads weigh no more than all. -/
theorem tally_two_le [Fintype Tid] [DecidableEq Tid] (g : Tid → P → Nat) (htu : t ≠ u) :
    g t (pc t) + g u (pc u) ≤ tally g pc := by
  rw [← Finset.sum_pair htu (f := fun t => g t (pc t))]
  exact Finset.sum_le_sum_of_subset (Finset.subset_univ _)

/-- What of a history has a property, counted by the threads. -/
theorem countP_eq_sum [Fintype Tid] [DecidableEq Tid] {T : Type*} (f : T → Bool)
    (l : List (Tid × T)) : (l.map Prod.snd).countP f = ∑ t, (callsOf t l).countP f := by
  induction l using List.reverseRecOn with
  | nil => simp [callsOf]
  | append_singleton l e ih =>
      obtain ⟨t, x⟩ := e
      have hrest : ∑ u ∈ Finset.univ.erase t, (callsOf u (l ++ [(t, x)])).countP f =
          ∑ u ∈ Finset.univ.erase t, (callsOf u l).countP f :=
        Finset.sum_congr rfl fun u hu => by rw [callsOf_snoc_ne (Finset.ne_of_mem_erase hu)]
      rw [List.map_append, List.countP_append, ih, ← Finset.add_sum_erase _ _ (Finset.mem_univ t),
        ← Finset.add_sum_erase Finset.univ _ (Finset.mem_univ t), hrest, callsOf_snoc_self,
        List.countP_append]
      simp only [List.map_singleton]
      omega

theorem length_eq_sum [Fintype Tid] [DecidableEq Tid] {T : Type*} (l : List (Tid × T)) :
    l.length = ∑ t, (callsOf t l).length := by
  simpa using countP_eq_sum (fun _ => true) l

/-- No more has been ended than done. -/
theorem InHand.length_le [Fintype Tid] [DecidableEq Tid] {T : Type*} {g : P → List T}
    {done ended : List (Tid × T)} (h : InHand g done ended pc) : ended.length ≤ done.length := by
  rw [length_eq_sum ended, length_eq_sum done]
  refine Finset.sum_le_sum fun t _ => ?_
  rw [h t, List.length_append]
  exact Nat.le_add_right _ _

/-- What one thread gives or takes, the others taking nothing. -/
theorem sum_le_of_one [Fintype Tid] [DecidableEq Tid] {f g : Tid → Nat} {t : Tid} {m n : Nat}
    (hother : ∀ u, u ≠ t → f u ≤ g u) (ht : f t + m ≤ g t + n) :
    ∑ u, f u + m ≤ ∑ u, g u + n := by
  have hrest : ∑ u ∈ Finset.univ.erase t, f u ≤ ∑ u ∈ Finset.univ.erase t, g u :=
    Finset.sum_le_sum fun u hu => hother u (Finset.ne_of_mem_erase hu)
  rw [← Finset.add_sum_erase _ f (Finset.mem_univ t), ← Finset.add_sum_erase _ g (Finset.mem_univ t)]
  omega

/-- One for each thread of a list. -/
theorem sum_mem_eq_length [Fintype Tid] [DecidableEq Tid] {l : List Tid} (h : l.Nodup) :
    ∑ t, (if t ∈ l then 1 else 0) = l.length := by
  rw [← List.toFinset_card_of_nodup h, ← Finset.card_filter]
  congr 1
  ext t
  simp

/-- A positive weight is some thread's. -/
theorem exists_of_tally_pos [Fintype Tid] {g : Tid → P → Nat} (h : 0 < tally g pc) :
    ∃ t, 0 < g t (pc t) := by
  obtain ⟨t, -, ht⟩ := Finset.exists_ne_zero_of_sum_ne_zero h.ne'
  exact ⟨t, Nat.pos_of_ne_zero ht⟩

/-- While a thread sleeps there is no more to do, `n`, than the others weigh. -/
def Served [Fintype Tid] (c : Condition P) (g : P → Nat) (n : Nat) (pc : Tid → P) : Prop :=
  (∃ t, c.asleep (pc t) = true) → n ≤ tally (fun _ => g) pc

section Served

variable [Fintype Tid] {g : P → Nat} {n n' : Nat}

theorem Served.zero : Served c g 0 pc := fun _ => Nat.zero_le _

/-- Work left for a sleeper is in somebody's hands. -/
theorem Served.exists_pos (h : Served c g n pc) (ht : c.asleep (pc t) = true) (hn : 0 < n) :
    ∃ u, 0 < g (pc u) :=
  exists_of_tally_pos (Nat.lt_of_lt_of_le hn (h ⟨t, ht⟩))

variable [DecidableEq Tid]

/-- A move that does not go to sleep, and leaves as much weight as it leaves
work. -/
theorem Served.move (h : Served c g n pc) (hp : c.asleep p = false)
    (hle : n' + g (pc t) ≤ n + g p) : Served c g n' (Function.update pc t p) := by
  rintro ⟨u, hu⟩
  have hn := h ⟨u, Condition.asleep_of_update hp hu⟩
  have htally := tally_move (fun _ => g) pc t p
  omega

/-- Waking somebody, at this condition variable or at another. -/
theorem Served.wake (h : Served c g n pc) {d : Condition P}
    (hasleep : ∀ q, c.asleep (d.woken q) = true → c.asleep q = true)
    (hle : ∀ q, g q ≤ g (d.woken q)) (w : Option Tid) : Served c g n (d.notify pc w) := by
  cases w with
  | none => exact h
  | some w =>
      rintro ⟨u, hu⟩
      have hsleeper : ∃ u, c.asleep (pc u) = true := by
        refine ⟨u, ?_⟩
        by_cases huw : u = w
        · rw [Condition.notify, huw, Function.update_self] at hu
          exact huw ▸ hasleep _ hu
        · rwa [Condition.notify, Function.update_of_ne huw] at hu
      have hn := h hsleeper
      have htally := tally_move (fun _ => g) pc w (d.woken (pc w))
      have hgain := hle (pc w)
      simp only [Condition.notify]
      omega

/-- A signal: the thread woken takes over the weight the signaller gives up. -/
theorem Served.notify (h : Served c g n pc) {w : Option Tid} (hw : c.MayNotify pc w)
    (hwoken : ∀ q, c.asleep q = true → g q + 1 ≤ g (c.woken q)) (ht : c.asleep (pc t) = false)
    (hp : c.asleep p = false) (hle : g (pc t) ≤ g p + 1) :
    Served c g n (Function.update (c.notify pc w) t p) := by
  cases w with
  | none =>
      rintro ⟨u, hu⟩
      have hawake : ∀ v, c.asleep (Function.update pc t p v) = false :=
        (Function.forall_update_iff pc (p := fun _ q => c.asleep q = false)).mpr
          ⟨hp, fun v _ => hw v⟩
      exact absurd hu (Bool.eq_false_iff.mp (hawake u))
  | some w =>
      have hmore : Served c g (n + 1) (c.notify pc (some w)) := by
        rintro -
        have hn := h ⟨w, hw⟩
        have htally := tally_move (fun _ => g) pc w (c.woken (pc w))
        have hgain := hwoken _ hw
        simp only [Condition.notify]
        omega
      refine hmore.move hp ?_
      rw [Condition.notify_of_awake ht]
      omega

end Served

end Threads

end Lib
