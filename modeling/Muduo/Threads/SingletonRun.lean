import Muduo.Threads.SingletonLife

/-!
# Whole runs with singletons

However threads call `instance()`: one object each, the same for all, and at
`exit()` each destroyed once, before those its constructor has used
(`instances_sound`). And if no constructors use one another in a circle, every
call comes to its end (`instances_return`).
-/

namespace Muduo

open Lib Lib.Threads

/-- Not a call of `instance()` or `exit()`. -/
def SingletonEvent.own {Tid ι : Type} : SingletonEvent Tid ι → Bool
  | .call _ _ | .exit _ => false
  | .once _ | .constructed _ | .atexit _ | .finished _ | .destroy _ | .destroyed _ => true

/-- What an event brings in. -/
def SingletonEvent.cost {Tid ι : Type} : SingletonEvent Tid ι → Nat
  | .call _ _ => 9
  | .exit _ => 1
  | .once _ | .constructed _ | .atexit _ | .finished _ | .destroy _ | .destroyed _ => 0

namespace Singletons

variable {Tid ι : Type} [DecidableEq Tid] [DecidableEq ι] {P : Users ι}
  {s s' : Singletons Tid ι} {a : SingletonEvent Tid ι} {t u : Tid} {i j : ι}

/-- What holds in every reachable state. -/
structure Whole (s : Singletons Tid ι) : Prop where
  owned : Owned s
  built : Built s
  booked : Booked s
  ordered : Ordered s

omit [DecidableEq Tid] [DecidableEq ι] in
theorem whole_new : Whole (new : Singletons Tid ι) where
  owned := ⟨fun i t => ⟨(fun h => by cases h), (fun h => by cases h)⟩, fun _ => List.nodup_nil⟩
  built := by
    constructor <;> simp [new]
  booked := by
    refine ⟨List.nodup_nil, fun i => ⟨(fun h => by cases h), ?_⟩, fun _ => ⟨rfl, rfl⟩⟩
    rintro (h | ⟨u, h⟩) <;> cases h
  ordered := by
    constructor <;> simp [new]

theorem Whole.step (h : Whole s) (m : Move P s a s') : Whole s' where
  owned := h.owned.step m
  built := h.built.step h.owned m
  booked := h.booked.step h.owned m
  ordered := h.ordered.step h.owned h.booked m

theorem whole_reachable (hs : (system P).Reachable s) : Whole s := by
  have hinv : (system P : Lts (Singletons Tid ι) _ _).Invariant Whole := {
    init := by
      rintro s rfl
      exact whole_new
    step := fun s a s' h he hn => h.step (move_of_next he hn) }
  exact hinv.reachable hs

/-- `value_` is set when it is dereferenced. -/
theorem Whole.no_fault (h : Whole s) (a : SingletonEvent Tid ι) :
    ∃ s', s.next a = .ok s' := by
  cases hn : s.next a with
  | ok s' => exact ⟨s', rfl⟩
  | error f =>
      cases a with
      | once t =>
          cases hw : s.want t with
          | none =>
              rw [next, hw] at hn
              cases hn
          | some j =>
              simp only [next, hw, once] at hn
              cases hp : s.ponce j with
              | untouched =>
                  rw [hp] at hn
                  cases hn
              | running u =>
                  rw [hp] at hn
                  cases hn
              | done =>
                  obtain ⟨v, hv⟩ := (h.built.built j).mp (h.built.done j hp)
                  rw [hp, hv] at hn
                  cases hn
      | destroy t =>
          simp only [next] at hn
          split at hn <;> cases hn
      | _ => cases hn

/-- One object for each singleton, `returned` by all calls alike; destroyed
once, those whose constructors have used it before it; and when `exit()` is
through with the handlers and no thread is in an `init()`, all that were
built have been. -/
structure Sound (s : Singletons Tid ι) : Prop where
  once : s.built.Nodup
  same : ∀ e ∈ s.returned, s.value e.2.1 = some e.2.2 ∧ s.built[e.2.2]? = some e.2.1
  deleted : (s.destroying.toList ++ s.deleted).Nodup
  order : ∀ e ∈ s.used, e.1 ∈ s.registered → e.2 ∈ s.destroying.toList ++ s.deleted →
    e.1 ∈ s.deleted
  all : s.handlers = [] → s.destroying = none → (∀ t, s.stack t = []) →
    ∀ i, i ∈ s.deleted ↔ i ∈ s.built

omit [DecidableEq Tid] [DecidableEq ι] in
theorem Whole.sound (h : Whole s) : Sound s where
  once := h.built.nodup
  same e he := by
    have hv := (h.built.returned e he).2
    exact ⟨hv, h.built.value _ _ hv⟩
  deleted := by
    have hnodup := h.booked.nodup
    rw [books, List.append_assoc] at hnodup
    exact hnodup.of_append_right
  order e he hreg hgone := by
    have hnodup := h.booked.nodup
    rw [books, List.append_assoc] at hnodup
    have hnot : e.2 ∉ s.handlers := fun hmem =>
      List.disjoint_of_nodup_append hnodup hmem hgone
    have hbook := h.ordered.registered e.1 hreg
    rw [books, List.append_assoc, List.mem_append, List.mem_append] at hbook
    rcases hbook with hmem | hmem | hmem
    · have hsub := h.ordered.order e he hreg hmem
      exact absurd (hsub.subset (by simp)) hnot
    · exact absurd (h.ordered.destroying e he hreg (Option.mem_toList.mp hmem)) hnot
    · exact hmem
  all hhandlers hdestroying hstack i := by
    have hbooks : i ∈ s.deleted ↔ s.ponce i = .done ∨ s.Finishing i := by
      rw [← h.booked.mem i, books, hhandlers, hdestroying]
      rfl
    rw [hbooks]
    constructor
    · rintro (hdone | ⟨u, hu⟩)
      · exact h.built.done i hdone
      · rw [hstack u] at hu
        cases hu
    · intro hbuilt
      cases hp : s.ponce i with
      | untouched => exact absurd hbuilt (h.built.untouched i hp)
      | running u =>
          have hmem := (h.owned.owner i u).mp hp
          rw [inits, hstack u] at hmem
          cases hmem
      | done => exact Or.inl rfl

/-- **One of each**, in every run, and a null pointer is never dereferenced. -/
theorem instances_sound (hs : (system P).Reachable s) :
    s.Sound ∧ ∀ a : SingletonEvent Tid ι, ∃ s', s.next a = .ok s' :=
  ⟨(whole_reachable hs).sound, (whole_reachable hs).no_fault⟩

/-- The constructor of `true` uses `false`, and its destructor too. Thread 1
calls for `false` while thread 0 builds it for `true`; at `exit()`, `true` goes
first. -/
theorem instances_sound_two : ∃ s : Singletons (Fin 2) Bool,
    s.returned = [(0, false, 0), (1, false, 0), (0, true, 1), (0, false, 0)] ∧
      s.deleted = [true, false] ∧ s.Sound := by
  let P : Users Bool := ⟨fun i j => i && !j, fun i j => i && !j⟩
  obtain ⟨s, hs, hp⟩ := Lts.exists_reachable_of_exec
    (L := (system P : Lts (Singletons (Fin 2) Bool) _ _))
    [.call 0 true, .once 0, .call 0 false, .once 0, .call 1 false, .constructed 0, .atexit 0,
      .finished 0, .once 0, .once 1, .constructed 0, .atexit 0, .finished 0, .once 0,
      .exit 0, .destroy 0, .call 0 false, .once 0, .destroyed 0, .destroy 0, .destroyed 0]
    (fun s => s.returned = [(0, false, 0), (1, false, 0), (0, true, 1), (0, false, 0)] ∧
      s.deleted = [true, false]) rfl (by decide +kernel)
  obtain ⟨hreturned, hdeleted⟩ := of_decide_eq_true hp
  exact ⟨s, hreturned, hdeleted, (instances_sound hs).1⟩

/-! ## No circle, no deadlock -/

/-- The calls of `init()` a thread is in, and the one it is about to be in, go
down in rank. -/
structure Ranked (rank : ι → Nat) (s : Singletons Tid ι) : Prop where
  inits : ∀ t, (s.inits t).Pairwise fun i j => rank i < rank j
  want : ∀ t j, s.want t = some j → ∀ i ∈ s.inits t, rank j < rank i

variable {rank : ι → Nat}

omit [DecidableEq Tid] [DecidableEq ι] in
theorem Ranked.congr (h : Ranked rank s) (hinits : ∀ u, s'.inits u = s.inits u)
    (hwant : s'.want = s.want) : Ranked rank s' := by
  constructor
  · intro u
    rw [hinits]
    exact h.inits u
  · intro u
    rw [hinits, hwant]
    exact h.want u

theorem Ranked.step (hrank : ∀ i j, P.constructor i j = true → rank j < rank i)
    (h : Ranked rank s) (m : Move P s a s') : Ranked rank s' := by
  cases m with
  | @call t j _ hmay =>
      refine ⟨h.inits, fun u k hk i hi => ?_⟩
      by_cases hu : u = t
      · subst hu
        change Function.update s.want u (some j) u = some k at hk
        rw [Function.update_self] at hk
        obtain rfl := Option.some.inj hk
        have hpair := h.inits u
        have hi : i ∈ s.inits u := hi
        rw [mayCall] at hmay
        rw [Singletons.inits] at hi hpair
        split at hmay
        · rename_i b rest hstack
          rw [hstack, List.map_cons] at hi hpair
          have hb := hrank b j hmay
          rcases List.mem_cons.mp hi with rfl | hi
          · exact hb
          · exact Nat.lt_trans hb ((List.pairwise_cons.mp hpair).1 i hi)
        · cases hmay
        · cases hmay
        · rename_i hstack
          rw [hstack] at hi
          cases hi
      · exact h.want u k (by rw [← hk]; exact (Function.update_of_ne hu ..).symm) i hi
  | @first t j hw _ =>
      constructor
      · intro u
        change ((Function.update s.stack t (.construct j :: s.stack t) u).map
          Init.singleton).Pairwise _
        by_cases hu : u = t
        · subst hu
          rw [Function.update_self, List.map_cons]
          exact List.pairwise_cons.mpr ⟨h.want u j hw, h.inits u⟩
        · rw [Function.update_of_ne hu]
          exact h.inits u
      · intro u k hk i hi
        change Function.update s.want t none u = some k at hk
        change i ∈ (Function.update s.stack t (.construct j :: s.stack t) u).map
          Init.singleton at hi
        have hu : u ≠ t := by
          rintro rfl
          rw [Function.update_self] at hk
          cases hk
        rw [Function.update_of_ne hu] at hk hi
        exact h.want u k hk i hi
  | @returned t j v used _ _ _ _ =>
      refine ⟨h.inits, fun u k hk i hi => ?_⟩
      change Function.update s.want t none u = some k at hk
      have hu : u ≠ t := by
        rintro rfl
        rw [Function.update_self] at hk
        cases hk
      rw [Function.update_of_ne hu] at hk
      exact h.want u k hk i hi
  | @constructed t j rest hstack =>
      refine h.congr (inits_update ?_) rfl
      rw [Singletons.inits, hstack]
      rfl
  | @atexit t j rest hstack =>
      refine h.congr (inits_update ?_) rfl
      rw [Singletons.inits, hstack]
      rfl
  | @finished t j rest hstack =>
      have hpair := h.inits t
      rw [Singletons.inits, hstack, List.map_cons, List.pairwise_cons] at hpair
      constructor
      · intro u
        change ((Function.update s.stack t rest u).map Init.singleton).Pairwise _
        by_cases hu : u = t
        · subst hu
          rw [Function.update_self]
          exact hpair.2
        · rw [Function.update_of_ne hu]
          exact h.inits u
      · intro u k hk i hi
        change Function.update s.want t (some j) u = some k at hk
        change i ∈ (Function.update s.stack t rest u).map Init.singleton at hi
        by_cases hu : u = t
        · subst hu
          rw [Function.update_self] at hk hi
          obtain rfl := Option.some.inj hk
          exact hpair.1 i hi
        · rw [Function.update_of_ne hu] at hk hi
          exact h.want u k hk i hi
  | exit _ | destroy _ _ _ | destroyed _ _ => exact ⟨h.inits, h.want⟩

theorem ranked_reachable (hrank : ∀ i j, P.constructor i j = true → rank j < rank i)
    (hs : (system P).Reachable s) : Ranked rank s := by
  have hinv : (system P : Lts (Singletons Tid ι) _ _).Invariant (Ranked rank) := {
    init := by
      rintro s rfl
      exact ⟨fun _ => List.Pairwise.nil, fun _ _ h => by cases h⟩
    step := fun s a s' h he hn => h.step hrank (move_of_next he hn) }
  exact hinv.reachable hs

/-- In a call of `instance()`, a constructor, or a destructor. -/
def Busy (s : Singletons Tid ι) (t : Tid) : Prop :=
  s.want t ≠ none ∨ s.stack t ≠ [] ∨ (s.exiting = some t ∧ s.destroying ≠ none)

omit [DecidableEq ι] in
/-- A thread that is in no `pthread_once` can go on. -/
theorem exists_own_of_stack (hw : s.want t = none) (hstack : s.stack t ≠ []) :
    ∃ a : SingletonEvent Tid ι, a.own = true ∧ s.enabled P a = true := by
  cases hs : s.stack t with
  | nil => exact absurd hs hstack
  | cons f rest =>
      cases f with
      | construct j => exact ⟨.constructed t, rfl, by simp [enabled, hw, hs]⟩
      | register j => exact ⟨.atexit t, rfl, by simp [enabled, hs]⟩
      | finish j => exact ⟨.finished t, rfl, by simp [enabled, hs]⟩

omit [DecidableEq ι] in
/-- Who waits, waits for a thread whose own wait is of lower rank. -/
theorem exists_own_of_want (ho : Owned s) (h : Ranked rank s) (n : Nat) :
    ∀ t j, s.want t = some j → rank j = n →
      ∃ a : SingletonEvent Tid ι, a.own = true ∧ s.enabled P a = true := by
  induction n using Nat.strong_induction_on with
  | _ n ih =>
      intro t j hw hn
      cases hp : s.ponce j with
      | untouched => exact ⟨.once t, rfl, by simp [enabled, hw, hp]⟩
      | done => exact ⟨.once t, rfl, by simp [enabled, hw, hp]⟩
      | running u =>
          have hj : j ∈ s.inits u := (ho.owner j u).mp hp
          cases hwu : s.want u with
          | none =>
              refine exists_own_of_stack hwu fun hnil => ?_
              rw [inits, hnil] at hj
              cases hj
          | some k => exact ih (rank k) (hn ▸ h.want u k hwu j hj) u k hwu rfl

omit [DecidableEq ι] in
theorem exists_own (ho : Owned s) (h : Ranked rank s) (hbusy : s.Busy t) :
    ∃ a : SingletonEvent Tid ι, a.own = true ∧ s.enabled P a = true := by
  cases hw : s.want t with
  | some j => exact exists_own_of_want ho h _ t j hw rfl
  | none =>
      by_cases hstack : s.stack t = []
      · have hexit := (hbusy.resolve_left (absurd hw)).resolve_left (absurd hstack)
        refine ⟨.destroyed t, rfl, ?_⟩
        simp [enabled, inExit, hexit.1, hstack, hw, Option.isSome_iff_ne_none.mpr hexit.2]
      · exact exists_own_of_stack hw hstack

/-! ## How long a call can take -/

def initWeight : Init ι → Nat
  | .construct _ => 7
  | .register _ => 6
  | .finish _ => 3

def stackWeight : List (Init ι) → Nat
  | [] => 0
  | f :: rest => initWeight f + stackWeight rest

/-- In `pthread_once`: the whole of `init()` may be before the thread. -/
def wantWeight (ponce : ι → Once Tid) : Option ι → Nat
  | none => 0
  | some j => if ponce j = .done then 1 else 8

def place (s : Singletons Tid ι) (t : Tid) : Nat :=
  wantWeight s.ponce (s.want t) + stackWeight (s.stack t)

omit [DecidableEq ι] in
theorem wantWeight_le (ponce : ι → Once Tid) (w : Option ι) : wantWeight ponce w ≤ 8 := by
  cases w with
  | none => exact Nat.zero_le _
  | some j =>
      simp only [wantWeight]
      split <;> omega

/-- To be complete, or to be run, makes no call longer. -/
theorem wantWeight_update (ponce : ι → Once Tid) (j : ι) (o : Once Tid)
    (h : ponce j = .done → o = .done) (w : Option ι) :
    wantWeight (Function.update ponce j o) w ≤ wantWeight ponce w := by
  cases w with
  | none => exact Nat.le_refl _
  | some k =>
      simp only [wantWeight]
      by_cases hk : k = j
      · subst hk
        rw [Function.update_self]
        by_cases hdone : ponce k = .done
        · rw [if_pos (h hdone), if_pos hdone]
        · rw [if_neg hdone]
          split <;> omega
      · rw [Function.update_of_ne hk]

section Weight

variable [Fintype Tid]

/-- The steps before the threads and the handlers. -/
def weight (s : Singletons Tid ι) : Nat :=
  ∑ t, s.place t + 2 * s.handlers.length + s.destroying.toList.length

theorem weight_move (m : Move P s a s') : s'.weight + 1 ≤ s.weight + a.cost := by
  cases m with
  | @call t j hw _ =>
      have hsum := @sum_le_of_one Tid _ _
        (place { s with want := Function.update s.want t (some j) }) s.place t 0 8 ?_ ?_
      · simp only [weight, SingletonEvent.cost]
        omega
      · intro u hu
        simp only [place, Function.update_of_ne hu]
        exact Nat.le_refl _
      · have hle := wantWeight_le s.ponce (some j)
        simp only [place, Function.update_self]
        omega
  | @first t j hw hponce =>
      have hnot : s.ponce j = .done → Once.running t = .done := by
        rw [hponce]
        intro h
        cases h
      have hponce' := wantWeight_update s.ponce j (.running t) hnot
      have hsum := @sum_le_of_one Tid _ _
        (place { s with
          ponce := Function.update s.ponce j (.running t)
          want := Function.update s.want t none
          stack := Function.update s.stack t (.construct j :: s.stack t) }) s.place t 1 0 ?_ ?_
      · simp only [weight, SingletonEvent.cost]
        omega
      · intro u hu
        simp only [place, Function.update_of_ne hu]
        exact Nat.add_le_add_right (hponce' _) _
      · simp only [place, Function.update_self, hw, wantWeight, stackWeight, initWeight, hponce,
          reduceCtorEq, if_false]
        omega
  | @returned t j v used hw hponce _ _ =>
      have hsum := @sum_le_of_one Tid _ _
        (place { s with want := Function.update s.want t none }) s.place t 1 0 ?_ ?_
      · change ∑ u, place { s with want := Function.update s.want t none } u +
          2 * s.handlers.length + s.destroying.toList.length + 1 ≤ _
        simp only [weight, SingletonEvent.cost]
        omega
      · intro u hu
        simp only [place, Function.update_of_ne hu]
        exact Nat.le_refl _
      · simp only [place, Function.update_self, hw, wantWeight, hponce, if_true]
        omega
  | @constructed t j rest hstack =>
      have hsum := @sum_le_of_one Tid _ _
        (place { s with stack := Function.update s.stack t (.register j :: rest) }) s.place t 1 0
        ?_ ?_
      · change ∑ u, place { s with
            stack := Function.update s.stack t (.register j :: rest) } u +
          2 * s.handlers.length + s.destroying.toList.length + 1 ≤ _
        simp only [weight, SingletonEvent.cost]
        omega
      · intro u hu
        simp only [place, Function.update_of_ne hu]
        exact Nat.le_refl _
      · simp only [place, Function.update_self, hstack, stackWeight, initWeight]
        omega
  | @atexit t j rest hstack =>
      have hsum := @sum_le_of_one Tid _ _
        (place { s with stack := Function.update s.stack t (.finish j :: rest) }) s.place t 3 0
        ?_ ?_
      · change ∑ u, place { s with
            stack := Function.update s.stack t (.finish j :: rest) } u +
          2 * (s.handlers.length + 1) + s.destroying.toList.length + 1 ≤ _
        simp only [weight, SingletonEvent.cost]
        omega
      · intro u hu
        simp only [place, Function.update_of_ne hu]
        exact Nat.le_refl _
      · simp only [place, Function.update_self, hstack, stackWeight, initWeight]
        omega
  | @finished t j rest hstack =>
      have hponce' := wantWeight_update s.ponce j .done fun _ => rfl
      have hsum := @sum_le_of_one Tid _ _
        (place { s with
          ponce := Function.update s.ponce j .done
          stack := Function.update s.stack t rest
          want := Function.update s.want t (some j) }) s.place t 1 0 ?_ ?_
      · simp only [weight, SingletonEvent.cost]
        omega
      · intro u hu
        simp only [place, Function.update_of_ne hu]
        exact Nat.add_le_add_right (hponce' _) _
      · simp only [place, Function.update_self, hstack, wantWeight, stackWeight, initWeight,
          if_true]
        omega
  | exit _ => exact Nat.le_refl _
  | @destroy t j rest _ hnone hhandlers =>
      change ∑ u, s.place u + 2 * rest.length + 1 + 1 ≤ _
      rw [weight, hnone, hhandlers, List.length_cons]
      simp only [Option.toList_none, List.length_nil, SingletonEvent.cost]
      omega
  | @destroyed t j _ hdestroying =>
      change ∑ u, s.place u + 2 * s.handlers.length + 0 + 1 ≤ _
      rw [weight, hdestroying]
      exact Nat.le_refl _

/-- **Every call returns** if no constructors use one another in a circle: as
long as a thread is in a call, a constructor or a destructor, some thread can
go on, and there are no more than eight steps for each call of `instance()`. -/
theorem instances_return (hrank : ∀ i j, P.constructor i j = true → rank j < rank i)
    {as : List (SingletonEvent Tid ι)} (hrun : (system P).Run new as s) :
    (∀ t, s.Busy t → ∃ a : SingletonEvent Tid ι, a.own = true ∧ s.enabled P a = true) ∧
      as.length ≤ Lts.total SingletonEvent.cost as := by
  have hs : (system P).Reachable s := ⟨new, as, rfl, hrun⟩
  have hlen := hrun.length_le (I := fun _ => True) weight SingletonEvent.cost
    (fun _ _ _ _ _ _ => trivial)
    (fun _ _ _ _ he hn => weight_move (move_of_next he hn)) trivial
  have hnew : (new : Singletons Tid ι).weight = 0 := by
    simp [weight, new, place, wantWeight, stackWeight]
  refine ⟨fun t => exists_own (whole_reachable hs).owned (ranked_reachable hrank hs), ?_⟩
  omega

/-- Thread 0 is in the constructor of `true`, and in that of `false` for it;
thread 1 waits for `true`. -/
theorem instances_return_two : ∃ s : Singletons (Fin 2) Bool, s.want 1 = some true ∧
    ∃ a : SingletonEvent (Fin 2) Bool, a.own = true ∧
      s.enabled ⟨fun i j => i && !j, fun _ _ => false⟩ a = true := by
  have hexec : ((system ⟨fun i j => i && !j, fun _ _ => false⟩ :
      Lts (Singletons (Fin 2) Bool) _ _).exec new
      [.call 0 true, .once 0, .call 1 true, .call 0 false, .once 0]).map
      (fun s => decide (s.want 1 = some true)) = some true := by decide +kernel
  obtain ⟨s, hs, hp⟩ := Option.map_eq_some_iff.mp hexec
  have hwant := of_decide_eq_true hp
  have hrank : ∀ i j : Bool, (i && !j) = true → j.toNat < i.toNat := by decide
  refine ⟨s, hwant, (instances_return hrank (Lts.run_of_exec hs)).1 1 (Or.inl ?_)⟩
  rw [hwant]
  exact Option.some_ne_none true

end Weight

end Singletons

end Muduo
