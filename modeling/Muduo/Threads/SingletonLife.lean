import Muduo.Threads.Singleton
import Muduo.Lib.Threads

/-!
# The life of a singleton

Each singleton has one object, built by the thread that came first (`Owned`,
`Built`), in the handlers of `exit()` from `atexit` on until it is destroyed
(`Booked`). A constructor that uses another singleton has it complete, and so
registered before: what was complete before `exit()` is destroyed before what
its constructor has used (`Ordered`).

Constructors that use one another in a circle wait for one another for ever.
If they do not, some thread can always go on (`exists_own`), and each call is
good for so many steps (`weight`).
-/

namespace Muduo

open Lib Lib.Threads

namespace Singletons

variable {Tid ι : Type} [DecidableEq Tid] [DecidableEq ι] {P : Users ι}
  {s s' : Singletons Tid ι} {a : SingletonEvent Tid ι} {t u : Tid} {i j : ι}

/-! ## Who builds it -/

/-- The singletons that `t` is in the `init()` of. -/
def inits (s : Singletons Tid ι) (t : Tid) : List ι := (s.stack t).map Init.singleton

omit [DecidableEq ι] in
theorem inits_update {stack : List (Init ι)} (h : stack.map Init.singleton = s.inits t) (u : Tid) :
    (Function.update s.stack t stack u).map Init.singleton = s.inits u :=
  apply_update (g := List.map Init.singleton) h u

/-- A singleton is in the `init()` of the thread that runs its `pthread_once`,
once. -/
structure Owned (s : Singletons Tid ι) : Prop where
  owner : ∀ i t, s.ponce i = .running t ↔ i ∈ s.inits t
  nodup : ∀ t, (s.inits t).Nodup

omit [DecidableEq Tid] [DecidableEq ι] in
theorem Owned.congr (h : Owned s) (hponce : s'.ponce = s.ponce)
    (hinits : ∀ u, s'.inits u = s.inits u) : Owned s' where
  owner i u := by
    rw [hponce, hinits]
    exact h.owner i u
  nodup u := by
    rw [hinits]
    exact h.nodup u

theorem Owned.step (h : Owned s) (m : Move P s a s') : Owned s' := by
  cases m with
  | @constructed t j rest hstack =>
      refine h.congr rfl (inits_update ?_)
      rw [inits, hstack]
      rfl
  | @atexit t j rest hstack =>
      refine h.congr rfl (inits_update ?_)
      rw [inits, hstack]
      rfl
  | @first t j _ hponce =>
      have hnone : ∀ u, j ∉ s.inits u := by
        intro u hj
        have hrunning := (h.owner j u).mpr hj
        rw [hponce] at hrunning
        cases hrunning
      constructor
      · intro i u
        change Function.update s.ponce j (.running t) i = .running u ↔
          i ∈ (Function.update s.stack t (.construct j :: s.stack t) u).map Init.singleton
        by_cases hu : u = t
        · subst hu
          rw [Function.update_self, List.map_cons, List.mem_cons]
          by_cases hi : i = j
          · subst hi
            rw [Function.update_self]
            exact ⟨fun _ => Or.inl rfl, fun _ => rfl⟩
          · rw [Function.update_of_ne hi]
            exact (h.owner i u).trans ⟨Or.inr, fun hor => hor.resolve_left hi⟩
        · rw [Function.update_of_ne hu]
          by_cases hi : i = j
          · subst hi
            rw [Function.update_self]
            exact ⟨fun heq => absurd (Once.running.inj heq).symm hu, fun hi => absurd hi (hnone u)⟩
          · rw [Function.update_of_ne hi]
            exact h.owner i u
      · intro u
        change ((Function.update s.stack t (.construct j :: s.stack t) u).map
          Init.singleton).Nodup
        by_cases hu : u = t
        · subst hu
          rw [Function.update_self, List.map_cons]
          exact List.nodup_cons.mpr ⟨hnone u, h.nodup u⟩
        · rw [Function.update_of_ne hu]
          exact h.nodup u
  | @finished t j rest hstack =>
      have hinits : s.inits t = j :: rest.map Init.singleton := by rw [inits, hstack]; rfl
      have hrest := List.nodup_cons.mp (hinits ▸ h.nodup t)
      have hrunning : s.ponce j = .running t :=
        (h.owner j t).mpr (by rw [hinits]; exact List.mem_cons_self)
      constructor
      · intro i u
        change Function.update s.ponce j .done i = .running u ↔
          i ∈ (Function.update s.stack t rest u).map Init.singleton
        have howner := h.owner i u
        by_cases hi : i = j
        · subst hi
          rw [Function.update_self]
          refine ⟨(fun heq => by cases heq), fun hi => ?_⟩
          by_cases hu : u = t
          · subst hu
            rw [Function.update_self] at hi
            exact absurd hi hrest.1
          · rw [Function.update_of_ne hu] at hi
            have heq := howner.mpr hi
            rw [hrunning] at heq
            exact absurd (Once.running.inj heq).symm hu
        · rw [Function.update_of_ne hi]
          refine howner.trans ?_
          by_cases hu : u = t
          · subst hu
            rw [Function.update_self, hinits, List.mem_cons]
            exact ⟨fun hor => hor.resolve_left hi, Or.inr⟩
          · rw [Function.update_of_ne hu]
            exact Iff.rfl
      · intro u
        change ((Function.update s.stack t rest u).map Init.singleton).Nodup
        by_cases hu : u = t
        · subst hu
          rw [Function.update_self]
          exact hrest.2
        · rw [Function.update_of_ne hu]
          exact h.nodup u
  | call _ _ | returned _ _ _ _ | exit _ | destroy _ _ _ | destroyed _ _ =>
      exact h.congr rfl fun _ => rfl

omit [DecidableEq Tid] [DecidableEq ι] in
/-- A frame tells the thread and how far it is. -/
theorem Owned.running (h : Owned s) {f : Init ι} (hf : f ∈ s.stack t) :
    s.ponce f.singleton = .running t :=
  (h.owner _ t).mpr (List.mem_map_of_mem hf)

omit [DecidableEq Tid] [DecidableEq ι] in
/-- Two frames of one singleton are one. -/
theorem Owned.frame_eq (h : Owned s) {f g : Init ι} (hf : f ∈ s.stack t) (hg : g ∈ s.stack u)
    (hfg : f.singleton = g.singleton) : f = g := by
  have hrunning := (h.running hf).symm.trans (hfg ▸ h.running hg)
  obtain rfl := Once.running.inj hrunning
  exact List.inj_on_of_nodup_map (h.nodup t) hf hg hfg

/-! ## Building it -/

/-- Each singleton is built once, before it is complete, and `value_` points to
it from then on. -/
structure Built (s : Singletons Tid ι) : Prop where
  value : ∀ i v, s.value i = some v → s.built[v]? = some i
  built : ∀ i, i ∈ s.built ↔ ∃ v, s.value i = some v
  nodup : s.built.Nodup
  construct : ∀ t i, .construct i ∈ s.stack t → i ∉ s.built
  past : ∀ t i, .register i ∈ s.stack t ∨ .finish i ∈ s.stack t → i ∈ s.built
  untouched : ∀ i, s.ponce i = .untouched → i ∉ s.built
  done : ∀ i, s.ponce i = .done → i ∈ s.built
  returned : ∀ e ∈ s.returned, s.ponce e.2.1 = .done ∧ s.value e.2.1 = some e.2.2

omit [DecidableEq ι] in
/-- The frames of another thread stay, those of `t` are in its new stack. -/
theorem mem_update {stack : List (Init ι)} {f : Init ι}
    (hf : f ∈ Function.update s.stack t stack u) :
    (u ≠ t ∧ f ∈ s.stack u) ∨ (u = t ∧ f ∈ stack) := by
  by_cases hu : u = t
  · subst hu
    rw [Function.update_self] at hf
    exact Or.inr ⟨rfl, hf⟩
  · rw [Function.update_of_ne hu] at hf
    exact Or.inl ⟨hu, hf⟩

omit [DecidableEq Tid] [DecidableEq ι] in
/-- What the building of singletons is about stays as it is. -/
theorem Built.congr (h : Built s) (hvalue : s'.value = s.value) (hbuilt : s'.built = s.built)
    (hstack : s'.stack = s.stack) (hponce : s'.ponce = s.ponce)
    (hreturned : s'.returned = s.returned) : Built s' := by
  obtain ⟨h₁, h₂, h₃, h₄, h₅, h₆, h₇, h₈⟩ := h
  constructor
  all_goals simp only [hvalue, hbuilt, hstack, hponce, hreturned]
  all_goals assumption

omit [DecidableEq Tid] in
/-- An update to something else than `y` has not made it `y`. -/
theorem eq_of_update {β : Type} {f : ι → β} {x y : β} (hxy : x ≠ y)
    (h : Function.update f j x i = y) : f i = y := by
  by_cases hij : i = j
  · subst hij
    rw [Function.update_self] at h
    exact absurd h hxy
  · rwa [Function.update_of_ne hij] at h

omit [DecidableEq Tid] [DecidableEq ι] in
/-- A call that has returned is not one of a singleton that is not complete. -/
theorem Built.returned_ne (h : Built s) (hj : s.ponce j ≠ .done) {e : Tid × ι × Nat}
    (he : e ∈ s.returned) : e.2.1 ≠ j :=
  fun heq => hj (heq ▸ (h.returned e he).1)

/-- The first call of a singleton goes into its `init()`. -/
theorem Built.first (h : Built s) (hponce : s.ponce j = .untouched) : Built { s with
    ponce := Function.update s.ponce j (.running t)
    want := Function.update s.want t none
    stack := Function.update s.stack t (.construct j :: s.stack t) } := by
  have hframe {u : Tid} {x : Init ι}
      (hx : x ∈ Function.update s.stack t (.construct j :: s.stack t) u) :
      x = .construct j ∨ x ∈ s.stack u := by
    rcases mem_update hx with ⟨-, hmem⟩ | ⟨rfl, hmem⟩
    · exact Or.inr hmem
    · exact List.mem_cons.mp hmem
  refine { h with construct := ?_, past := ?_, untouched := ?_, done := ?_, returned := ?_ }
  · intro u i hi
    rcases hframe hi with heq | hi
    · rw [Init.construct.inj heq]
      exact h.untouched j hponce
    · exact h.construct u i hi
  · intro u i hi
    exact h.past u i (hi.imp (fun hi => (hframe hi).resolve_left (by simp))
      (fun hi => (hframe hi).resolve_left (by simp)))
  · exact fun i hi => h.untouched i (eq_of_update (by simp) hi)
  · exact fun i hi => h.done i (eq_of_update (by simp) hi)
  · intro e he
    obtain ⟨hdone, hv⟩ := h.returned e he
    have hne : e.2.1 ≠ j := h.returned_ne (by simp [hponce]) he
    exact ⟨(Function.update_of_ne hne ..).trans hdone, hv⟩

omit [DecidableEq ι] in
/-- When the innermost frame goes on to `g`, a frame on the stacks is `g`, or
was there and is of another singleton. -/
theorem Owned.frame (h : Owned s) {f g : Init ι} {rest : List (Init ι)}
    (hstack : s.stack t = f :: rest) {x : Init ι}
    (hx : x ∈ Function.update s.stack t (g :: rest) u) :
    x = g ∨ (x ∈ s.stack u ∧ x.singleton ≠ f.singleton) := by
  have hnodup := h.nodup t
  rw [inits, hstack, List.map_cons] at hnodup
  rcases mem_update hx with ⟨hu, hmem⟩ | ⟨rfl, hmem⟩
  · refine Or.inr ⟨hmem, fun heq => hu ?_⟩
    have hf := h.running (hstack ▸ List.mem_cons_self : f ∈ s.stack t)
    exact Once.running.inj ((h.running hmem).symm.trans (heq ▸ hf))
  · rcases List.mem_cons.mp hmem with hg | hmem
    · exact Or.inl hg
    · refine Or.inr ⟨hstack ▸ List.mem_cons_of_mem f hmem, fun heq => ?_⟩
      exact (List.nodup_cons.mp hnodup).1 (heq ▸ List.mem_map_of_mem hmem)

/-- `value_ = new T` -/
theorem Built.constructed (h : Built s) (ho : Owned s) {rest : List (Init ι)}
    (hstack : s.stack t = .construct j :: rest) : Built { s with
    value := Function.update s.value j (some s.built.length)
    built := s.built ++ [j]
    stack := Function.update s.stack t (.register j :: rest) } := by
  have hmem : Init.construct j ∈ s.stack t := hstack ▸ List.mem_cons_self
  have hrunning : s.ponce j = .running t := ho.running hmem
  constructor
  · intro i v hv
    change Function.update s.value j (some s.built.length) i = some v at hv
    by_cases hij : i = j
    · subst hij
      rw [Function.update_self] at hv
      obtain rfl := Option.some.inj hv
      exact List.getElem?_concat_length
    · rw [Function.update_of_ne hij] at hv
      have hold := h.value i v hv
      obtain ⟨hlt, -⟩ := List.getElem?_eq_some_iff.mp hold
      exact (List.getElem?_append_left hlt).trans hold
  · intro i
    change i ∈ s.built ++ [j] ↔ ∃ v, Function.update s.value j (some s.built.length) i = some v
    rw [List.mem_append, List.mem_singleton]
    by_cases hij : i = j
    · subst hij
      exact ⟨fun _ => ⟨_, Function.update_self ..⟩, fun _ => Or.inr rfl⟩
    · rw [Function.update_of_ne hij, or_iff_left hij]
      exact h.built i
  · exact List.nodup_append.mpr ⟨h.nodup, List.nodup_singleton j, by
      intro x hx y hy heq
      rw [List.mem_singleton.mp hy] at heq
      exact h.construct t j hmem (heq ▸ hx)⟩
  · intro u i hi hbuilt
    rcases ho.frame hstack hi with heq | ⟨hi, hne⟩
    · cases heq
    · rcases List.mem_append.mp hbuilt with hb | hb
      · exact h.construct u i hi hb
      · exact hne (List.mem_singleton.mp hb)
  · intro u i hi
    rw [List.mem_append, List.mem_singleton]
    rcases hi with hi | hi
    · rcases ho.frame hstack hi with heq | ⟨hi, -⟩
      · exact Or.inr (Init.register.inj heq)
      · exact Or.inl (h.past u i (Or.inl hi))
    · rcases ho.frame hstack hi with heq | ⟨hi, -⟩
      · cases heq
      · exact Or.inl (h.past u i (Or.inr hi))
  · intro i hi hbuilt
    rcases List.mem_append.mp hbuilt with hb | hb
    · exact h.untouched i hi hb
    · rw [List.mem_singleton.mp hb, hrunning] at hi
      cases hi
  · exact fun i hi => List.mem_append_left _ (h.done i hi)
  · intro e he
    obtain ⟨hdone, hv⟩ := h.returned e he
    have hne : e.2.1 ≠ j := h.returned_ne (by simp [hrunning]) he
    exact ⟨hdone, (Function.update_of_ne hne ..).trans hv⟩

omit [DecidableEq ι] in
/-- `::atexit(destroy)` leaves the frame at the end of `init()`. -/
theorem Built.atexit (h : Built s) (ho : Owned s) {rest : List (Init ι)}
    (hstack : s.stack t = .register j :: rest) : Built { s with
    handlers := j :: s.handlers
    registered := if s.exiting.isNone then s.registered ++ [j] else s.registered
    stack := Function.update s.stack t (.finish j :: rest) } := by
  refine { h with construct := ?_, past := ?_ }
  · intro u i hi
    rcases ho.frame hstack hi with heq | ⟨hi, -⟩
    · cases heq
    · exact h.construct u i hi
  · intro u i hi
    rcases hi with hi | hi
    · rcases ho.frame hstack hi with heq | ⟨hi, -⟩
      · cases heq
      · exact h.past u i (Or.inl hi)
    · rcases ho.frame hstack hi with heq | ⟨hi, -⟩
      · rw [Init.finish.inj heq]
        exact h.past t j (Or.inl (hstack ▸ List.mem_cons_self))
      · exact h.past u i (Or.inr hi)

/-- `init()` returns, and the singleton is complete. -/
theorem Built.finished (h : Built s) {rest : List (Init ι)}
    (hstack : s.stack t = .finish j :: rest) : Built { s with
    ponce := Function.update s.ponce j .done
    stack := Function.update s.stack t rest
    want := Function.update s.want t (some j) } := by
  have hframe {u : Tid} {x : Init ι} (hx : x ∈ Function.update s.stack t rest u) :
      x ∈ s.stack u := by
    rcases mem_update hx with ⟨-, hmem⟩ | ⟨rfl, hmem⟩
    · exact hmem
    · exact hstack ▸ List.mem_cons_of_mem _ hmem
  refine { h with construct := ?_, past := ?_, untouched := ?_, done := ?_, returned := ?_ }
  · exact fun u i hi => h.construct u i (hframe hi)
  · exact fun u i hi => h.past u i (hi.imp hframe hframe)
  · exact fun i hi => h.untouched i (eq_of_update (by simp) hi)
  · intro i hi
    by_cases hij : i = j
    · exact hij ▸ h.past t j (Or.inr (hstack ▸ List.mem_cons_self))
    · exact h.done i (by rw [← hi]; exact (Function.update_of_ne hij ..).symm)
  · intro e he
    obtain ⟨hdone, hv⟩ := h.returned e he
    refine ⟨?_, hv⟩
    by_cases hej : e.2.1 = j
    · rw [hej]
      exact Function.update_self ..
    · exact (Function.update_of_ne hej ..).trans hdone

theorem Built.step (h : Built s) (ho : Owned s) (m : Move P s a s') : Built s' := by
  cases m with
  | first _ hponce => exact h.first hponce
  | returned _ hponce hv _ =>
      refine { h with returned := ?_ }
      intro e he
      rcases List.mem_append.mp he with he | he
      · exact h.returned e he
      · rw [List.mem_singleton.mp he]
        exact ⟨hponce, hv⟩
  | constructed hstack => exact h.constructed ho hstack
  | atexit hstack => exact h.atexit ho hstack
  | finished hstack => exact h.finished hstack
  | call _ _ | exit _ | destroy _ _ _ | destroyed _ _ => exact h.congr rfl rfl rfl rfl rfl

/-! ## Its place in the handlers -/

/-- What has been registered with `atexit`: to be destroyed, being destroyed,
destroyed. -/
def books (s : Singletons Tid ι) : List ι := s.handlers ++ s.destroying.toList ++ s.deleted

/-- Registered, and `init()` not returned yet. -/
def Finishing (s : Singletons Tid ι) (i : ι) : Prop := ∃ t, .finish i ∈ s.stack t

/-- Each singleton that is complete is in the books once. -/
structure Booked (s : Singletons Tid ι) : Prop where
  nodup : s.books.Nodup
  mem : ∀ i, i ∈ s.books ↔ s.ponce i = .done ∨ s.Finishing i
  live : s.exiting = none → s.destroying = none ∧ s.deleted = []

omit [DecidableEq ι] in
theorem finishing_update {stack : List (Init ι)} {i : ι}
    (h : .finish i ∈ stack ↔ .finish i ∈ s.stack t) :
    (∃ u, .finish i ∈ Function.update s.stack t stack u) ↔ s.Finishing i := by
  constructor
  · rintro ⟨u, hu⟩
    rcases mem_update hu with ⟨-, hmem⟩ | ⟨rfl, hmem⟩
    · exact ⟨u, hmem⟩
    · exact ⟨u, h.mp hmem⟩
  · rintro ⟨u, hu⟩
    refine ⟨u, ?_⟩
    by_cases hut : u = t
    · subst hut
      rw [Function.update_self]
      exact h.mpr hu
    · rwa [Function.update_of_ne hut]

omit [DecidableEq Tid] [DecidableEq ι] in
/-- Not in the books, a singleton that is only at `atexit`. -/
theorem Booked.register (h : Booked s) (ho : Owned s) (hj : .register j ∈ s.stack t) :
    j ∉ s.books := by
  intro hbook
  rcases (h.mem j).mp hbook with hdone | ⟨u, hu⟩
  · have hrunning := ho.running hj
    rw [show s.ponce (Init.register j).singleton = .done from hdone] at hrunning
    cases hrunning
  · cases ho.frame_eq hj hu rfl

theorem Booked.step (h : Booked s) (ho : Owned s) (m : Move P s a s') : Booked s' := by
  cases m with
  | @first t j _ hponce =>
      refine ⟨h.nodup, fun i => (h.mem i).trans ?_, h.live⟩
      refine or_congr ?_ (finishing_update (by simp)).symm
      change s.ponce i = .done ↔ Function.update s.ponce j (.running t) i = .done
      by_cases hij : i = j
      · subst hij
        rw [hponce, Function.update_self]
        exact ⟨(fun heq => by cases heq), (fun heq => by cases heq)⟩
      · rw [Function.update_of_ne hij]
  | @constructed t j rest hstack =>
      refine ⟨h.nodup, fun i => (h.mem i).trans (or_congr Iff.rfl ?_), h.live⟩
      refine (finishing_update ?_).symm
      rw [hstack]
      simp
  | @atexit t j rest hstack =>
      have hnot := h.register ho (t := t) (hstack ▸ List.mem_cons_self)
      refine ⟨List.nodup_cons.mpr ⟨hnot, h.nodup⟩, fun i => ?_, h.live⟩
      change i ∈ j :: s.books ↔
        s.ponce i = .done ∨ ∃ u, .finish i ∈ Function.update s.stack t (.finish j :: rest) u
      by_cases hij : i = j
      · subst hij
        refine ⟨fun _ => Or.inr ⟨t, ?_⟩, fun _ => List.mem_cons_self⟩
        rw [Function.update_self]
        exact List.mem_cons_self
      · rw [List.mem_cons, or_iff_right hij, h.mem i]
        refine or_congr Iff.rfl (finishing_update ?_).symm
        rw [hstack]
        simp [hij]
  | @finished t j rest hstack =>
      have hfinish : Init.finish j ∈ s.stack t := hstack ▸ List.mem_cons_self
      refine ⟨h.nodup, fun i => (h.mem i).trans ?_, h.live⟩
      change s.ponce i = .done ∨ s.Finishing i ↔ Function.update s.ponce j .done i = .done ∨
        ∃ u, .finish i ∈ Function.update s.stack t rest u
      by_cases hij : i = j
      · subst hij
        rw [Function.update_self]
        exact ⟨fun _ => Or.inl rfl, fun _ => Or.inr ⟨t, hfinish⟩⟩
      · rw [Function.update_of_ne hij]
        refine or_congr Iff.rfl (finishing_update ?_).symm
        rw [hstack]
        simp [hij]
  | exit _ => exact ⟨h.nodup, h.mem, fun heq => by cases heq⟩
  | @destroy t j rest hexiting hnone hhandlers =>
      have hperm : (rest ++ [j] ++ s.deleted).Perm s.books := by
        rw [books, hnone, hhandlers, Option.toList_none, List.append_nil]
        exact ((List.perm_append_singleton j rest).append_right s.deleted)
      refine ⟨hperm.nodup_iff.mpr h.nodup, fun i => hperm.mem_iff.trans (h.mem i), fun heq => ?_⟩
      rw [hexiting] at heq
      cases heq
  | @destroyed t j hexiting hdestroying =>
      have hperm : (s.handlers ++ [] ++ (s.deleted ++ [j])).Perm s.books := by
        rw [books, hdestroying, List.append_nil, List.append_assoc]
        exact List.perm_append_comm.append_left s.handlers
      refine ⟨hperm.nodup_iff.mpr h.nodup, fun i => hperm.mem_iff.trans (h.mem i), fun heq => ?_⟩
      rw [hexiting] at heq
      cases heq
  | call _ _ | returned _ _ _ _ => exact ⟨h.nodup, h.mem, h.live⟩

/-! ## Before what it has used -/

/-- Until `exit()` all that has been used is in the handlers; and what was
registered by then comes there before what its constructor has used. -/
structure Ordered (s : Singletons Tid ι) : Prop where
  registered : ∀ i ∈ s.registered, i ∈ s.books
  live : s.exiting = none → ∀ e ∈ s.used, e.2 ∈ s.handlers
  order : ∀ e ∈ s.used, e.1 ∈ s.registered → e.1 ∈ s.handlers →
    List.Sublist [e.1, e.2] s.handlers
  destroying : ∀ e ∈ s.used, e.1 ∈ s.registered → s.destroying = some e.1 → e.2 ∈ s.handlers

theorem Ordered.step (h : Ordered s) (ho : Owned s) (hb : Booked s) (m : Move P s a s') :
    Ordered s' := by
  cases m with
  | @returned t j v used hw hponce hv hused =>
      rcases hused with rfl | ⟨i, hexiting, hi, rfl⟩
      · exact ⟨h.registered, h.live, h.order, h.destroying⟩
      · -- What the constructor has got is complete, and nothing has been destroyed.
        have hj : j ∈ s.handlers := by
          obtain ⟨hnone, hdeleted⟩ := hb.live hexiting
          have hbook := (hb.mem j).mpr (Or.inl hponce)
          rw [books, hnone, hdeleted, Option.toList_none, List.append_nil,
            List.append_nil] at hbook
          exact hbook
        have hnot : i ∉ s.registered := by
          intro hreg
          rcases (hb.mem i).mp (h.registered i hreg) with hdone | ⟨u, hu⟩
          · have hrunning := ho.running hi
            rw [show s.ponce (Init.construct i).singleton = .done from hdone] at hrunning
            cases hrunning
          · cases ho.frame_eq hi hu rfl
        have hcases : ∀ e ∈ s.used ++ [(i, j)], e ∈ s.used ∨ e = (i, j) := fun e he =>
          (List.mem_append.mp he).imp_right List.mem_singleton.mp
        refine ⟨h.registered, fun hexit e he => ?_, fun e he hreg => ?_, fun e he hreg => ?_⟩
        · rcases hcases e he with he | rfl
          · exact h.live hexit e he
          · exact hj
        · rcases hcases e he with he | rfl
          · exact h.order e he hreg
          · exact absurd hreg hnot
        · rcases hcases e he with he | rfl
          · exact h.destroying e he hreg
          · exact absurd hreg hnot
  | @atexit t j rest hstack =>
      have hnot := hb.register ho (t := t) (hstack ▸ List.mem_cons_self)
      have hreg : ∀ i, i ∈ (if s.exiting.isNone then s.registered ++ [j] else s.registered) →
          i ∈ s.registered ∨ (i = j ∧ s.exiting = none) := by
        intro i hi
        split at hi
        · rename_i hnone
          rcases List.mem_append.mp hi with hi | hi
          · exact Or.inl hi
          · exact Or.inr ⟨List.mem_singleton.mp hi, Option.isNone_iff_eq_none.mp hnone⟩
        · exact Or.inl hi
      constructor
      · intro i hi
        rcases hreg i hi with hi | ⟨rfl, -⟩
        · exact List.mem_cons_of_mem j (h.registered i hi)
        · exact List.mem_cons_self
      · exact fun hnone e he => List.mem_cons_of_mem j (h.live hnone e he)
      · intro e he hi hhandlers
        rcases hreg e.1 hi with hi | ⟨heq, hnone⟩
        · have hne : e.1 ≠ j := fun heq => hnot (heq ▸ h.registered e.1 hi)
          exact (h.order e he hi ((List.mem_cons.mp hhandlers).resolve_left hne)).cons j
        · change List.Sublist [e.1, e.2] (j :: s.handlers)
          rw [heq]
          exact List.cons_sublist_cons.mpr (List.singleton_sublist.mpr (h.live hnone e he))
      · intro e he hi hdestroying
        rcases hreg e.1 hi with hi | ⟨heq, -⟩
        · exact List.mem_cons_of_mem j (h.destroying e he hi hdestroying)
        · refine absurd ?_ hnot
          rw [books, show s.destroying = some e.1 from hdestroying, heq]
          simp
  | @destroy t j rest hexiting hnone hhandlers =>
      have hnodup := hb.nodup
      rw [books, hnone, hhandlers, Option.toList_none, List.append_nil, List.cons_append,
        List.nodup_cons] at hnodup
      constructor
      · intro i hi
        have hbook := h.registered i hi
        rw [books, hnone, hhandlers] at hbook
        rw [books]
        simp only [List.mem_append, List.mem_cons, Option.toList_none,
          Option.toList_some] at hbook ⊢
        tauto
      · intro heq
        rw [show s.exiting = some t from hexiting] at heq
        cases heq
      · intro e he hi hrest
        have hsub := h.order e he hi (by rw [hhandlers]; exact List.mem_cons_of_mem j hrest)
        rw [hhandlers] at hsub
        cases hsub with
        | cons _ hsub => exact hsub
        | cons_cons _ _ => exact absurd (List.mem_append_left _ hrest) hnodup.1
      · intro e he hi hdestroying
        obtain rfl : j = e.1 := Option.some.inj hdestroying
        have hsub := h.order e he hi (by rw [hhandlers]; exact List.mem_cons_self)
        rw [hhandlers] at hsub
        exact List.singleton_sublist.mp (List.cons_sublist_cons.mp hsub)
  | @destroyed t j hexiting hdestroying =>
      refine ⟨fun i hi => ?_, fun heq => ?_, h.order, fun e _ _ heq => by cases heq⟩
      · have hbook := h.registered i hi
        rw [books, hdestroying] at hbook
        rw [books]
        simp only [List.mem_append, Option.toList_none, Option.toList_some] at hbook ⊢
        tauto
      · rw [show s.exiting = some t from hexiting] at heq
        cases heq
  | exit _ => exact ⟨h.registered, (fun heq => by cases heq), h.order, h.destroying⟩
  | call _ _ | first _ _ | constructed _ | finished _ =>
      exact ⟨h.registered, h.live, h.order, h.destroying⟩

end Singletons

end Muduo
