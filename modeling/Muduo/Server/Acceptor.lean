import Mathlib.Logic.Function.Basic
import Mathlib.Data.List.Count
import Muduo.Lib.Lts

/-!
# `Acceptor`

`handleRead`, system call by system call, in a process whose descriptor table
has `limit` slots. Between any two calls other threads may open descriptors,
each the lowest that is free, and close their own. When `accept` finds the
table full, `handleRead` closes the descriptor it keeps in reserve, accepts
and closes the connection in its place, and opens the reserve again; none of
these calls is checked.

Every connection is disposed of once and only owned descriptors are closed,
whatever the others do (`Inv`). The reserve comes back if the last call finds
a free slot (`reserve_survives`), and it need not: `reserve_lost`.

The numbers of the connections and the two lists of them are a record for the
theorems and not in the code.
-/

namespace Muduo

open Lib

namespace Acceptor

/-- `errno` after a failed `accept`: those `sockets::accept` names. -/
inductive Errno where
  | EAGAIN | ECONNABORTED | EINTR | EPROTO | EPERM | EMFILE
  | EBADF | EFAULT | EINVAL | ENFILE | ENOBUFS | ENOMEM | ENOTSOCK | EOPNOTSUPP
  | unknown
deriving DecidableEq, Repr

/-- The errors `sockets::accept` expects; at the others it logs and aborts. -/
def Errno.isExpected : Errno → Bool
  | EAGAIN | ECONNABORTED | EINTR | EPROTO | EPERM | EMFILE => true
  | EBADF | EFAULT | EINVAL | ENFILE | ENOBUFS | ENOMEM | ENOTSOCK | EOPNOTSUPP => false
  | unknown => false

/-- What an open descriptor is: the acceptor's reserve; the `n`th connection
accepted, in the acceptor's hands or passed to the callback; something else. -/
inductive Owner where
  | reserve
  | accepted (n : Nat)
  | passed (n : Nat)
  | other
deriving DecidableEq, Repr

/-- Is it the acceptor's? -/
def Owner.isOwn : Owner → Bool
  | reserve => true
  | accepted _ => true
  | passed _ => false
  | other => false

/-- The connection the acceptor has it for. -/
def Owner.connection : Owner → Option Nat
  | reserve => none
  | accepted n => some n
  | passed _ => none
  | other => none

/-- Where the loop's thread is: not in `handleRead()`; in `accept`; past it,
with a connection; past it, with `EMFILE`; and at the three calls after
`::close(idleFd_)`. -/
inductive Place where
  | idle
  | accepting
  | got (connfd : Int)
  | closing | acceptingAgain | closingAgain | reopening
deriving DecidableEq, Repr

/-- Is `idleFd_` the reserve there? -/
def Place.keeps : Place → Bool
  | idle | accepting | got _ | closing => true
  | acceptingAgain | closingAgain | reopening => false

/-- `LOG_FATAL` -/
inductive Fault where
  | fatal
deriving DecidableEq, Repr

inductive Event where
  | setNewConnectionCallback (set : Bool)
  | handleRead
  /-- `accept` returns: a connection, or an error. -/
  | accept (result : Option Errno)
  /-- One of the other calls of `handleRead()`. -/
  | step
  /-- Other threads. -/
  | otherOpen
  | otherClose (fd : Int)
deriving DecidableEq, Repr

end Acceptor

open Acceptor in
/-- `slot` is the process's descriptor table. -/
structure Acceptor where
  slot : Int → Option Owner
  idleFd_ : Int
  /-- Has `newConnectionCallback_` been set? -/
  newConnectionCallback_ : Bool
  place : Place
  /-- The number of connections accepted. -/
  accepted : Nat
  passed : List Nat
  closed : List Nat

namespace Acceptor

def setSlot (s : Acceptor) (fd : Int) (o : Option Owner) : Acceptor :=
  { s with slot := Function.update s.slot fd o }

/-- The descriptor the kernel gives out next. -/
def lowestFree (limit : Nat) (s : Acceptor) : Option Nat :=
  (List.range limit).find? fun fd => (s.slot fd).isNone

/-- `::close(fd)`; on a descriptor that is not open it fails, unnoticed. -/
def close (s : Acceptor) (fd : Int) : Acceptor :=
  match s.slot fd with
  | none => s
  | some o => { s.setSlot fd none with closed := s.closed ++ o.connection.toList }

/-- `newConnectionCallback_(connfd, peerAddr)`: the descriptor is the
callback's from now on. -/
def pass (s : Acceptor) (connfd : Int) : Acceptor :=
  match s.slot connfd with
  | some (.accepted n) =>
      { s.setSlot connfd (some (.passed n)) with passed := s.passed ++ [n] }
  | _ => s

/-- The kernel puts a connection into a descriptor. -/
def take (s : Acceptor) (fd : Int) : Acceptor :=
  { s.setSlot fd (some (.accepted s.accepted)) with accepted := s.accepted + 1 }

/-- `acceptSocket_.accept(&peerAddr)`, and which way `handleRead()` goes. -/
def acceptFirst (limit : Nat) (s : Acceptor) : Option Errno → Except Fault Acceptor
  | none =>
      match s.lowestFree limit with
      | some fd => .ok { s.take fd with place := .got fd }
      | none => .ok s
  | some e =>
      if e.isExpected then
        .ok { s with place := if e = .EMFILE then .closing else .idle }
      else .error .fatal

/-- `idleFd_ = ::accept(acceptSocket_.fd(), NULL, NULL)` -/
def acceptAgain (limit : Nat) (s : Acceptor) : Option Errno → Acceptor
  | none =>
      match s.lowestFree limit with
      | some fd => { s.take fd with idleFd_ := fd, place := .closingAgain }
      | none => s
  | some _ => { s with idleFd_ := -1, place := .closingAgain }

/-- `idleFd_ = ::open("/dev/null", O_RDONLY | O_CLOEXEC)` -/
def reopen (limit : Nat) (s : Acceptor) : Acceptor :=
  match s.lowestFree limit with
  | some fd => { s.setSlot fd (some .reserve) with idleFd_ := fd, place := .idle }
  | none => { s with idleFd_ := -1, place := .idle }

/-- The call `handleRead()` is at, if it is not `accept`. -/
def step (limit : Nat) (s : Acceptor) : Acceptor :=
  match s.place with
  | .got connfd =>
      if s.newConnectionCallback_ then { s.pass connfd with place := .idle }
      else { s.close connfd with place := .idle }
  | .closing => { s.close s.idleFd_ with place := .acceptingAgain }
  | .closingAgain => { s.close s.idleFd_ with place := .reopening }
  | .reopening => s.reopen limit
  | .idle | .accepting | .acceptingAgain => s

def next (limit : Nat) (s : Acceptor) : Event → Except Fault Acceptor
  | .setNewConnectionCallback set => .ok { s with newConnectionCallback_ := set }
  | .handleRead => .ok { s with place := .accepting }
  | .accept result =>
      if s.place = .accepting then s.acceptFirst limit result
      else .ok (s.acceptAgain limit result)
  | .step => .ok (s.step limit)
  | .otherOpen =>
      match s.lowestFree limit with
      | some fd => .ok (s.setSlot fd (some .other))
      | none => .ok s
  | .otherClose fd => .ok (s.setSlot fd none)

/-- A connection takes a free slot; `EMFILE` means that there is none. Others
close what is theirs, connections passed to the callback included. -/
def enabled (limit : Nat) (s : Acceptor) : Event → Bool
  | .setNewConnectionCallback _ => true
  | .handleRead => s.place = .idle
  | .accept result =>
      (s.place = .accepting || s.place = .acceptingAgain) &&
        match result with
        | none => (s.lowestFree limit).isSome
        | some e => e ≠ .EMFILE || (s.lowestFree limit).isNone
  | .step =>
      match s.place with
      | .got _ | .closing | .closingAgain | .reopening => true
      | .idle | .accepting | .acceptingAgain => false
  | .otherOpen => (s.lowestFree limit).isSome
  | .otherClose fd => (s.slot fd).any fun o => !o.isOwn

/-- After the constructor, whose assertion has held. -/
structure Constructed (limit : Nat) (s : Acceptor) : Prop where
  negative : ∀ fd < 0, s.slot fd = none
  range : 0 ≤ s.idleFd_ ∧ s.idleFd_ < limit
  own : ∀ fd o, s.slot fd = some o → o.isOwn = true → fd = s.idleFd_ ∧ o = .reserve
  reserve : s.slot s.idleFd_ = some .reserve
  place : s.place = .idle
  accepted : s.accepted = 0
  passed : s.passed = []
  closed : s.closed = []

/-- An acceptor, and threads that share its table. -/
def acceptor (limit : Nat) : Lts Acceptor Event Fault where
  init := Constructed limit
  enabled s a := s.enabled limit a = true
  next := next limit

instance (limit : Nat) (s : Acceptor) (a : Event) : Decidable ((acceptor limit).enabled s a) :=
  inferInstanceAs (Decidable (_ = true))

/-! ## What the acceptor owns -/

/-- The descriptor of a connection on its way: `connfd`, or `idleFd_`. -/
def inHand (s : Acceptor) : Option Int :=
  match s.place with
  | .got connfd => some connfd
  | .closingAgain => some s.idleFd_
  | _ => none

/-- The connection on its way. -/
def held (s : Acceptor) : Option Nat := (s.inHand.bind s.slot).bind Owner.connection

/-- The table against `idleFd_` and `connfd`, and every connection passed on,
closed or on its way, once. -/
structure Inv (limit : Nat) (s : Acceptor) : Prop where
  negative : ∀ fd < 0, s.slot fd = none
  reserve : ∀ fd, s.slot fd = some .reserve → fd = s.idleFd_ ∧ s.place.keeps = true
  kept : s.place.keeps = true → 0 ≤ s.idleFd_ →
    s.slot s.idleFd_ = some .reserve ∧ s.idleFd_ < limit
  connection : ∀ fd n, s.slot fd = some (.accepted n) → s.inHand = some fd
  hand : ∀ fd, s.inHand = some fd → 0 ≤ fd → ∃ n, s.slot fd = some (.accepted n)
  got : ∀ fd, s.place = .got fd → 0 ≤ fd
  account : ∀ n, s.passed.count n + s.closed.count n + (if s.held = some n then 1 else 0) =
    if n < s.accepted then 1 else 0

variable {limit : Nat} {s s' : Acceptor} {fd : Int}

@[simp] theorem setSlot_passed (o : Option Owner) : (s.setSlot fd o).passed = s.passed := rfl

@[simp] theorem setSlot_closed (o : Option Owner) : (s.setSlot fd o).closed = s.closed := rfl

theorem slot_setSlot_self (o : Option Owner) : (s.setSlot fd o).slot fd = o :=
  Function.update_self ..

theorem slot_setSlot_ne {fd' : Int} (h : fd' ≠ fd) (o : Option Owner) :
    (s.setSlot fd o).slot fd' = s.slot fd' := Function.update_of_ne h ..

/-- What a slot holds after a change is what was put there, or was there. -/
theorem of_slot_setSlot {fd' : Int} {o : Option Owner} {x : Owner}
    (h : (s.setSlot fd o).slot fd' = some x) :
    fd' = fd ∧ o = some x ∨ fd' ≠ fd ∧ s.slot fd' = some x := by
  by_cases hne : fd' = fd
  · subst hne
    rw [slot_setSlot_self] at h
    exact Or.inl ⟨rfl, h⟩
  · rw [slot_setSlot_ne hne] at h
    exact Or.inr ⟨hne, h⟩

/-- What is not in the changed slot stays. -/
theorem slot_setSlot_of {fd' : Int} (o : Option Owner) {x : Owner} (h : s.slot fd' = some x)
    (hfd : s.slot fd ≠ some x) : (s.setSlot fd o).slot fd' = some x := by
  rw [slot_setSlot_ne]
  · exact h
  · rintro rfl
    exact hfd h

theorem negative_setSlot (h : ∀ fd < 0, s.slot fd = none) (hfd : 0 ≤ fd) (o : Option Owner) :
    ∀ fd' < 0, (s.setSlot fd o).slot fd' = none := by
  intro fd' hfd'
  rw [slot_setSlot_ne (show fd' ≠ fd by omega)]
  exact h fd' hfd'

theorem of_lowestFree {fd : Nat} (h : s.lowestFree limit = some fd) :
    s.slot fd = none ∧ fd < limit := by
  have hfree := List.find?_some h
  exact ⟨Option.isNone_iff_eq_none.mp hfree, List.mem_range.mp (List.mem_of_find?_eq_some h)⟩

/-- The connection on its way is the one the table has for the acceptor. -/
theorem Inv.held_iff (h : s.Inv limit) {n : Nat} :
    s.held = some n ↔ ∃ fd, s.slot fd = some (.accepted n) := by
  constructor
  · intro hheld
    obtain ⟨o, ho, hn⟩ := Option.bind_eq_some_iff.mp hheld
    obtain ⟨fd, -, hslot⟩ := Option.bind_eq_some_iff.mp ho
    refine ⟨fd, hslot.trans ?_⟩
    cases o <;> cases hn
    rfl
  · rintro ⟨fd, hslot⟩
    rw [held, h.connection fd n hslot, Option.bind_some, hslot]
    rfl

/-- What does not touch the acceptor's own slots keeps the invariant. -/
theorem Inv.others (h : s.Inv limit) (hplace : s'.place = s.place) (hidle : s'.idleFd_ = s.idleFd_)
    (hrecord : s'.accepted = s.accepted ∧ s'.passed = s.passed ∧ s'.closed = s.closed)
    (hneg : ∀ fd < 0, s'.slot fd = none)
    (hown : ∀ fd o, o.isOwn = true → (s'.slot fd = some o ↔ s.slot fd = some o)) :
    s'.Inv limit := by
  have hin : s'.inHand = s.inHand := by simp only [inHand, hplace, hidle]
  have hconn : ∀ fd n, s'.slot fd = some (.accepted n) → s'.inHand = some fd := fun fd n hs =>
    hin.trans (h.connection fd n ((hown fd _ rfl).mp hs))
  constructor
  case negative => exact hneg
  case reserve =>
    intro fd hs
    rw [hidle, hplace]
    exact h.reserve fd ((hown fd _ rfl).mp hs)
  case kept =>
    rw [hidle, hplace, hown _ _ rfl]
    exact h.kept
  case connection => exact hconn
  case hand =>
    intro fd hs hfd
    obtain ⟨n, hn⟩ := h.hand fd (hin.symm.trans hs) hfd
    exact ⟨n, (hown fd _ rfl).mpr hn⟩
  case got =>
    rw [hplace]
    exact h.got
  case account =>
    intro n
    have hheld : s'.held = some n ↔ s.held = some n := by
      rw [h.held_iff]
      constructor
      · intro hs
        obtain ⟨o, ho, hn⟩ := Option.bind_eq_some_iff.mp hs
        obtain ⟨fd, -, hslot⟩ := Option.bind_eq_some_iff.mp ho
        cases o <;> cases hn
        exact ⟨fd, (hown fd _ rfl).mp hslot⟩
      · rintro ⟨fd, hs⟩
        rw [held, hconn fd n ((hown fd _ rfl).mpr hs), Option.bind_some, (hown fd _ rfl).mpr hs]
        rfl
    simp only [hheld, hrecord.1, hrecord.2.1, hrecord.2.2]
    exact h.account n

/-! ## Moves -/

variable {place : Place}

/-- No connection is in a descriptor on its way. -/
def EmptyHanded (s : Acceptor) : Prop := ∀ fd, s.inHand = some fd → fd < 0

theorem emptyHanded_of_none (h : s.inHand = none) : s.EmptyHanded := by
  intro fd hfd
  rw [h] at hfd
  cases hfd

theorem held_of_emptyHanded (hneg : ∀ fd < 0, s.slot fd = none) (hin : s.EmptyHanded) :
    s.held = none := by
  unfold held
  cases hhand : s.inHand with
  | none => rfl
  | some fd =>
      rw [Option.bind_some, hneg fd (hin fd hhand)]
      rfl

theorem Inv.not_accepted (h : s.Inv limit) (hin : s.EmptyHanded) (fd : Int) (n : Nat) :
    s.slot fd ≠ some (.accepted n) := by
  intro hslot
  have hheld := h.held_iff.mpr ⟨fd, hslot⟩
  rw [held_of_emptyHanded h.negative hin] at hheld
  cases hheld

/-- Nothing is on its way before and after: only the reserve is in question. -/
theorem Inv.goOn (h : s.Inv limit) (hin : s.EmptyHanded) {slot : Int → Option Owner} {idle : Int}
    (hneg : ∀ fd < 0, slot fd = none)
    (hslot : ∀ fd n, slot fd = some (.accepted n) → s.slot fd = some (.accepted n))
    (hres : ∀ fd, slot fd = some .reserve → fd = idle ∧ place.keeps = true)
    (hkept : place.keeps = true → 0 ≤ idle → slot idle = some .reserve ∧ idle < limit)
    (hin' : ({ s with slot := slot, idleFd_ := idle, place := place } : Acceptor).EmptyHanded)
    (hgot : ∀ fd, place ≠ .got fd) :
    Inv limit { s with slot := slot, idleFd_ := idle, place := place } where
  negative := hneg
  reserve := hres
  kept := hkept
  connection fd n hs := absurd (hslot fd n hs) (h.not_accepted hin fd n)
  hand fd hs hfd := absurd (hin' fd hs) (Int.not_lt.mpr hfd)
  got fd hs := absurd hs (hgot fd)
  account n := by
    rw [held_of_emptyHanded hneg hin', ← h.account n, held_of_emptyHanded h.negative hin]

/-- A connection is accepted into a free slot. -/
theorem Inv.take (h : s.Inv limit) (hin : s.inHand = none) {fd : Nat}
    (hfree : s.slot fd = none) {idle : Int} (hk : place.keeps = s.place.keeps)
    (hidle : idle = s.idleFd_ ∨ place.keeps = false)
    (hin' : ({ s.take fd with idleFd_ := idle, place := place } : Acceptor).inHand = some (fd : Int)) :
    Inv limit { s.take fd with idleFd_ := idle, place := place } := by
  have hself : (s.take fd).slot fd = some (.accepted s.accepted) := slot_setSlot_self _
  have hempty := emptyHanded_of_none hin
  constructor
  case negative => exact negative_setSlot h.negative (Int.natCast_nonneg fd) _
  case reserve =>
    intro fd' hs
    rcases of_slot_setSlot hs with ⟨-, hnew⟩ | ⟨-, hs⟩
    · cases hnew
    · obtain ⟨hfd', hkeeps⟩ := h.reserve fd' hs
      rw [← hk] at hkeeps
      rcases hidle with rfl | hnot
      · exact ⟨hfd', hkeeps⟩
      · rw [hkeeps] at hnot
        cases hnot
  case kept =>
    intro hkeeps hpos
    rcases hidle with rfl | hnot
    · obtain ⟨hres, hlt⟩ := h.kept (hk.symm.trans hkeeps) hpos
      refine ⟨slot_setSlot_of _ hres ?_, hlt⟩
      rw [hfree]
      intro hs
      cases hs
    · rw [hkeeps] at hnot
      cases hnot
  case connection =>
    intro fd' n hs
    rcases of_slot_setSlot hs with ⟨rfl, -⟩ | ⟨-, hs⟩
    · exact hin'
    · exact absurd hs (h.not_accepted hempty fd' n)
  case hand =>
    intro fd' hs _
    obtain rfl := Option.some.inj (hin'.symm.trans hs)
    exact ⟨_, hself⟩
  case got =>
    intro fd' hs
    have hhand : ({ s.take fd with idleFd_ := idle, place := place } : Acceptor).inHand =
        some fd' := by
      simp only at hs
      simp only [inHand, hs]
    obtain rfl := Option.some.inj (hin'.symm.trans hhand)
    exact Int.natCast_nonneg fd
  case account =>
    intro n
    have hheld : ({ s.take fd with idleFd_ := idle, place := place } : Acceptor).held =
        some s.accepted := by
      rw [held, hin', Option.bind_some, hself]
      rfl
    have hold := h.account n
    rw [held_of_emptyHanded h.negative hempty] at hold
    rw [hheld]
    show s.passed.count n + s.closed.count n + (if some s.accepted = some n then 1 else 0) =
      if n < s.accepted + 1 then 1 else 0
    simp only [Option.some.injEq]
    simp only [reduceCtorEq, if_false, Nat.add_zero] at hold
    split <;> split <;> split at hold <;> omega

/-- The connection on its way is passed on or closed. -/
theorem Inv.dispose (h : s.Inv limit) (hin : s.inHand = some fd) {n : Nat}
    (hslot : s.slot fd = some (.accepted n)) {o : Option Owner}
    (ho : ∀ x, o = some x → x.isOwn = false) {passed closed : List Nat}
    (hcount : ∀ m, passed.count m + closed.count m =
      s.passed.count m + s.closed.count m + if n = m then 1 else 0)
    (hk : place.keeps = s.place.keeps)
    (hin' : ({ s with place := place } : Acceptor).inHand = none) :
    Inv limit { s.setSlot fd o with place := place, passed := passed, closed := closed } := by
  have hpos : 0 ≤ fd := by
    by_contra hneg
    rw [h.negative fd (Int.not_le.mp hneg)] at hslot
    cases hslot
  have hneg := negative_setSlot h.negative hpos o
  have hempty : EmptyHanded
      { s.setSlot fd o with place := place, passed := passed, closed := closed } :=
    emptyHanded_of_none hin'
  constructor
  case negative => exact hneg
  case reserve =>
    intro fd' hs
    rcases of_slot_setSlot hs with ⟨-, hnew⟩ | ⟨-, hs⟩
    · cases ho _ hnew
    · rw [hk]
      exact h.reserve fd' hs
  case kept =>
    intro hkeeps hidle
    obtain ⟨hres, hlt⟩ := h.kept (hk.symm.trans hkeeps) hidle
    refine ⟨slot_setSlot_of _ hres ?_, hlt⟩
    rw [hslot]
    intro hs
    cases hs
  case connection =>
    intro fd' m hs
    rcases of_slot_setSlot hs with ⟨-, hnew⟩ | ⟨hne, hs⟩
    · cases ho _ hnew
    · have hboth := hin.symm.trans (h.connection fd' m hs)
      exact absurd (Option.some.inj hboth).symm hne
  case hand => exact fun fd' hs hfd' => absurd (hempty fd' hs) (Int.not_lt.mpr hfd')
  case got =>
    intro fd' hs
    have hhand : ({ s with place := place } : Acceptor).inHand = some fd' := by
      simp only at hs
      simp only [inHand, hs]
    cases hin'.symm.trans hhand
  case account =>
    intro m
    have hheld : s.held = some n := h.held_iff.mpr ⟨fd, hslot⟩
    have hnone : held
        { s.setSlot fd o with place := place, passed := passed, closed := closed } = none :=
      held_of_emptyHanded hneg hempty
    have hold := h.account m
    rw [hnone]
    rw [hheld] at hold
    show passed.count m + closed.count m + (if none = some m then 1 else 0) =
      if m < s.accepted then 1 else 0
    rw [hcount m, ← hold]
    simp only [Option.some.injEq, reduceCtorEq, if_false, Nat.add_zero]

/-! ## The steps -/

theorem close_accepted {n : Nat} (hslot : s.slot fd = some (.accepted n)) :
    s.close fd = { s.setSlot fd none with closed := s.closed ++ [n] } := by
  unfold close
  rw [hslot]
  rfl

theorem close_unopened (hslot : s.slot fd = none) : s.close fd = s := by
  unfold close
  rw [hslot]

theorem Inv.acceptFirst (h : s.Inv limit) (hplace : s.place = .accepting) {result : Option Errno}
    (hn : s.acceptFirst limit result = .ok s') : s'.Inv limit := by
  have hin : s.inHand = none := by rw [inHand, hplace]
  cases result with
  | none =>
      simp only [Acceptor.acceptFirst] at hn
      split at hn
      · rename_i fd hfree
        cases hn
        have hkeeps : (Place.got fd).keeps = s.place.keeps := by
          rw [hplace]
          rfl
        exact h.take hin (of_lowestFree hfree).1 hkeeps (Or.inl rfl) rfl
      · cases hn
        exact h
  | some e =>
      have hgo : ∀ place : Place, place = .closing ∨ place = .idle →
          Inv limit { s with place := place } := by
        intro place hp
        have hin' : ({ s with place := place } : Acceptor).inHand = none := by
          rcases hp with rfl | rfl <;> rfl
        have hk : place.keeps = true := by rcases hp with rfl | rfl <;> rfl
        refine h.goOn (emptyHanded_of_none hin) h.negative (fun _ _ => id) (fun fd hs => ?_)
          (fun _ => h.kept (by rw [hplace]; rfl)) (emptyHanded_of_none hin') ?_
        · exact ⟨(h.reserve fd hs).1, hk⟩
        · rintro fd rfl
          rcases hp with hp | hp <;> cases hp
      simp only [Acceptor.acceptFirst] at hn
      split at hn
      · cases hn
        refine hgo _ ?_
        split
        · exact Or.inl rfl
        · exact Or.inr rfl
      · cases hn

theorem Inv.acceptAgain (h : s.Inv limit) (hplace : s.place = .acceptingAgain)
    (result : Option Errno) : (s.acceptAgain limit result).Inv limit := by
  have hin : s.inHand = none := by rw [inHand, hplace]
  have hk : s.place.keeps = false := by rw [hplace]; rfl
  cases result with
  | none =>
      simp only [Acceptor.acceptAgain]
      split
      · rename_i fd hfree
        exact h.take hin (of_lowestFree hfree).1 hk.symm (Or.inr rfl) rfl
      · exact h
  | some e =>
      refine h.goOn (emptyHanded_of_none hin) h.negative (fun _ _ => id) (fun fd hs => ?_)
        (fun hkeeps => by cases hkeeps) ?_ (fun fd hgot => by cases hgot)
      · have hkeeps := (h.reserve fd hs).2
        rw [hk] at hkeeps
        cases hkeeps
      · intro fd hfd
        obtain rfl := Option.some.inj hfd
        exact Int.negSucc_lt_zero 0

/-- The reserve is closed, if there is one. -/
theorem Inv.closing (h : s.Inv limit) (hplace : s.place = .closing) :
    Inv limit { s.close s.idleFd_ with place := .acceptingAgain } := by
  have hempty : s.EmptyHanded := emptyHanded_of_none (by rw [inHand, hplace])
  by_cases hpos : 0 ≤ s.idleFd_
  · obtain ⟨hres, -⟩ := h.kept (by rw [hplace]; rfl) hpos
    have hclose : s.close s.idleFd_ = s.setSlot s.idleFd_ none := by
      unfold close
      rw [hres]
      simp only [setSlot, Owner.connection, Option.toList_none, List.append_nil]
    have hslot : ∀ fd o, (s.setSlot s.idleFd_ none).slot fd = some o →
        fd ≠ s.idleFd_ ∧ s.slot fd = some o := by
      intro fd o hs
      rcases of_slot_setSlot hs with ⟨-, hnew⟩ | hold
      · cases hnew
      · exact hold
    rw [hclose]
    refine h.goOn hempty (negative_setSlot h.negative hpos _) (fun fd n hs => (hslot fd _ hs).2)
      (fun fd hs => ?_) (fun hkeeps => by cases hkeeps) (emptyHanded_of_none rfl)
      (fun fd hgot => by cases hgot)
    obtain ⟨hne, hs⟩ := hslot fd _ hs
    exact absurd (h.reserve fd hs).1 hne
  · have hnone := h.negative _ (Int.not_le.mp hpos)
    rw [close_unopened hnone]
    refine h.goOn hempty h.negative (fun _ _ => id) (fun fd hs => ?_)
      (fun hkeeps => by cases hkeeps) (emptyHanded_of_none rfl) (fun fd hgot => by cases hgot)
    rw [(h.reserve fd hs).1, hnone] at hs
    cases hs

theorem Inv.got_step (h : s.Inv limit) {connfd : Int} (hplace : s.place = .got connfd) :
    Inv limit (if s.newConnectionCallback_ then { s.pass connfd with place := .idle }
      else { s.close connfd with place := .idle }) := by
  have hin : s.inHand = some connfd := by rw [inHand, hplace]
  obtain ⟨n, hslot⟩ := h.hand connfd hin (h.got connfd hplace)
  have hk : Place.idle.keeps = s.place.keeps := by rw [hplace]; rfl
  split
  · have hpass : s.pass connfd =
        { s.setSlot connfd (some (.passed n)) with passed := s.passed ++ [n] } := by
      unfold pass
      rw [hslot]
    rw [hpass]
    refine h.dispose hin hslot (fun x hx => by cases hx; rfl) (fun m => ?_) hk rfl
    rw [List.count_append, List.count_singleton]
    simp only [beq_iff_eq, setSlot_closed]
    omega
  · rw [close_accepted hslot]
    refine h.dispose hin hslot (fun x hx => by cases hx) (fun m => ?_) hk rfl
    rw [List.count_append, List.count_singleton]
    simp only [beq_iff_eq, setSlot_passed]
    omega

theorem Inv.closingAgain (h : s.Inv limit) (hplace : s.place = .closingAgain) :
    Inv limit { s.close s.idleFd_ with place := .reopening } := by
  have hin : s.inHand = some s.idleFd_ := by rw [inHand, hplace]
  have hk : Place.reopening.keeps = s.place.keeps := by rw [hplace]; rfl
  by_cases hpos : 0 ≤ s.idleFd_
  · obtain ⟨n, hslot⟩ := h.hand _ hin hpos
    rw [close_accepted hslot]
    refine h.dispose hin hslot (fun x hx => by cases hx) (fun m => ?_) hk rfl
    rw [List.count_append, List.count_singleton]
    simp only [beq_iff_eq, setSlot_passed]
    omega
  · have hempty : s.EmptyHanded := by
      intro fd hfd
      obtain rfl := Option.some.inj (hin.symm.trans hfd)
      exact Int.not_le.mp hpos
    rw [close_unopened (h.negative _ (Int.not_le.mp hpos))]
    refine h.goOn hempty h.negative (fun _ _ => id) (fun fd hs => ?_)
      (fun hkeeps => by cases hkeeps) (emptyHanded_of_none rfl) (fun fd hgot => by cases hgot)
    have hkeeps := (h.reserve fd hs).2
    rw [← hk] at hkeeps
    cases hkeeps

/-- The reserve is opened, or there is no slot for it. -/
theorem Inv.reopen (h : s.Inv limit) (hplace : s.place = .reopening) :
    (s.reopen limit).Inv limit := by
  have hempty : s.EmptyHanded := emptyHanded_of_none (by rw [inHand, hplace])
  have hnone : ∀ fd, s.slot fd ≠ some .reserve := by
    intro fd hs
    have hkeeps := (h.reserve fd hs).2
    rw [hplace] at hkeeps
    cases hkeeps
  unfold Acceptor.reopen
  split
  · rename_i fd hfree
    refine h.goOn hempty (negative_setSlot h.negative (Int.natCast_nonneg fd) _)
      (fun fd' n hs => ?_) (fun fd' hs => ?_) (fun _ _ => ⟨slot_setSlot_self _, ?_⟩)
      (emptyHanded_of_none rfl) (fun fd hgot => by cases hgot)
    · rcases of_slot_setSlot hs with ⟨-, hnew⟩ | ⟨-, hold⟩
      · cases hnew
      · exact hold
    · rcases of_slot_setSlot hs with ⟨rfl, -⟩ | ⟨-, hold⟩
      · exact ⟨rfl, rfl⟩
      · exact absurd hold (hnone fd')
    · exact Int.ofNat_lt.mpr (of_lowestFree hfree).2
  · refine h.goOn hempty h.negative (fun _ _ => id) (fun fd hs => absurd hs (hnone fd))
      (fun _ hpos => by cases hpos) (emptyHanded_of_none rfl) (fun fd hgot => by cases hgot)

theorem Inv.step (h : s.Inv limit) : (s.step limit).Inv limit := by
  unfold Acceptor.step
  split
  · rename_i connfd hplace
    exact h.got_step hplace
  · rename_i hplace
    exact h.closing hplace
  · rename_i hplace
    exact h.closingAgain hplace
  · rename_i hplace
    exact h.reopen hplace
  · exact h
  · exact h
  · exact h

theorem inv_constructed (h : s.Constructed limit) : s.Inv limit := by
  have hempty : s.EmptyHanded := emptyHanded_of_none (by rw [inHand, h.place])
  refine ⟨h.negative, fun fd hs => ?_, fun _ _ => ⟨h.reserve, h.range.2⟩, fun fd n hs => ?_,
    fun fd hs hfd => absurd (hempty fd hs) (Int.not_lt.mpr hfd), fun fd hs => ?_, fun n => ?_⟩
  · exact ⟨(h.own fd _ hs rfl).1, by rw [h.place]; rfl⟩
  · cases (h.own fd _ hs rfl).2
  · rw [h.place] at hs
    cases hs
  · rw [held_of_emptyHanded h.negative hempty, h.passed, h.closed, h.accepted]
    rfl

theorem Inv.next {a : Event} (h : s.Inv limit) (he : s.enabled limit a = true)
    (hn : s.next limit a = .ok s') : s'.Inv limit := by
  cases a with
  | setNewConnectionCallback set =>
      cases hn
      exact h.others rfl rfl ⟨rfl, rfl, rfl⟩ h.negative fun _ _ _ => Iff.rfl
  | handleRead =>
      cases hn
      have hplace : s.place = .idle := of_decide_eq_true he
      refine h.goOn (emptyHanded_of_none (by rw [inHand, hplace])) h.negative (fun _ _ => id)
        (fun fd hs => ⟨(h.reserve fd hs).1, rfl⟩) (fun _ => h.kept (by rw [hplace]; rfl))
        (emptyHanded_of_none rfl) (fun fd hgot => by cases hgot)
  | accept result =>
      simp only [enabled, Bool.and_eq_true, Bool.or_eq_true, decide_eq_true_eq] at he
      simp only [Acceptor.next] at hn
      split at hn
      · rename_i hplace
        exact h.acceptFirst hplace hn
      · rename_i hplace
        cases hn
        exact h.acceptAgain (he.1.resolve_left hplace) result
  | step =>
      cases hn
      exact h.step
  | otherOpen =>
      simp only [Acceptor.next] at hn
      split at hn
      · rename_i fd hfree
        cases hn
        have hneg := negative_setSlot h.negative (Int.natCast_nonneg fd) (some .other)
        refine h.others rfl rfl ⟨rfl, rfl, rfl⟩ hneg fun fd' o ho => ?_
        by_cases hne : fd' = fd
        · rw [hne, slot_setSlot_self, (of_lowestFree hfree).1]
          refine ⟨fun heq => ?_, fun heq => by cases heq⟩
          obtain rfl := Option.some.inj heq
          cases ho
        · rw [slot_setSlot_ne hne]
      · cases hn
        exact h
  | otherClose fd =>
      cases hn
      obtain ⟨x, hx, hnot⟩ := (Option.any_eq_true _ _).mp he
      refine h.others rfl rfl ⟨rfl, rfl, rfl⟩ (fun fd' hfd' => ?_) fun fd' o ho => ?_
      · by_cases hne : fd' = fd
        · rw [hne, slot_setSlot_self]
        · rw [slot_setSlot_ne hne]
          exact h.negative fd' hfd'
      · by_cases hne : fd' = fd
        · rw [hne, slot_setSlot_self, hx]
          refine ⟨fun heq => (by cases heq), fun heq => ?_⟩
          obtain rfl := Option.some.inj heq
          rw [ho] at hnot
          cases hnot
        · rw [slot_setSlot_ne hne]

theorem inv_reachable (hs : (acceptor limit).Reachable s) : s.Inv limit := by
  have hinv : (acceptor limit).Invariant (Inv limit) := {
    init := fun _ => inv_constructed
    step := fun _ _ _ h he hn => h.next he hn }
  exact hinv.reachable hs

/-! ## The reserve -/

/-- Every connection accepted has been passed to the callback or closed, once. -/
def Disposed (s : Acceptor) : Prop :=
  ∀ n, s.passed.count n + s.closed.count n = if n < s.accepted then 1 else 0

/-- What `handleRead()` is about to close. -/
def toClose (s : Acceptor) : Option Int :=
  match s.place with
  | .got connfd => if s.newConnectionCallback_ then none else some connfd
  | .closing | .closingAgain => some s.idleFd_
  | .idle | .accepting | .acceptingAgain | .reopening => none

/-- It is the acceptor's, or no descriptor at all. -/
def ClosesOwn (s : Acceptor) : Prop :=
  ∀ fd, s.toClose = some fd → fd < 0 ∨ ∃ o, s.slot fd = some o ∧ o.isOwn = true

/-- `idleFd_` is open, and the acceptor's. -/
def Reserve (s : Acceptor) : Prop := 0 ≤ s.idleFd_ ∧ s.slot s.idleFd_ = some .reserve

/-- The last call of the dance finds a free slot: the others have left one of
those it freed, or freed one themselves. -/
def Room (limit : Nat) (s : Acceptor) : Event → Prop
  | .step => s.place = .reopening → (s.lowestFree limit).isSome = true
  | _ => True

instance (limit : Nat) (s : Acceptor) (a : Event) : Decidable (Room limit s a) :=
  match a with
  | .step => inferInstanceAs (Decidable (_ → _))
  | .setNewConnectionCallback _ | .handleRead | .accept _ => instDecidableTrue
  | .otherOpen | .otherClose _ => instDecidableTrue

instance (limit : Nat) (s : Acceptor) (a : Event) :
    Decidable (((acceptor limit).guarded (Room limit)).enabled s a) :=
  inferInstanceAs (Decidable (_ ∧ _))

theorem Inv.disposed (h : s.Inv limit) (hplace : s.place = .idle) : s.Disposed := by
  intro n
  have hempty : s.EmptyHanded := emptyHanded_of_none (by rw [inHand, hplace])
  have hcount := h.account n
  rwa [held_of_emptyHanded h.negative hempty] at hcount

theorem Inv.closesOwn (h : s.Inv limit) : s.ClosesOwn := by
  intro fd hclose
  rcases Int.lt_or_le fd 0 with hneg | hpos
  · exact Or.inl hneg
  · right
    unfold toClose at hclose
    split at hclose
    · rename_i connfd hplace
      split at hclose
      · cases hclose
      · obtain rfl := Option.some.inj hclose
        obtain ⟨n, hslot⟩ := h.hand connfd (by rw [inHand, hplace]) hpos
        exact ⟨_, hslot, rfl⟩
    · rename_i hplace
      obtain rfl := Option.some.inj hclose
      exact ⟨_, (h.kept (by rw [hplace]; rfl) hpos).1, rfl⟩
    · rename_i hplace
      obtain rfl := Option.some.inj hclose
      obtain ⟨n, hslot⟩ := h.hand _ (by rw [inHand, hplace]) hpos
      exact ⟨_, hslot, rfl⟩
    all_goals cases hclose

theorem reopen_reserve_iff : (s.reopen limit).Reserve ↔ (s.lowestFree limit).isSome = true := by
  unfold Acceptor.reopen
  split
  · rename_i fd hfree
    rw [hfree]
    exact ⟨fun _ => rfl, fun _ => ⟨Int.natCast_nonneg fd, slot_setSlot_self _⟩⟩
  · rename_i hfull
    rw [hfull]
    exact ⟨fun h => absurd h.1 (Int.not_le.mpr (Int.negSucc_lt_zero 0)), fun h => by cases h⟩

/-- With its reserve the acceptor can make room for `accept`. -/
theorem Inv.drains (h : s.Inv limit) (hplace : s.place = .closing) (hres : s.Reserve) :
    ((s.step limit).lowestFree limit).isSome = true := by
  obtain ⟨hslot, hlt⟩ := h.kept (by rw [hplace]; rfl) hres.1
  have hfree : (s.step limit).slot s.idleFd_ = none := by
    simp only [Acceptor.step, hplace, close, hslot]
    exact slot_setSlot_self _
  obtain ⟨fd, hfd⟩ := Int.eq_ofNat_of_zero_le hres.1
  rw [lowestFree, List.find?_isSome]
  refine ⟨fd, List.mem_range.mpr (by omega), ?_⟩
  rw [← hfd, hfree]
  rfl

theorem idleFd_acceptFirst {result : Option Errno} (hn : s.acceptFirst limit result = .ok s') :
    s'.idleFd_ = s.idleFd_ := by
  cases result with
  | none =>
      simp only [Acceptor.acceptFirst] at hn
      split at hn
      · cases hn
        rfl
      · cases hn
        rfl
  | some e =>
      simp only [Acceptor.acceptFirst] at hn
      split at hn
      · cases hn
        rfl
      · cases hn

theorem keeps_acceptAgain (hplace : s.place = .acceptingAgain) (result : Option Errno) :
    (s.acceptAgain limit result).place.keeps = false := by
  cases result with
  | none =>
      simp only [Acceptor.acceptAgain]
      split
      · rfl
      · rw [hplace]
        rfl
  | some e => rfl

/-- `idleFd_` is assigned by the dance only. -/
theorem keeps_next {a : Event} (he : s.enabled limit a = true) (hn : s.next limit a = .ok s')
    (hkeeps : s'.place.keeps = true) :
    s.place.keeps = true ∧ s'.idleFd_ = s.idleFd_ ∨
      a = .step ∧ s.place = .reopening ∧ s' = s.reopen limit := by
  have hclose : ∀ fd, (s.close fd).idleFd_ = s.idleFd_ := by
    intro fd
    unfold close
    split <;> rfl
  cases a with
  | setNewConnectionCallback set =>
      cases hn
      exact Or.inl ⟨hkeeps, rfl⟩
  | handleRead =>
      cases hn
      have hplace : s.place = .idle := of_decide_eq_true he
      exact Or.inl ⟨by rw [hplace]; rfl, rfl⟩
  | accept result =>
      simp only [enabled, Bool.and_eq_true, Bool.or_eq_true, decide_eq_true_eq] at he
      simp only [Acceptor.next] at hn
      split at hn
      · rename_i hplace
        exact Or.inl ⟨by rw [hplace]; rfl, idleFd_acceptFirst hn⟩
      · rename_i hplace
        cases hn
        rw [keeps_acceptAgain (he.1.resolve_left hplace) result] at hkeeps
        cases hkeeps
  | step =>
      cases hn
      unfold Acceptor.step at hkeeps ⊢
      cases hplace : s.place with
      | got connfd =>
          left
          refine ⟨rfl, ?_⟩
          dsimp only
          split
          · unfold pass
            split <;> rfl
          · exact hclose connfd
      | reopening => exact Or.inr ⟨rfl, rfl, rfl⟩
      | closing | closingAgain =>
          rw [hplace] at hkeeps
          cases hkeeps
      | idle | accepting => exact Or.inl ⟨rfl, rfl⟩
      | acceptingAgain =>
          simp only [hplace] at hkeeps
          cases hkeeps
  | otherOpen =>
      simp only [Acceptor.next] at hn
      split at hn <;> cases hn <;> exact Or.inl ⟨hkeeps, rfl⟩
  | otherClose fd =>
      cases hn
      exact Or.inl ⟨hkeeps, rfl⟩

/-- If the last call always finds room, `idleFd_` is the reserve wherever the
code takes it for that. -/
theorem kept_reachable (hs : ((acceptor limit).guarded (Room limit)).Reachable s)
    (hkeeps : s.place.keeps = true) : 0 ≤ s.idleFd_ := by
  have hinv : ((acceptor limit).guarded (Room limit)).Invariant
      fun s => s.place.keeps = true → 0 ≤ s.idleFd_ := {
    init := fun s h _ => h.range.1
    step := by
      intro s a s' h he hn hkeeps
      rcases keeps_next he.1 hn hkeeps with ⟨hk, heq⟩ | ⟨rfl, hplace, rfl⟩
      · rw [heq]
        exact h hk
      · exact (reopen_reserve_iff.mpr (he.2 hplace)).1 }
  exact hinv.reachable hs hkeeps

/-- Whatever the other threads do, connections are disposed of once and
nothing is closed that is not the acceptor's. The reserve is there after every
`handleRead()` if each last `open` found room, and that is when the call brings
it back. -/
theorem reserve_survives (hs : (acceptor limit).Reachable s) :
    (s.place = .idle → s.Disposed) ∧ s.ClosesOwn ∧
      (((acceptor limit).guarded (Room limit)).Reachable s → s.place = .idle → s.Reserve) ∧
      (s.place = .reopening →
        ((s.step limit).Reserve ↔ (s.lowestFree limit).isSome = true)) ∧
      (s.place = .closing → s.Reserve → ((s.step limit).lowestFree limit).isSome = true) := by
  have h := inv_reachable hs
  refine ⟨h.disposed, h.closesOwn, fun hroom hplace => ?_, fun hplace => ?_, h.drains⟩
  · have hkeeps : s.place.keeps = true := by rw [hplace]; rfl
    have hpos := kept_reachable hroom hkeeps
    exact ⟨hpos, (h.kept hkeeps hpos).1⟩
  · simp only [Acceptor.step, hplace]
    exact reopen_reserve_iff

/-! ## Two slots -/

/-- Descriptor 0 is the listening socket, 1 the reserve. -/
def started : Acceptor where
  slot fd := if fd = 0 then some .other else if fd = 1 then some .reserve else none
  idleFd_ := 1
  newConnectionCallback_ := true
  place := .idle
  accepted := 0
  passed := []
  closed := []

theorem constructed_started : started.Constructed 2 where
  negative fd hfd := by simp only [started]; rw [if_neg (by omega), if_neg (by omega)]
  range := by decide
  own fd o hs ho := by
    simp only [started] at hs
    split at hs
    · obtain rfl := Option.some.inj hs
      cases ho
    · split at hs
      · exact ⟨‹_›, (Option.some.inj hs).symm⟩
      · cases hs
  reserve := rfl
  place := rfl
  accepted := rfl
  passed := rfl
  closed := rfl

/-- A connection is turned away, and the reserve is back. -/
theorem reserve_survives_drained : ∃ s, (acceptor 2).Reachable s ∧ s.accepted = 1 ∧
    s.Disposed ∧ s.Reserve := by
  obtain ⟨s, hs, hcheck⟩ := Lts.exists_reachable_of_exec
    (L := (acceptor 2).guarded (Room 2))
    [.handleRead, .accept (some .EMFILE), .step, .accept none, .step, .step]
    (fun s => decide (s.place = .idle ∧ s.accepted = 1)) constructed_started (by decide +kernel)
  simp only [decide_eq_true_eq] at hcheck
  obtain ⟨hdisposed, -, hreserve, -⟩ := reserve_survives hs.of_guarded
  exact ⟨s, hs.of_guarded, hcheck.2, hdisposed hcheck.1, hreserve hs hcheck.1⟩

/-- Another thread opens a descriptor as soon as the reserve is closed: the
`accept` after it finds the table full, and so does the `open`. -/
theorem reserve_lost : ¬∀ s, (acceptor 2).Reachable s →
    (s.place = .idle → s.Disposed) ∧ s.ClosesOwn ∧ (s.place = .idle → s.Reserve) := by
  obtain ⟨s, hs, hcheck⟩ := Lts.exists_reachable_of_exec (L := acceptor 2)
    [.handleRead, .accept (some .EMFILE), .step, .otherOpen, .accept (some .EMFILE), .step, .step]
    (fun s => decide (s.place = .idle ∧ s.idleFd_ = -1)) constructed_started (by decide +kernel)
  simp only [decide_eq_true_eq] at hcheck
  intro hall
  have hpos := ((hall s hs).2.2 hcheck.1).1
  rw [hcheck.2] at hpos
  cases hpos

end Acceptor

end Muduo
