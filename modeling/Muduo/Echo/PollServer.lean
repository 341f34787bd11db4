import Mathlib.Data.List.Basic
import Muduo.Echo.Client
import Muduo.Lib.Loop
import Muduo.Lib.Lts

/-!
# The poll server

One turn of the main loop of `echosrv_poll.cpp`, iterator step by iterator
step: the accept branch puts an entry behind the others, and the scan erases
the entries of clients that are gone from the vector it goes through. An
iterator is its distance from `begin()`, and it faults where it would leave the
vector.

A turn is compared with going through the clients once, whoever is erased
(`visits`): `round_serves`. `server` is the server with any results of `poll`
and of the calls of each round; a process that has called `exit` takes no
further step.
-/

namespace Muduo

open Lib

namespace Echo

namespace PollServer

/-- `struct pollfd` -/
structure PollFd where
  fd : Int
  events : BitVec 16
  revents : BitVec 16
deriving DecidableEq, Repr

def POLLIN : BitVec 16 := 1

namespace PollFd

/-- `revents & POLLIN` -/
def ready (pfd : PollFd) : Bool := pfd.revents &&& POLLIN ≠ 0

/-- `poll` counts it. -/
def reported (pfd : PollFd) : Bool := pfd.revents ≠ 0

theorem reported_of_ready {pfd : PollFd} (h : pfd.ready = true) : pfd.reported = true := by
  refine decide_eq_true fun hzero => ?_
  rw [ready, hzero] at h
  cases h

end PollFd

/-- How a round is left. -/
inductive Halt where
  /-- `ERR_EXIT`, and the calls of the round so far. -/
  | exit (calls : List Call)
  | outOfRange
  | diverges
deriving DecidableEq, Repr

/-- What the calls of a round return: `accept4`, and each `read` in turn. -/
structure Answers where
  accept4 : Int
  read : Nat → ReadResult

/-! ## A round -/

/-- The variables of the `for` loop; `reads` is the number of calls of `read`
so far. -/
structure Scan where
  pollfds : List PollFd
  it : Nat
  nready : Int
  reads : Nat
  calls : List Call
deriving DecidableEq, Repr

namespace Scan

/-- `it != pollfds.end() && nready > 0` -/
def more (s : Scan) : Bool := s.it ≠ s.pollfds.length ∧ 0 < s.nready

def body (read : Nat → ReadResult) (s : Scan) : Except Halt Scan :=
  match s.pollfds[s.it]? with
  | none => .error .outOfRange
  | some pfd =>
      if pfd.ready then
        let connfd := pfd.fd
        let ret := read s.reads
        let calls := s.calls ++ [.read connfd ret]
        let s := { s with nready := s.nready - 1, reads := s.reads + 1, calls := calls }
        match ret with
        | .failed => .error (.exit s.calls)
        | .data chunk =>
            if chunk.bytes = [] then do
              let pollfds := s.pollfds.eraseIdx s.it
              check (0 < s.it) .outOfRange
              let it := s.it - 1
              return { s with pollfds := pollfds, it := it, calls := s.calls ++ [.close connfd] }
            else .ok { s with calls := s.calls ++ [.write connfd chunk.reply] }
      else .ok s

/-- The body and `++it`. -/
def step (read : Nat → ReadResult) (s : Scan) : Except Halt Scan := do
  let s ← s.body read
  check (s.it < s.pollfds.length) .outOfRange
  return { s with it := s.it + 1 }

end Scan

/-- The `for` loop, from `pollfds.begin() + 1`. -/
def scan (read : Nat → ReadResult) (pollfds : List PollFd) (nready : Int) (calls : List Call) :
    Except Halt (List PollFd × List Call) := do
  check (0 < pollfds.length) .outOfRange
  match whileFuel Scan.more (Scan.step read) pollfds.length ⟨pollfds, 1, nready, 0, calls⟩ with
  | none => .error .diverges
  | some r => r.map fun s => (s.pollfds, s.calls)

/-- The `while` loop's body after `poll`, which has set `revents`. -/
def round (pollfds : List PollFd) (nready : Int) (k : Answers) :
    Except Halt (List PollFd × List Call) :=
  if nready = 0 then .ok (pollfds, [])
  else
    match pollfds[0]? with
    | none => .error .outOfRange
    | some pfd =>
        if pfd.ready then
          let connfd := k.accept4
          if connfd = -1 then .error (.exit [.accept4 connfd])
          else
            let pollfds := pollfds ++ [⟨connfd, POLLIN, 0⟩]
            let nready := nready - 1
            if nready = 0 then .ok (pollfds, [.accept4 connfd])
            else scan k.read pollfds nready [.accept4 connfd]
        else scan k.read pollfds nready []

end PollServer

open PollServer in
structure PollServer where
  pollfds : List PollFd
  /-- The calls since the start. -/
  calls : List Call
  exited : Bool
deriving DecidableEq, Repr

namespace PollServer

/-- What `poll` returns. -/
inductive Event where
  /-- `-1`, with `errno == EINTR` or not. -/
  | failed (eintr : Bool)
  | ready (revents : List (BitVec 16)) (nready : Int) (k : Answers)

def setRevents (pollfds : List PollFd) (revents : List (BitVec 16)) : List PollFd :=
  List.zipWith (fun pfd r => { pfd with revents := r }) pollfds revents

def next (s : PollServer) : Event → Except Halt PollServer
  | .failed true => .ok s
  | .failed false => .ok { s with exited := true }
  | .ready revents nready k =>
      match round (setRevents s.pollfds revents) nready k with
      | .ok (pollfds, calls) => .ok { s with pollfds := pollfds, calls := s.calls ++ calls }
      | .error (.exit calls) => .ok { s with calls := s.calls ++ calls, exited := true }
      | .error e => .error e

def enabled (s : PollServer) : Event → Prop
  | .failed _ => s.exited = false
  | .ready revents nready k =>
      s.exited = false ∧ revents.length = s.pollfds.length ∧
        nready = ((setRevents s.pollfds revents).countP PollFd.reported : Nat) ∧
        ∀ n, (k.read n).fits = true

/-- The listening socket is the one entry. -/
structure Started (s : PollServer) : Prop where
  pollfds : ∃ pfd, s.pollfds = [pfd] ∧ pfd.events = POLLIN
  calls : s.calls = []
  exited : s.exited = false

def server : Lts PollServer Event Halt where
  init := Started
  enabled := enabled
  next := next

/-! ## Every client once -/

/-- A client's entry, and what is read from it if it is ready. -/
structure Visit where
  entry : PollFd
  result : Option ReadResult
deriving DecidableEq, Repr

namespace Visit

def failed (v : Visit) : Bool := v.result = some .failed

/-- Its `read` returns 0. -/
def closed (v : Visit) : Bool :=
  match v.result with
  | some (.data chunk) => chunk.bytes = []
  | _ => false

def calls (v : Visit) : List Call :=
  match v.result with
  | none => []
  | some .failed => [.read v.entry.fd .failed]
  | some (.data chunk) =>
      if chunk.bytes = [] then [.read v.entry.fd (.data chunk), .close v.entry.fd]
      else [.read v.entry.fd (.data chunk), .write v.entry.fd chunk.reply]

end Visit

/-- The clients in turn; the results of `read` go to those that are ready. -/
def visits (read : Nat → ReadResult) : Nat → List PollFd → List Visit
  | _, [] => []
  | n, pfd :: clients =>
      if pfd.ready then ⟨pfd, some (read n)⟩ :: visits read (n + 1) clients
      else ⟨pfd, none⟩ :: visits read n clients

/-- The entries that are not removed. -/
def kept (vs : List Visit) : List PollFd := (vs.filter fun v => !v.closed).map Visit.entry

section visits

variable {read : Nat → ReadResult}

theorem visits_append_quiet {pfd : PollFd} (h : pfd.ready = false) (n : Nat)
    (clients : List PollFd) :
    visits read n (clients ++ [pfd]) = visits read n clients ++ [⟨pfd, none⟩] := by
  induction clients generalizing n with
  | nil => simp [visits, h]
  | cons pfd' clients ih =>
      rw [List.cons_append]
      unfold visits
      split
      · rw [ih]
        rfl
      · rw [ih]
        rfl

/-- Nobody is ready. -/
theorem visits_quiet {clients : List PollFd} (h : clients.countP PollFd.ready = 0) (n : Nat) :
    visits read n clients = clients.map fun pfd => ⟨pfd, none⟩ := by
  induction clients with
  | nil => rfl
  | cons pfd clients ih =>
      have hpfd : pfd.ready = false := by
        have hall := List.countP_eq_zero.mp h pfd List.mem_cons_self
        exact Bool.eq_false_iff.mpr hall
      rw [List.countP_cons_of_neg (by simp [hpfd])] at h
      unfold visits
      rw [if_neg (by simp [hpfd]), ih h]
      rfl

theorem kept_unread (clients : List PollFd) :
    kept (clients.map fun pfd => ⟨pfd, none⟩) = clients := by
  rw [kept, List.filter_eq_self.mpr, List.map_map]
  · exact List.map_id clients
  · intro v hv
    obtain ⟨pfd, -, rfl⟩ := List.mem_map.mp hv
    rfl

theorem calls_unread (clients : List PollFd) :
    (clients.map fun pfd => (⟨pfd, none⟩ : Visit)).flatMap Visit.calls = [] := by
  rw [List.flatMap_map]
  exact List.flatMap_eq_nil_iff.mpr fun _ _ => rfl

theorem kept_append (vs vs' : List Visit) : kept (vs ++ vs') = kept vs ++ kept vs' := by
  rw [kept, List.filter_append, List.map_append]
  rfl

end visits

/-- The scan of `vs` behind `done`, the calls before it being `calls`. -/
def Scanned (done : List PollFd) (calls : List Call) (vs : List Visit) : Except Halt Scan → Prop
  | .ok s =>
      (∀ v ∈ vs, v.failed = false) ∧ s.pollfds = done ++ kept vs ∧
        s.calls = calls ++ vs.flatMap Visit.calls
  | .error (.exit calls') => ∃ before v after, vs = before ++ v :: after ∧
      (∀ v' ∈ before, v'.failed = false) ∧ v.failed = true ∧
        calls' = calls ++ (before ++ [v]).flatMap Visit.calls
  | .error .outOfRange => False
  | .error .diverges => False

theorem Scanned.cons {done done' : List PollFd} {calls calls' : List Call} {v : Visit}
    {vs : List Visit} {r : Except Halt Scan} (h : Scanned done' calls' vs r)
    (hv : v.failed = false) (hdone : done' = done ++ kept [v]) (hcalls' : calls' = calls ++ v.calls) :
    Scanned done calls (v :: vs) r := by
  subst hdone hcalls'
  match r, h with
  | .ok s, ⟨hvs, hpollfds, hcalls⟩ =>
      refine ⟨?_, ?_, ?_⟩
      · intro v' hv'
        rcases List.mem_cons.mp hv' with rfl | hv'
        · exact hv
        · exact hvs v' hv'
      · rw [hpollfds, List.append_assoc, ← kept_append]
        rfl
      · rw [hcalls, List.flatMap_cons, List.append_assoc]
  | .error (.exit calls'), ⟨before, w, after, hvs, hbefore, hw, hcalls⟩ =>
      refine ⟨v :: before, w, after, ?_, ?_, hw, ?_⟩
      · rw [hvs]
        rfl
      · intro v' hv'
        rcases List.mem_cons.mp hv' with rfl | hv'
        · exact hv
        · exact hbefore v' hv'
      · rw [hcalls, List.append_assoc, List.cons_append, List.flatMap_cons]

theorem scanned_quiet {done clients : List PollFd} {calls : List Call}
    (h : clients.countP PollFd.ready = 0) {read : Nat → ReadResult} (n it : Nat) (nready : Int) :
    Scanned done calls (visits read n clients) (.ok ⟨done ++ clients, it, nready, n, calls⟩) := by
  rw [visits_quiet h]
  refine ⟨?_, ?_, ?_⟩
  · intro v hv
    obtain ⟨pfd, -, rfl⟩ := List.mem_map.mp hv
    rfl
  · rw [kept_unread]
  · rw [calls_unread, List.append_nil]

/-! ## The scan -/

section scan

variable {read : Nat → ReadResult} {done todo : List PollFd} {pfd : PollFd} {nready : Int} {n : Nat}
  {calls : List Call}

theorem getElem?_done : (done ++ pfd :: todo)[done.length]? = some pfd := by
  rw [List.getElem?_append_right (Nat.le_refl _), Nat.sub_self]
  rfl

theorem length_done_lt : done.length < (done ++ pfd :: todo).length := by
  rw [List.length_append, List.length_cons]
  omega

theorem step_quiet (h : pfd.ready = false) :
    Scan.step read ⟨done ++ pfd :: todo, done.length, nready, n, calls⟩ =
      .ok ⟨done ++ pfd :: todo, done.length + 1, nready, n, calls⟩ := by
  simp only [Scan.step, Scan.body, getElem?_done, h, Bool.false_eq_true, if_false, ok_bind,
    check_of length_done_lt]
  rfl

theorem step_failed (h : pfd.ready = true) (hret : read n = .failed) :
    Scan.step read ⟨done ++ pfd :: todo, done.length, nready, n, calls⟩ =
      .error (.exit (calls ++ [.read pfd.fd .failed])) := by
  simp only [Scan.step, Scan.body, getElem?_done, h, if_true, hret]
  rfl

/-- The iterator is back where it was, and there the next entry is now. -/
theorem step_closed (hdone : done ≠ []) (h : pfd.ready = true) {chunk : Chunk}
    (hret : read n = .data chunk) (hempty : chunk.bytes = []) :
    Scan.step read ⟨done ++ pfd :: todo, done.length, nready, n, calls⟩ =
      .ok ⟨done ++ todo, done.length, nready - 1, n + 1,
        calls ++ [.read pfd.fd (.data chunk), .close pfd.fd]⟩ := by
  have hpos : 0 < done.length := List.length_pos_of_ne_nil hdone
  have herase : (done ++ pfd :: todo).eraseIdx done.length = done ++ todo := by
    rw [List.eraseIdx_append_of_length_le (Nat.le_refl _), Nat.sub_self]
    rfl
  have hlt : done.length - 1 < (done ++ todo).length := by
    rw [List.length_append]
    omega
  simp only [Scan.step, Scan.body, getElem?_done, h, if_true, hret, hempty, herase,
    check_of hpos, ok_bind]
  show (check (done.length - 1 < (done ++ todo).length) Halt.outOfRange >>= fun _ => _) = _
  rw [check_of hlt, ok_bind, Nat.sub_add_cancel hpos, List.append_assoc]
  rfl

theorem step_answered (h : pfd.ready = true) {chunk : Chunk} (hret : read n = .data chunk)
    (hbytes : chunk.bytes ≠ []) :
    Scan.step read ⟨done ++ pfd :: todo, done.length, nready, n, calls⟩ =
      .ok ⟨done ++ pfd :: todo, done.length + 1, nready - 1, n + 1,
        calls ++ [.read pfd.fd (.data chunk), .write pfd.fd chunk.reply]⟩ := by
  simp only [Scan.step, Scan.body, getElem?_done, h, if_true, hret, if_neg hbytes, ok_bind,
    check_of length_done_lt, List.append_assoc]
  rfl

/-- The scan goes through the entries from `it` on, erased or not, and is not
ended by the counter before the last one that is ready. -/
theorem scan_loop (hdone : done ≠ []) (hcount : (todo.countP PollFd.ready : Int) ≤ nready)
    {fuel : Nat} (hfuel : todo.length < fuel) :
    ∃ r, whileFuel Scan.more (Scan.step read) fuel ⟨done ++ todo, done.length, nready, n, calls⟩ =
      some r ∧ Scanned done calls (visits read n todo) r := by
  induction todo generalizing done nready n calls fuel with
  | nil =>
      obtain ⟨fuel, rfl⟩ := Nat.exists_eq_succ_of_ne_zero (Nat.pos_iff_ne_zero.mp hfuel)
      have hend : Scan.more ⟨done ++ [], done.length, nready, n, calls⟩ = false := by
        simp [Scan.more]
      exact ⟨_, whileFuel_exit hend fuel, scanned_quiet rfl _ _ _⟩
  | cons pfd todo ih =>
      obtain ⟨fuel, rfl⟩ := Nat.exists_eq_succ_of_ne_zero (Nat.ne_zero_of_lt hfuel)
      have hfuel' : todo.length < fuel := Nat.lt_of_succ_lt_succ hfuel
      by_cases hpos : 0 < nready
      · have hmore : Scan.more ⟨done ++ pfd :: todo, done.length, nready, n, calls⟩ = true :=
          decide_eq_true ⟨length_done_lt.ne, hpos⟩
        have hnext : done ++ pfd :: todo = (done ++ [pfd]) ++ todo := List.append_cons ..
        have hlen : done.length + 1 = (done ++ [pfd]).length := by simp
        have hne : done ++ [pfd] ≠ [] := by simp
        cases hready : pfd.ready with
        | false =>
            rw [List.countP_cons_of_neg (by simp [hready])] at hcount
            obtain ⟨r, hr, hscan⟩ := ih hne hcount hfuel'
            rw [whileFuel_step hmore (step_quiet hready), hnext, hlen]
            refine ⟨r, hr, ?_⟩
            rw [visits, if_neg (by simp [hready])]
            exact hscan.cons rfl rfl (List.append_nil calls).symm
        | true =>
            rw [List.countP_cons_of_pos hready] at hcount
            have hcount' : (todo.countP PollFd.ready : Int) ≤ nready - 1 := by omega
            rw [visits, if_pos hready]
            cases hret : read n with
            | failed =>
                refine ⟨_, whileFuel_error hmore (step_failed hready hret) fuel, ?_⟩
                refine ⟨[], _, _, rfl, ?_, rfl, rfl⟩
                intro v hv
                cases hv
            | data chunk =>
                by_cases hbytes : chunk.bytes = []
                · obtain ⟨r, hr, hscan⟩ := ih hdone hcount' hfuel'
                  rw [whileFuel_step hmore (step_closed hdone hready hret hbytes)]
                  refine ⟨r, hr, ?_⟩
                  have hkept : kept [⟨pfd, some (.data chunk)⟩] = [] := by
                    simp [kept, Visit.closed, hbytes]
                  have hcalls : (⟨pfd, some (.data chunk)⟩ : Visit).calls =
                      [.read pfd.fd (.data chunk), .close pfd.fd] := if_pos hbytes
                  exact hscan.cons rfl (by rw [hkept, List.append_nil]) (by rw [hcalls])
                · obtain ⟨r, hr, hscan⟩ := ih hne hcount' hfuel'
                  rw [whileFuel_step hmore (step_answered hready hret hbytes), hnext, hlen]
                  refine ⟨r, hr, ?_⟩
                  have hkept : kept [⟨pfd, some (.data chunk)⟩] = [pfd] := by
                    simp [kept, Visit.closed, hbytes]
                  have hcalls : (⟨pfd, some (.data chunk)⟩ : Visit).calls =
                      [.read pfd.fd (.data chunk), .write pfd.fd chunk.reply] := if_neg hbytes
                  exact hscan.cons rfl (by rw [hkept]) (by rw [hcalls])
      · have hend : Scan.more ⟨done ++ pfd :: todo, done.length, nready, n, calls⟩ = false :=
          decide_eq_false fun h => hpos h.2
        have hnone : (pfd :: todo).countP PollFd.ready = 0 := by omega
        exact ⟨_, whileFuel_exit hend fuel, scanned_quiet hnone _ _ _⟩

end scan

/-! ## The round -/

/-- The entry of the client that is accepted, if one is. -/
def accepted (listen : PollFd) (k : Answers) : List PollFd :=
  if listen.ready then [⟨k.accept4, POLLIN, 0⟩] else []

def acceptCalls (listen : PollFd) (k : Answers) : List Call :=
  if listen.ready then [.accept4 k.accept4] else []

/-- A round that goes to its end: no call has failed, the entries of the
clients that are gone are removed, and that of a new client is the last. -/
structure Served (listen : PollFd) (clients : List PollFd) (k : Answers) (pollfds : List PollFd)
    (calls : List Call) : Prop where
  accept : listen.ready = true → k.accept4 ≠ -1
  answered : ∀ v ∈ visits k.read 0 clients, v.failed = false
  pollfds : pollfds = listen :: kept (visits k.read 0 clients) ++ accepted listen k
  calls : calls = acceptCalls listen k ++ (visits k.read 0 clients).flatMap Visit.calls

/-- A round that `ERR_EXIT` ends: after `accept4`, or after the first `read`
that fails. -/
def Stopped (listen : PollFd) (clients : List PollFd) (k : Answers) (calls : List Call) : Prop :=
  listen.ready = true ∧ k.accept4 = -1 ∧ calls = [.accept4 (-1)] ∨
    ∃ before v after, visits k.read 0 clients = before ++ v :: after ∧
      (∀ v' ∈ before, v'.failed = false) ∧ v.failed = true ∧
        calls = acceptCalls listen k ++ (before ++ [v]).flatMap Visit.calls

def Outcome (listen : PollFd) (clients : List PollFd) (k : Answers) :
    Except Halt (List PollFd × List Call) → Prop
  | .ok (pollfds, calls) => Served listen clients k pollfds calls
  | .error (.exit calls) => Stopped listen clients k calls
  | .error .outOfRange => False
  | .error .diverges => False

section round

variable {listen : PollFd} {clients : List PollFd} {k : Answers} {nready : Int}

theorem ready_new (fd : Int) : (⟨fd, POLLIN, 0⟩ : PollFd).ready = false := by
  simp [PollFd.ready]

/-- The scan passes a new entry by. -/
theorem visits_accepted : visits k.read 0 (clients ++ accepted listen k) =
    visits k.read 0 clients ++ (accepted listen k).map fun pfd => ⟨pfd, none⟩ := by
  unfold accepted
  split
  · exact visits_append_quiet (ready_new _) 0 clients
  · simp

theorem countP_accepted (listen : PollFd) (clients : List PollFd) (k : Answers) :
    (clients ++ accepted listen k).countP PollFd.ready = clients.countP PollFd.ready := by
  rw [List.countP_append]
  unfold accepted
  split
  · rw [List.countP_singleton, ready_new]
    rfl
  · rfl

theorem Scanned.outcome {r : Except Halt Scan} (haccept : listen.ready = true → k.accept4 ≠ -1)
    (h : Scanned [listen] (acceptCalls listen k)
      (visits k.read 0 (clients ++ accepted listen k)) r) :
    Outcome listen clients k (r.map fun s => (s.pollfds, s.calls)) := by
  rw [visits_accepted] at h
  match r, h with
  | .ok s, ⟨hvs, hpollfds, hcalls⟩ =>
      refine ⟨haccept, fun v hv => hvs v (List.mem_append_left _ hv), ?_, ?_⟩
      · have hkept := kept_unread (accepted listen k)
        show s.pollfds = _
        rw [hpollfds, kept_append, hkept]
        rfl
      · have hnone := calls_unread (accepted listen k)
        show s.calls = _
        rw [hcalls, List.flatMap_append, hnone, List.append_nil]
  | .error (.exit calls), ⟨before, v, after, hvs, hbefore, hv, hcalls⟩ =>
      have hread : ∀ w ∈ (accepted listen k).map (fun pfd => (⟨pfd, none⟩ : Visit)),
          w ≠ v := by
        rintro w hw rfl
        obtain ⟨pfd, -, rfl⟩ := List.mem_map.mp hw
        cases hv
      rcases List.append_eq_append_iff.mp hvs with ⟨rest, rfl, hrest⟩ | ⟨rest, hvs', hrest⟩
      · exact absurd rfl (hread v (hrest ▸ List.mem_append_right _ List.mem_cons_self))
      · cases rest with
        | nil =>
            rw [List.nil_append] at hrest
            exact absurd rfl (hread v (hrest ▸ List.mem_cons_self))
        | cons w rest =>
            obtain ⟨rfl, -⟩ := List.cons.inj hrest
            exact Or.inr ⟨before, v, rest, hvs', hbefore, hv, hcalls⟩

theorem scan_outcome (haccept : listen.ready = true → k.accept4 ≠ -1)
    (hcount : (clients.countP PollFd.ready : Int) ≤ nready) :
    Outcome listen clients k
      (scan k.read (listen :: (clients ++ accepted listen k)) nready (acceptCalls listen k)) := by
  rw [← countP_accepted listen clients k] at hcount
  have hloop : ∃ r, whileFuel Scan.more (Scan.step k.read)
      (listen :: (clients ++ accepted listen k)).length
      ⟨listen :: (clients ++ accepted listen k), 1, nready, 0, acceptCalls listen k⟩ = some r ∧
      Scanned [listen] (acceptCalls listen k)
        (visits k.read 0 (clients ++ accepted listen k)) r :=
    scan_loop (List.cons_ne_nil listen []) hcount (Nat.lt_succ_self _)
  obtain ⟨r, hr, hscan⟩ := hloop
  have hpos : 0 < (listen :: (clients ++ accepted listen k)).length := Nat.succ_pos _
  rw [scan, check_of hpos, ok_bind, hr]
  exact hscan.outcome haccept

/-- Nobody is left to read from. -/
theorem quiet_outcome (haccept : listen.ready = true → k.accept4 ≠ -1)
    (hcount : clients.countP PollFd.ready = 0) :
    Outcome listen clients k
      (.ok (listen :: (clients ++ accepted listen k), acceptCalls listen k)) := by
  rw [← countP_accepted listen clients k] at hcount
  have hscan : Scanned [listen] (acceptCalls listen k)
      (visits k.read 0 (clients ++ accepted listen k))
      (.ok ⟨[listen] ++ (clients ++ accepted listen k), 0, 0, 0, acceptCalls listen k⟩) :=
    scanned_quiet hcount 0 0 0
  exact hscan.outcome haccept

theorem countP_ready_le (clients : List PollFd) :
    clients.countP PollFd.ready ≤ clients.countP PollFd.reported :=
  List.countP_mono_left fun _ _ => PollFd.reported_of_ready

theorem round_outcome (h : nready = ((listen :: clients).countP PollFd.reported : Nat)) :
    Outcome listen clients k (round (listen :: clients) nready k) := by
  have hle := countP_ready_le clients
  have hone : listen.ready = true → nready = (clients.countP PollFd.reported : Nat) + 1 := by
    intro hready
    rw [h, List.countP_cons_of_pos (PollFd.reported_of_ready hready), Nat.cast_succ]
  have hclients : (clients.countP PollFd.ready : Int) ≤ nready := by
    rw [h, List.countP_cons]
    omega
  unfold round
  cases hready : listen.ready with
  | false =>
      have haccept : listen.ready = true → k.accept4 ≠ -1 := by
        rw [hready]
        intro hfalse
        cases hfalse
      have hnone : accepted listen k = [] := if_neg (by simp [hready])
      have hcalls : acceptCalls listen k = [] := if_neg (by simp [hready])
      split
      · have hquiet := @quiet_outcome listen clients k haccept (by omega)
        rwa [hnone, hcalls, List.append_nil] at hquiet
      · have hscan := scan_outcome haccept hclients
        rw [hnone, hcalls, List.append_nil] at hscan
        simpa only [List.getElem?_cons_zero, hready, Bool.false_eq_true, if_false] using hscan
  | true =>
      have hnew : accepted listen k = [⟨k.accept4, POLLIN, 0⟩] := if_pos hready
      have hcalls : acceptCalls listen k = [.accept4 k.accept4] := if_pos hready
      have hsucc := hone hready
      rw [if_neg (by omega)]
      simp only [List.getElem?_cons_zero, hready, if_true]
      by_cases hfail : k.accept4 = -1
      · rw [if_pos hfail, hfail]
        exact Or.inl ⟨hready, hfail, rfl⟩
      · rw [if_neg hfail, ← hnew, ← hcalls, List.cons_append]
        split
        · exact quiet_outcome (fun _ => hfail) (by omega)
        · exact scan_outcome (fun _ => hfail) (by omega)

/-! ## What a round does to each client -/

theorem Visit.readsOn_calls (v : Visit) :
    v.calls.filterMap Call.readOn = v.result.toList.map fun _ => v.entry.fd := by
  obtain ⟨pfd, result⟩ := v
  match result with
  | none => rfl
  | some .failed => rfl
  | some (.data chunk) =>
      unfold Visit.calls
      simp only
      split
      · rfl
      · rfl

theorem Visit.closesOf_calls (v : Visit) :
    v.calls.filterMap Call.closeOf = if v.closed then [v.entry.fd] else [] := by
  obtain ⟨pfd, result⟩ := v
  match result with
  | none => rfl
  | some .failed => rfl
  | some (.data chunk) =>
      unfold Visit.calls
      simp only [Visit.closed, decide_eq_true_eq]
      split
      · rfl
      · rfl

theorem readsOn_visits {read : Nat → ReadResult} (n : Nat) (clients : List PollFd) :
    ((visits read n clients).flatMap Visit.calls).filterMap Call.readOn =
      (clients.filter PollFd.ready).map PollFd.fd := by
  induction clients generalizing n with
  | nil => rfl
  | cons pfd clients ih =>
      unfold visits
      split
      · rename_i hready
        rw [List.flatMap_cons, List.filterMap_append, Visit.readsOn_calls, ih,
          List.filter_cons_of_pos hready]
        rfl
      · rename_i hready
        rw [List.flatMap_cons, List.filterMap_append, Visit.readsOn_calls, ih,
          List.filter_cons_of_neg hready]
        rfl

theorem closesOf_visits (vs : List Visit) :
    (vs.flatMap Visit.calls).filterMap Call.closeOf =
      (vs.filter Visit.closed).map fun v => v.entry.fd := by
  induction vs with
  | nil => rfl
  | cons v vs ih =>
      rw [List.flatMap_cons, List.filterMap_append, Visit.closesOf_calls, ih, List.filter_cons]
      split
      · rfl
      · rfl

theorem filterMap_acceptCalls {f : Call → Option Int} (hf : ∀ fd, f (.accept4 fd) = none) :
    (acceptCalls listen k).filterMap f = [] := by
  unfold acceptCalls
  split
  · exact List.filterMap_cons_none (hf _)
  · rfl

/-- A round never leaves the vector. One that goes to its end has called `read`
once on every client that was ready and on nobody else, and `close` once on
those whose `read` returned 0; their entries are gone, and the others are there
in their order, with a new client last. `ERR_EXIT` ends any other, at the first
call that fails. -/
theorem round_serves (k : Answers)
    (h : nready = ((listen :: clients).countP PollFd.reported : Nat)) :
    (∀ pollfds calls, round (listen :: clients) nready k = .ok (pollfds, calls) →
      Served listen clients k pollfds calls ∧
        calls.filterMap Call.readOn = (clients.filter PollFd.ready).map PollFd.fd ∧
        calls.filterMap Call.closeOf =
          ((visits k.read 0 clients).filter Visit.closed).map fun v => v.entry.fd) ∧
    ∀ e, round (listen :: clients) nready k = .error e →
      ∃ calls, e = .exit calls ∧ Stopped listen clients k calls := by
  have houtcome := round_outcome (k := k) h
  constructor
  · intro pollfds calls hround
    rw [hround] at houtcome
    have hserved : Served listen clients k pollfds calls := houtcome
    refine ⟨hserved, ?_, ?_⟩
    · rw [hserved.calls, List.filterMap_append, filterMap_acceptCalls fun _ => rfl,
        readsOn_visits]
      rfl
    · rw [hserved.calls, List.filterMap_append, filterMap_acceptCalls fun _ => rfl,
        closesOf_visits]
      rfl
  · intro e hround
    rw [hround] at houtcome
    cases e with
    | exit calls => exact ⟨calls, rfl, houtcome⟩
    | outOfRange => cases houtcome
    | diverges => cases houtcome

end round

/-- Two clients side by side that are gone, one that has sent nothing, and one
that is answered, while a fifth is accepted. -/
def fourClients : List PollFd :=
  [⟨4, POLLIN, POLLIN⟩, ⟨5, POLLIN, POLLIN⟩, ⟨6, POLLIN, 0⟩, ⟨8, POLLIN, POLLIN⟩]

def twoGone : Answers where
  accept4 := 7
  read n := .data ⟨if n = 2 then str "a" else [], []⟩

theorem round_serves_two_gone : ∃ calls,
    round (⟨3, POLLIN, POLLIN⟩ :: fourClients) 4 twoGone = .ok ([⟨3, POLLIN, POLLIN⟩,
      ⟨6, POLLIN, 0⟩, ⟨8, POLLIN, POLLIN⟩, ⟨7, POLLIN, 0⟩], calls) ∧
    calls.filterMap Call.readOn = [4, 5, 8] ∧ calls.filterMap Call.closeOf = [4, 5] := by
  have hcount : (4 : Int) =
      ((⟨3, POLLIN, POLLIN⟩ :: fourClients).countP PollFd.reported : Nat) := rfl
  have hround : round (⟨3, POLLIN, POLLIN⟩ :: fourClients) 4 twoGone = .ok ([⟨3, POLLIN, POLLIN⟩,
      ⟨6, POLLIN, 0⟩, ⟨8, POLLIN, POLLIN⟩, ⟨7, POLLIN, 0⟩], _) := rfl
  obtain ⟨-, hreads, hcloses⟩ := (round_serves twoGone hcount).1 _ _ hround
  exact ⟨_, hround, hreads, hcloses⟩

/-! ## Runs -/

theorem Visit.paired_calls (v : Visit) : Paired v.calls := by
  obtain ⟨pfd, result⟩ := v
  match result with
  | none => exact .nil
  | some .failed => exact Paired.nil.other rfl
  | some (.data chunk) =>
      unfold Visit.calls
      simp only
      split
      · rename_i hempty
        have hquiet : (Call.read pfd.fd (.data chunk)).isTraffic = false := by
          simp [Call.isTraffic, hempty]
        exact (Paired.nil.other rfl).other hquiet
      · rename_i hbytes
        exact Paired.nil.answer hbytes

theorem paired_visits (vs : List Visit) : Paired (vs.flatMap Visit.calls) := by
  induction vs with
  | nil => exact .nil
  | cons v vs ih => exact v.paired_calls.append ih

theorem paired_acceptCalls (listen : PollFd) (k : Answers) : Paired (acceptCalls listen k) := by
  unfold acceptCalls
  split
  · exact Paired.nil.other rfl
  · exact .nil

theorem Stopped.paired {listen : PollFd} {clients : List PollFd} {k : Answers} {calls : List Call}
    (h : Stopped listen clients k calls) : Paired calls := by
  rcases h with ⟨-, -, rfl⟩ | ⟨_, _, _, -, -, -, rfl⟩
  · exact Paired.nil.other rfl
  · exact (paired_acceptCalls _ _).append (paired_visits _)

/-- There is the listening socket's entry, and the record is `Paired`. -/
structure Inv (s : PollServer) : Prop where
  pollfds : s.pollfds ≠ []
  paired : Paired s.calls

theorem setRevents_cons {pollfds : List PollFd} {revents : List (BitVec 16)} (h : pollfds ≠ [])
    (hlen : revents.length = pollfds.length) :
    ∃ listen clients, setRevents pollfds revents = listen :: clients := by
  cases pollfds with
  | nil => exact absurd rfl h
  | cons pfd pollfds =>
      cases revents with
      | nil => cases hlen
      | cons r revents => exact ⟨_, _, rfl⟩

theorem inv_next {s : PollServer} {a : Event} (h : s.Inv) (he : s.enabled a) :
    ∃ s', s.next a = .ok s' ∧ s'.Inv := by
  match a, he with
  | .failed true, _ => exact ⟨s, rfl, h⟩
  | .failed false, _ => exact ⟨_, rfl, h.pollfds, h.paired⟩
  | .ready revents nready k, ⟨_, hlen, hcount, _⟩ =>
      obtain ⟨listen, clients, hset⟩ := setRevents_cons h.pollfds hlen
      rw [hset] at hcount
      have houtcome := round_outcome (k := k) hcount
      simp only [next, hset]
      split
      · rename_i pollfds calls hround
        rw [hround] at houtcome
        have hserved : Served listen clients k pollfds calls := houtcome
        refine ⟨_, rfl, ?_, ?_⟩
        · show pollfds ≠ []
          rw [hserved.pollfds]
          exact List.cons_ne_nil _ _
        · show Paired (s.calls ++ calls)
          rw [hserved.calls]
          exact h.paired.append ((paired_acceptCalls _ _).append (paired_visits _))
      · rename_i calls hround
        rw [hround] at houtcome
        exact ⟨_, rfl, h.pollfds, h.paired.append (Stopped.paired houtcome)⟩
      · rename_i e hexit hround
        rw [hround] at houtcome
        cases e with
        | exit calls => exact absurd rfl (hexit calls)
        | outOfRange => cases houtcome
        | diverges => cases houtcome

theorem server_invariant : server.Invariant Inv where
  init := by
    rintro s ⟨⟨pfd, hpollfds, -⟩, hcalls, -⟩
    refine ⟨?_, ?_⟩
    · rw [hpollfds]
      exact List.cons_ne_nil _ _
    · rw [hcalls]
      exact .nil
  step s a s' h he hn := by
    obtain ⟨s'', hs'', hinv⟩ := inv_next h he
    obtain rfl := Except.ok.inj (hs''.symm.trans hn)
    exact hinv

/-- The iterators stay in the vector all along. -/
theorem server_never_faults {s : PollServer} (hs : server.Reachable s) {a : Event}
    (he : server.enabled s a) : ∃ s', server.next s a = .ok s' := by
  obtain ⟨s', hs', -⟩ := inv_next (server_invariant.reachable hs) he
  exact ⟨s', hs'⟩

theorem paired_reachable {s : PollServer} (hs : server.Reachable s) : Paired s.calls :=
  (server_invariant.reachable hs).paired

end PollServer

end Echo

end Muduo
