import Mathlib.Data.Int.CardIntervalMod
import Muduo.Server.Placed

/-!
# `EventLoopThreadPool`

The pool that hands the connections of a server to its I/O loops in turn.
`next_` is an `int` used as an index and compared as a `size_t`; `Turned` is
what holds between two calls of `getNextLoop`: `next_` is the number of calls
so far, modulo the number of loops. The server's own `getNextLoop`, which
knows loops by number, is the pool's (`getNextLoop_server`).

`cb`, which each thread runs before its loop, is not modelled.
-/

namespace Muduo

open Lib

/-- An `EventLoop*`: `baseLoop_`, or the loop of the `i`th thread started. -/
inductive LoopPtr where
  | base
  | thread (i : Nat)
deriving DecidableEq, Repr

/-- The number the server's model has for a loop. -/
def LoopPtr.number : LoopPtr → Nat
  | base => 0
  | thread i => i + 1

/-- `assert(!started_)`; `loops_[next_]` past the end; `++next_` past the
largest `int`. -/
inductive LoopPoolFault where
  | started | outOfRange | overflow
deriving DecidableEq, Repr

structure EventLoopThreadPool where
  started_ : Bool
  numThreads_ : Int
  next_ : Int
  loops_ : List LoopPtr
deriving DecidableEq, Repr

namespace EventLoopThreadPool

/-- The constructor. -/
def new : EventLoopThreadPool := ⟨false, 0, 0, []⟩

def setThreadNum (p : EventLoopThreadPool) (numThreads : Int) : EventLoopThreadPool :=
  { p with numThreads_ := numThreads }

/-- The body of the loop of `start`. -/
def startThread (p : EventLoopThreadPool) (i : Nat) : EventLoopThreadPool :=
  { p with loops_ := p.loops_ ++ [.thread i] }

def start (p : EventLoopThreadPool) : Except LoopPoolFault EventLoopThreadPool := do
  check (p.started_ = false) .started
  let p := { p with started_ := true }
  -- `for (int i = 0; i < numThreads_; ++i)`
  return (List.range p.numThreads_.toNat).foldl startThread p

def getNextLoop (p : EventLoopThreadPool) :
    Except LoopPoolFault (LoopPtr × EventLoopThreadPool) :=
  if p.loops_.isEmpty then .ok (.base, p)
  else
    match p.loops_[toSize p.next_]? with
    | none => .error .outOfRange
    | some loop => do
        check (p.next_ + 1 < 2 ^ 31) .overflow
        let next := p.next_ + 1
        if toSize next ≥ p.loops_.length then return (loop, { p with next_ := 0 })
        else return (loop, { p with next_ := next })

/-- `k` calls: what they return, in order. -/
def getNextLoops (p : EventLoopThreadPool) :
    Nat → Except LoopPoolFault (List LoopPtr × EventLoopThreadPool)
  | 0 => .ok ([], p)
  | k + 1 => do
      let (loops, p) ← p.getNextLoops k
      let (loop, p) ← p.getNextLoop
      return (loops ++ [loop], p)

/-! ## Starting -/

theorem foldl_startThread (p : EventLoopThreadPool) (is : List Nat) :
    is.foldl startThread p = { p with loops_ := p.loops_ ++ is.map .thread } := by
  induction is generalizing p with
  | nil => simp
  | cons i is ih =>
      rw [List.foldl_cons, ih]
      simp [startThread]

/-- The pool after `start` with `n` threads, `next_` of them taken. -/
def running (n : Nat) (next : Int) : EventLoopThreadPool :=
  ⟨true, n, next, (List.range n).map .thread⟩

theorem start_new (n : Nat) : (new.setThreadNum n).start = .ok (running n 0) := by
  have hnot : (new.setThreadNum n).started_ = false := rfl
  unfold start
  rw [check_of hnot, ok_bind]
  dsimp only
  rw [foldl_startThread]
  rfl

/-! ## One call -/

/-- Whose turn it is at the `k`th call. -/
def turn (n k : Nat) : LoopPtr := if n = 0 then .base else .thread (k % n)

/-- `next_` after `k` calls. -/
def nextIndex (n k : Nat) : Int := (if n = 0 then 0 else k % n : Nat)

theorem toSize_natCast {n : Nat} (h : n < 2 ^ 64) : toSize n = n := by
  simp only [toSize, sizeMod]
  omega

theorem succ_mod_of_lt {n k : Nat} (h : k % n + 1 < n) : (k + 1) % n = k % n + 1 := by
  rw [Nat.add_mod, Nat.mod_eq_of_lt (a := 1) (by omega), Nat.mod_eq_of_lt h]

theorem succ_mod_of_eq {n k : Nat} (hn : 0 < n) (h : n ≤ k % n + 1) : (k + 1) % n = 0 := by
  have hlt := Nat.mod_lt k hn
  have heq : k % n + 1 = n := by omega
  rw [← Nat.mod_add_mod, heq, Nat.mod_self]

/-- The index is in range, does not overflow, and goes round. -/
theorem getNextLoop_running {n : Nat} (hn : n < 2 ^ 31) (k : Nat) :
    (running n (nextIndex n k)).getNextLoop =
      .ok (turn n k, running n (nextIndex n (k + 1))) := by
  cases n with
  | zero => rfl
  | succ m =>
      have hlt : k % (m + 1) < m + 1 := Nat.mod_lt _ (Nat.succ_pos m)
      have hnext (k : Nat) : nextIndex (m + 1) k = (k % (m + 1) : Nat) :=
        congrArg Nat.cast (if_neg (Nat.succ_ne_zero m))
      have hsize : toSize ((k % (m + 1) : Nat) + 1) = k % (m + 1) + 1 :=
        toSize_natCast (n := k % (m + 1) + 1) (by omega)
      have hloop : ((List.range (m + 1)).map LoopPtr.thread)[k % (m + 1)]? =
          some (.thread (k % (m + 1))) := by
        rw [List.getElem?_map, List.getElem?_range hlt]
        rfl
      have hempty : (running (m + 1) (nextIndex (m + 1) k)).loops_.isEmpty = false := by
        simp [running]
      unfold getNextLoop
      rw [hempty, if_neg (by decide)]
      simp only [running, hnext, toSize_natCast (Nat.lt_trans hlt (by omega : m + 1 < 2 ^ 64)),
        hloop, hsize, List.length_map, List.length_range, turn, if_neg (Nat.succ_ne_zero m)]
      rw [check_of (by omega), ok_bind]
      by_cases hwrap : m + 1 ≤ k % (m + 1) + 1
      · rw [if_pos hwrap, succ_mod_of_eq (Nat.succ_pos m) hwrap]
        rfl
      · rw [if_neg hwrap, succ_mod_of_lt (Nat.lt_of_not_le hwrap)]
        rfl

theorem getNextLoops_running {n : Nat} (hn : n < 2 ^ 31) (k : Nat) :
    (running n 0).getNextLoops k = .ok ((List.range k).map (turn n), running n (nextIndex n k)) := by
  induction k with
  | zero =>
      have hzero : nextIndex n 0 = 0 := by simp [nextIndex]
      rw [hzero]
      rfl
  | succ k ih =>
      rw [getNextLoops, ih, ok_bind]
      dsimp only
      rw [getNextLoop_running hn, ok_bind, List.range_succ, List.map_append]
      rfl

/-! ## Windows -/

/-- In `m` consecutive numbers a residue is taken by `m / n` of them, or by
one more. -/
theorem count_window {n i : Nat} (hi : i < n) (a m : Nat) :
    (List.range m).countP (fun j => (a + j) % n = i) = m / n ∨
      (List.range m).countP (fun j => (a + j) % n = i) = m / n + 1 := by
  have hn : 0 < n := Nat.zero_lt_of_lt hi
  have hiff (j : Nat) : (a + j) % n = i ↔ j ≡ i + (n - a % n) [MOD n] := by
    have hlt := Nat.mod_lt a hn
    have hback : a + (i + (n - a % n)) ≡ i [MOD n] := by
      have hsplit : a + (i + (n - a % n)) = i + n * (a / n + 1) := by
        have := Nat.div_add_mod a n
        rw [Nat.mul_add, Nat.mul_one]
        omega
      rw [hsplit]
      exact Nat.add_mul_mod_self_left _ _ _
    have hmod : i % n = i := Nat.mod_eq_of_lt hi
    constructor
    · intro h
      refine Nat.ModEq.add_left_cancel' a (Nat.ModEq.trans ?_ hback.symm)
      exact h.trans hmod.symm
    · intro h
      have hturn : a + j ≡ i [MOD n] := (h.add_left a).trans hback
      exact Eq.trans hturn hmod
  have hcount : (List.range m).countP (fun j => (a + j) % n = i) =
      m.count (· ≡ i + (n - a % n) [MOD n]) := by
    rw [Nat.count]
    exact List.countP_congr fun j _ => by simp only [decide_eq_true_eq, hiff]
  rw [hcount, Nat.count_modEq_card m hn]
  split
  · exact Or.inr rfl
  · exact Or.inl rfl

theorem count_turns {n i : Nat} (hi : i < n) (a m : Nat) :
    ((List.range' a m).map (turn n)).count (.thread i) =
      (List.range m).countP (fun j => (a + j) % n = i) := by
  rw [List.range'_eq_map_range, List.map_map, List.count_eq_countP, List.countP_map]
  refine List.countP_congr fun j _ => ?_
  simp [turn, Nat.ne_zero_of_lt hi]

/-- The loads of two loops in `m` consecutive calls. -/
theorem turns_fair {n i i' : Nat} (hi : i < n) (hi' : i' < n) (a m : Nat) :
    ((List.range' a m).map (turn n)).count (.thread i) ≤
      ((List.range' a m).map (turn n)).count (.thread i') + 1 := by
  rw [count_turns hi, count_turns hi']
  rcases count_window hi a m with h | h <;> rcases count_window hi' a m with h' | h' <;> omega

/-! ## The server's loops -/

/-- The server's own `getNextLoop` is that of the pool. -/
theorem getNextLoop_server {Tid : Type} {s : TcpServer Tid} (k : Nat)
    (h : (s.next_ : Int) = nextIndex s.numThreads k) :
    s.getNextLoop.1 = (turn s.numThreads k).number ∧
      (s.getNextLoop.2 : Int) = nextIndex s.numThreads (k + 1) := by
  unfold TcpServer.getNextLoop turn
  have hnext : s.next_ = if s.numThreads = 0 then 0 else k % s.numThreads := Int.ofNat.inj h
  by_cases hn : s.numThreads = 0
  · rw [if_pos hn] at hnext
    rw [if_pos hn, if_pos hn, hnext, nextIndex, if_pos hn]
    exact ⟨rfl, rfl⟩
  · rw [if_neg hn] at hnext
    rw [if_neg hn, if_neg hn, hnext, nextIndex, if_neg hn]
    refine ⟨rfl, congrArg Nat.cast ?_⟩
    by_cases hwrap : s.numThreads ≤ k % s.numThreads + 1
    · rw [if_pos hwrap, succ_mod_of_eq (Nat.pos_of_ne_zero hn) hwrap]
    · rw [if_neg hwrap, succ_mod_of_lt (Nat.lt_of_not_le hwrap)]

/-- Between two connections: `next_` of the pool, and where the connections
were placed. -/
structure InTurn {Tid : Type} (s : TcpServer Tid) : Prop where
  next_ : (s.next_ : Int) = nextIndex s.numThreads s.created
  placed : ∀ c < s.created, (s.conn c).loop = (turn s.numThreads c).number

section Server

variable {Tid : Type} {s s' : TcpServer Tid}

theorem InTurn.static (h : InTurn s) (hstatic : TcpServer.Static s s') : InTurn s' where
  next_ := by
    rw [hstatic.next_, hstatic.numThreads, hstatic.created]
    exact h.next_
  placed c hc := by
    rw [hstatic.created] at hc
    rw [(hstatic.conn c).1, hstatic.numThreads]
    exact h.placed c hc

theorem InTurn.create (h : InTurn s) : InTurn s.create where
  next_ := (getNextLoop_server s.created h.next_).2
  placed c hc := by
    rcases Nat.lt_or_eq_of_le (Nat.le_of_lt_succ hc) with hold | rfl
    · rw [TcpServer.conn_create_ne hold]
      exact h.placed c hold
    · rw [TcpServer.conn_create_self]
      exact (getNextLoop_server s.created h.next_).1

theorem inTurn_reachable [DecidableEq Tid] (hs : TcpServer.system.Reachable s) : InTurn s := by
  have hinv : (TcpServer.system : Lts (TcpServer Tid) _ _).Invariant InTurn := {
    init := by
      rintro s ⟨name, hostport, numThreads, rfl⟩
      refine ⟨?_, fun c hc => by cases hc⟩
      show (0 : Int) = (if numThreads = 0 then 0 else 0 % numThreads : Nat)
      rw [Nat.zero_mod, ite_self]
      rfl
    step := by
      intro s a s' h _ hn
      by_cases ha : a = .newConnection
      · subst ha
        exact h.create.static (TcpServer.effect_runInLoop hn).toStatic
      · exact h.static (TcpServer.static_next ha hn) }
  exact hinv.reachable hs

end Server

/-! ## Round robin -/

/-- What `k` calls of `getNextLoop` return on a pool started with `n` threads,
and `p'` after them: the loops in turn, an index that is valid, and in any
window loads that differ by one at most. -/
structure RoundRobin (n : Nat) (p : EventLoopThreadPool) (k : Nat) (loops : List LoopPtr)
    (p' : EventLoopThreadPool) : Prop where
  calls : p.getNextLoops k = .ok (loops, p')
  length : loops.length = k
  turns : ∀ i < k, loops[i]? = if n = 0 then some .base else p.loops_[i % n]?
  next_ : 0 < n → 0 ≤ p'.next_ ∧ p'.next_ < p'.loops_.length
  fair : ∀ a m, a + m ≤ k → ∀ loop ∈ p.loops_, ∀ loop' ∈ p.loops_,
    ((loops.drop a).take m).count loop ≤ ((loops.drop a).take m).count loop' + 1

theorem roundRobin_running {n : Nat} (hn : n < 2 ^ 31) (k : Nat) :
    RoundRobin n (running n 0) k ((List.range k).map (turn n)) (running n (nextIndex n k)) := by
  refine ⟨getNextLoops_running hn k, by simp, ?_, ?_, ?_⟩
  · intro i hi
    rw [List.getElem?_map, List.getElem?_range hi, Option.map_some, turn]
    by_cases hz : n = 0
    · rw [if_pos hz, if_pos hz]
    · rw [if_neg hz, if_neg hz]
      show _ = ((List.range n).map LoopPtr.thread)[i % n]?
      rw [List.getElem?_map, List.getElem?_range (Nat.mod_lt _ (Nat.pos_of_ne_zero hz))]
      rfl
  · intro hpos
    have hlt := Nat.mod_lt k hpos
    simp only [running, nextIndex, if_neg hpos.ne', List.length_map, List.length_range]
    omega
  · intro a m ham loop hl loop' hl'
    obtain ⟨i, hi, rfl⟩ := List.mem_map.mp hl
    obtain ⟨i', hi', rfl⟩ := List.mem_map.mp hl'
    have hwindow : (((List.range k).map (turn n)).drop a).take m =
        (List.range' a m).map (turn n) := by
      rw [← List.map_drop, ← List.map_take, List.range_eq_range', List.drop_range',
        List.take_range'_of_length_ge (by omega), Nat.zero_add, Nat.mul_one]
    rw [hwindow]
    exact turns_fair (List.mem_range.mp hi) (List.mem_range.mp hi') a m

/-- The pool goes round its loops, and a server with `n` threads places its
`k`th connection on loop `k mod n`: the loop the `k`th call returned. -/
theorem round_robin {Tid : Type} [DecidableEq Tid] {n : Nat} (hn : n < 2 ^ 31) :
    ∃ p, (new.setThreadNum n).start = .ok p ∧ p.loops_ = (List.range n).map .thread ∧
      (∀ k, ∃ loops p', RoundRobin n p k loops p') ∧
      ∀ s : TcpServer Tid, TcpServer.system.Reachable s → s.numThreads = n →
        ∃ loops p', p.getNextLoops s.created = .ok (loops, p') ∧ p'.next_ = s.next_ ∧
          ∀ c < s.created, loops[c]?.map LoopPtr.number = some (s.conn c).loop ∧
            (s.conn c).loop = if n = 0 then 0 else c % n + 1 := by
  refine ⟨_, start_new n, rfl, fun k => ⟨_, _, roundRobin_running hn k⟩, ?_⟩
  rintro s hs rfl
  have hturn := inTurn_reachable hs
  refine ⟨_, _, getNextLoops_running hn _, hturn.next_.symm, fun c hc => ?_⟩
  rw [hturn.placed c hc, List.getElem?_map, List.getElem?_range hc]
  refine ⟨rfl, ?_⟩
  unfold turn
  split <;> rfl

/-- The fourth call on three loops. -/
theorem round_robin_three : ∃ p loops p', (new.setThreadNum 3).start = .ok p ∧
    p.getNextLoops 4 = .ok (loops, p') ∧ loops[3]? = some (.thread 0) := by
  obtain ⟨p, hp, hloops, hcalls, -⟩ := @round_robin Unit _ 3 (by decide)
  obtain ⟨loops, p', h⟩ := hcalls 4
  refine ⟨p, loops, p', hp, h.calls, ?_⟩
  rw [h.turns 3 (by decide), hloops]
  rfl

end EventLoopThreadPool

end Muduo
