import Muduo.Http.ResponseReader
import Muduo.Server.Steps

/-!
# Names of connections

A connection's name is the server's, followed by the text `:ip:port#id` cut
to what a `char buf[32]` holds. The address takes up to 21 of its 31
characters, so that 8 digits of the counter may be left. When the counter
outgrows them, the last digit is lost, and the name is one that was given
out before: that of the connection with a tenth of the number.
-/

namespace Muduo

open Lib
open HttpResponse (decimal snprintf32 decimal_ne length_decimal_le_iff readNumber_decimal)

/-! ## Addresses -/

/-- What `InetAddress` keeps in a `sockaddr_in`: the four bytes of `sin_addr`,
and `sin_port` in host order. -/
structure InetAddress where
  a : UInt8
  b : UInt8
  c : UInt8
  d : UInt8
  port : UInt16
deriving DecidableEq, Repr

namespace InetAddress

/-- `inet_ntop`: four numbers with dots between them. -/
def toIp (addr : InetAddress) : Bytes :=
  decimal addr.a.toNat ++ str "." ++ decimal addr.b.toNat ++ str "." ++
    decimal addr.c.toNat ++ str "." ++ decimal addr.d.toNat

def toIpPort (addr : InetAddress) : Bytes :=
  snprintf32 (addr.toIp ++ str ":" ++ decimal addr.port.toNat)

end InetAddress

/-! ## Digits -/

theorem decimal_injective : Function.Injective decimal := by
  intro n m h
  have hread := readNumber_decimal n
  rw [h, readNumber_decimal] at hread
  exact (Option.some.inj hread).symm

theorem decimal_of_ten_le {n : Nat} (h : 10 ≤ n) :
    decimal n = decimal (n / 10) ++ decimal (n % 10) := by
  simp only [decimal]
  rw [Nat.toDigits_of_base_le (by decide) h, List.map_append,
    Nat.toDigits_of_lt_base (Nat.mod_lt _ (by decide))]

/-- A power of ten is one digit longer than the one before, which it begins
with. -/
theorem take_decimal_pow (d : Nat) : (decimal (10 ^ (d + 1))).take (d + 1) = decimal (10 ^ d) := by
  have hdiv : 10 ^ (d + 1) / 10 = 10 ^ d := by
    rw [Nat.pow_succ]
    exact Nat.mul_div_cancel _ (by decide)
  have hlen : (decimal (10 ^ d)).length = d + 1 := by
    refine Nat.le_antisymm ((length_decimal_le_iff (Nat.succ_pos d)).mpr ?_) ?_
    · exact Nat.pow_lt_pow_right (by decide) (Nat.lt_succ_self d)
    · refine Nat.lt_of_not_le fun hle => ?_
      cases d with
      | zero => exact decimal_ne 1 (List.eq_nil_of_length_eq_zero (Nat.le_zero.mp hle))
      | succ d =>
          exact Nat.lt_irrefl _ ((length_decimal_le_iff (Nat.succ_pos d)).mp hle)
  have hten : 10 ≤ 10 ^ (d + 1) := Nat.le_self_pow (Nat.succ_ne_zero d) 10
  rw [decimal_of_ten_le hten, hdiv, List.take_append_of_le_length hlen.ge, ← hlen,
    List.take_length]

namespace InetAddress

theorem length_toIp (addr : InetAddress) : addr.toIp.length ≤ 15 := by
  have hbyte (x : UInt8) : (decimal x.toNat).length ≤ 3 :=
    (length_decimal_le_iff (by decide)).mpr (Nat.lt_trans x.toNat_lt (by decide))
  have ha := hbyte addr.a
  have hb := hbyte addr.b
  have hc := hbyte addr.c
  have hd := hbyte addr.d
  have hdot : (str ".").length = 1 := rfl
  simp only [toIp, List.length_append, hdot]
  omega

/-- No address is cut. -/
theorem length_toIpPort (addr : InetAddress) : addr.toIpPort.length ≤ 21 := by
  have hip := addr.length_toIp
  have hport : (decimal addr.port.toNat).length ≤ 5 :=
    (length_decimal_le_iff (by decide)).mpr (Nat.lt_trans addr.port.toNat_lt (by decide))
  have hcolon : (str ":").length = 1 := rfl
  simp only [toIpPort, snprintf32, List.length_take, List.length_append, hcolon]
  omega

end InetAddress

namespace TcpServer

/-! ## The text of a name -/

/-- What `buf` holds for the connection with the number `id`. -/
def suffix (hostport : Bytes) (id : Nat) : Bytes :=
  snprintf32 (str ":" ++ hostport ++ str "#" ++ decimal id)

/-- The digits of the counter that `buf` has room for. -/
def idDigits (hostport : Bytes) : Nat := 29 - hostport.length

theorem suffix_eq {hostport : Bytes} (h : hostport.length ≤ 29) (id : Nat) :
    suffix hostport id =
      (str ":" ++ hostport ++ str "#") ++ (decimal id).take (idDigits hostport) := by
  have hlen : (str ":" ++ hostport ++ str "#").length = hostport.length + 2 := by
    simp only [List.length_append, show (str ":").length = 1 from rfl,
      show (str "#").length = 1 from rfl]
    omega
  rw [suffix, snprintf32, List.take_append, List.take_of_length_le (by omega), hlen, idDigits]
  congr 2
  omega

theorem suffix_inj {hostport : Bytes} (h : hostport.length < 29) {i j : Nat}
    (hi : i < 10 ^ idDigits hostport) (hj : j < 10 ^ idDigits hostport) :
    suffix hostport i = suffix hostport j ↔ i = j := by
  have hpos : 0 < idDigits hostport := Nat.sub_pos_of_lt h
  have hle := h.le
  rw [suffix_eq hle, suffix_eq hle, List.append_cancel_left_eq,
    List.take_of_length_le ((length_decimal_le_iff hpos).mpr hi),
    List.take_of_length_le ((length_decimal_le_iff hpos).mpr hj)]
  exact decimal_injective.eq_iff

/-- The first number that does not fit looks like a tenth of it. -/
theorem suffix_pow {hostport : Bytes} (h : hostport.length < 29) :
    suffix hostport (10 ^ idDigits hostport) = suffix hostport (10 ^ (idDigits hostport - 1)) := by
  have hpos : 0 < idDigits hostport := Nat.sub_pos_of_lt h
  obtain ⟨d, hd⟩ := Nat.exists_eq_succ_of_ne_zero hpos.ne'
  have hshort : (decimal (10 ^ d)).length ≤ d + 1 :=
    (length_decimal_le_iff (Nat.succ_pos d)).mpr
      (Nat.pow_lt_pow_right (by decide) (Nat.lt_succ_self d))
  rw [suffix_eq h.le, suffix_eq h.le, hd, Nat.succ_eq_add_one, Nat.add_sub_cancel,
    take_decimal_pow, List.take_of_length_le hshort]

/-! ## The two texts of a server -/

variable {Tid : Type} {s s' : TcpServer Tid} {l c : Nat}

/-- `name_` and `hostport_`, which nothing assigns after the constructor. -/
def texts (s : TcpServer Tid) : Bytes × Bytes := (s.name, s.hostport)

theorem texts_call {f : Functor} (h : s.call l f = .ok s') : s'.texts = s.texts := by
  unfold call at h
  split at h
  · obtain ⟨_, _, _, rfl⟩ := connectEstablished_ok h
    rfl
  · obtain ⟨_, ⟨_, rfl⟩ | ⟨_, rfl⟩⟩ := connectDestroyed_ok h <;> rfl
  · obtain ⟨_, _, _, rfl⟩ := removeConnectionInLoop_ok h
    rfl

theorem texts_runInLoop {caller : Nat} {f : Functor} (h : s.runInLoop caller l f = .ok s') :
    s'.texts = s.texts := by
  rcases runInLoop_ok h with ⟨_, h⟩ | ⟨_, rfl⟩
  · exact texts_call h
  · rfl

theorem texts_step (h : s.step l = .ok s') : s'.texts = s.texts := by
  unfold step at h
  split at h
  case h_4 =>
    obtain ⟨_, _, h⟩ := bind_eq_ok h
    exact (texts_runInLoop h).trans rfl
  case h_8 =>
    split at h
    · exact (texts_runInLoop h).trans rfl
    · cases h
      rfl
  case h_9 =>
    split at h <;> cases h <;> rfl
  all_goals
    cases h
    rfl

theorem texts_next [DecidableEq Tid] {a : Event Tid} (h : s.next a = .ok s') :
    s'.texts = s.texts := by
  cases a with
  | newConnection => exact (texts_runInLoop (s := s.create) h).trans rfl
  | step l => exact texts_step h
  | functor l =>
      simp only [next] at h
      split at h
      · cases h
        rfl
      · exact (texts_call h).trans rfl
  | close c =>
      obtain ⟨_, _, rfl⟩ := handleClose_ok h
      rfl
  | shutdownTest t c =>
      cases h
      split <;> rfl
  | _ =>
      cases h
      rfl

/-! ## The names given out -/

/-- Each connection has the name its number gives. -/
def Numbered (s : TcpServer Tid) : Prop :=
  ∀ c < s.created, (s.conn c).name = s.name ++ suffix s.hostport (c + 1)

theorem Numbered.static (h : s.Numbered) (htexts : s'.texts = s.texts) (hstatic : Static s s') :
    s'.Numbered := by
  intro c hc
  rw [hstatic.created] at hc
  rw [(hstatic.conn c).2, h c hc, (Prod.mk.inj htexts).1, (Prod.mk.inj htexts).2]

theorem Numbered.create (h : s.Numbered) : s.create.Numbered := by
  intro c hc
  rcases Nat.lt_or_eq_of_le (Nat.le_of_lt_succ hc) with hold | rfl
  · rw [conn_create_ne hold]
    exact h c hold
  · rw [conn_create_self]
    rfl

theorem numbered_reachable [DecidableEq Tid] (hs : system.Reachable s) : s.Numbered := by
  have hinv : (system : Lts (TcpServer Tid) _ _).Invariant Numbered := {
    init := by
      rintro s ⟨name, hostport, numThreads, rfl⟩ c hc
      cases hc
    step := by
      intro s a s' h _ hn
      by_cases ha : a = .newConnection
      · subst ha
        exact h.create.static (texts_runInLoop hn) (effect_runInLoop hn).toStatic
      · exact h.static (texts_next hn) (static_next ha hn) }
  exact hinv.reachable hs

theorem Numbered.name_eq_iff (h : s.Numbered) {c c' : Nat} (hc : c < s.created)
    (hc' : c' < s.created) : (s.conn c).name = (s.conn c').name ↔
      suffix s.hostport (c + 1) = suffix s.hostport (c' + 1) := by
  rw [h c hc, h c' hc', List.append_cancel_left_eq]

/-- The names are distinct as long as the counter has not outgrown the digits
it is left, and no longer. -/
theorem Numbered.distinct_iff (h : s.Numbered) (hlen : s.hostport.length < 29) :
    s.Distinct ↔ s.created < 10 ^ idDigits s.hostport := by
  constructor
  · intro hd
    by_contra hge
    have hpos : 0 < idDigits s.hostport := Nat.sub_pos_of_lt hlen
    have hlow : 0 < 10 ^ (idDigits s.hostport - 1) := Nat.pow_pos (by decide)
    have hlt : 10 ^ (idDigits s.hostport - 1) < 10 ^ idDigits s.hostport :=
      Nat.pow_lt_pow_right (by decide) (Nat.sub_lt hpos (by decide))
    have hc : 10 ^ idDigits s.hostport - 1 < s.created := by omega
    have hc' : 10 ^ (idDigits s.hostport - 1) - 1 < s.created := by omega
    have hsame : (s.conn (10 ^ idDigits s.hostport - 1)).name =
        (s.conn (10 ^ (idDigits s.hostport - 1) - 1)).name := by
      rw [h.name_eq_iff hc hc', Nat.sub_add_cancel (hlow.trans hlt), Nat.sub_add_cancel hlow]
      exact suffix_pow hlen
    have heq := hd _ _ hc hc' hsame
    omega
  · intro hfit c c' hc hc' hname
    rw [h.name_eq_iff hc hc', suffix_inj hlen (by omega) (by omega)] at hname
    exact Nat.succ.inj hname

/-- The next connection takes the name of none before it. -/
theorem Numbered.connName_ne (h : s.Numbered) (hlen : s.hostport.length < 29)
    (hfit : s.created + 1 < 10 ^ idDigits s.hostport) (hc : c < s.created) :
    (s.conn c).name ≠ s.connName := by
  intro hname
  have hsuffix : suffix s.hostport (c + 1) = suffix s.hostport (s.created + 1) :=
    List.append_cancel_left ((h c hc).symm.trans hname)
  rw [suffix_inj hlen (by omega) hfit] at hsuffix
  omega

/-! ## A server that only accepts -/

/-- `n` connections were accepted for the one I/O loop, which has run none of
their functors: every name is still in `connections_`. -/
structure Accepting (s : TcpServer Tid) (hostport : Bytes) (n : Nat) : Prop where
  hostport : s.hostport = hostport
  created : s.created = n
  numThreads : s.numThreads = 1
  next_ : s.next_ = 0
  alive : s.alive = true
  base : s.loop 0 = ⟨.empty, [], false, false⟩
  kept : ∀ c < n, ∃ e ∈ s.connections, e.1 = (s.conn c).name

theorem mem_assign_iff {m : List (Bytes × Nat)} {name : Bytes} {c : Nat} {e : Bytes × Nat} :
    e ∈ assign m name c ↔ e = (name, c) ∨ e ∈ m ∧ e.1 ≠ name := by
  rw [assign, List.mem_orderedInsert, List.mem_filter, decide_eq_true_eq]

theorem Accepting.next [DecidableEq Tid] {hostport : Bytes} {n : Nat}
    (h : s.Accepting hostport n) : ∃ s', system.enabled s (.newConnection : Event Tid) ∧
      s.next .newConnection = .ok s' ∧ s'.Accepting hostport (n + 1) := by
  have hloop : s.getNextLoop = (1, 0) := by
    rw [getNextLoop, if_neg (by rw [h.numThreads]; decide), h.next_, h.numThreads]
    rfl
  refine ⟨s.create.queueInLoop 1 ⟨.connectEstablished, s.created⟩, ?_, ?_, ?_⟩
  · show (s.alive && s.idle 0 && (s.loop 0).functors.isHandling) = true
    rw [idle, h.alive, h.base]
    rfl
  · show s.newConnection = _
    rw [newConnection, hloop, runInLoop, if_neg (by decide)]
  · refine ⟨h.hostport, congrArg (· + 1) h.created, h.numThreads, congrArg Prod.snd hloop,
      h.alive, ?_, ?_⟩
    · rw [queueInLoop, setFunctors, loop_setLoop_ne (by decide)]
      exact h.base
    · intro c hc
      show ∃ e ∈ assign s.connections s.connName s.created, e.1 = (s.create.conn c).name
      rcases Nat.lt_or_eq_of_le (Nat.le_of_lt_succ hc) with hold | rfl
      · rw [conn_create_ne (by rwa [h.created])]
        obtain ⟨e, he, heq⟩ := h.kept c hold
        by_cases hname : e.1 = s.connName
        · exact ⟨_, mem_assign_iff.mpr (Or.inl rfl), hname.symm.trans heq⟩
        · exact ⟨e, mem_assign_iff.mpr (Or.inr ⟨he, hname⟩), heq⟩
      · rw [← h.created, conn_create_self]
        exact ⟨_, mem_assign_iff.mpr (Or.inl rfl), rfl⟩

theorem exists_accepting [DecidableEq Tid] (name hostport : Bytes) (n : Nat) :
    ∃ s : TcpServer Tid, system.Reachable s ∧ s.Accepting hostport n := by
  induction n with
  | zero =>
      refine ⟨new name hostport 1, .of_init ⟨_, _, _, rfl⟩, rfl, rfl, rfl, rfl, rfl, rfl, ?_⟩
      intro c hc
      cases hc
  | succ n ih =>
      obtain ⟨s, hs, hacc⟩ := ih
      obtain ⟨s', he, hn, hacc'⟩ := hacc.next
      exact ⟨s', hs.step he hn, hacc'⟩

/-- The longest text there is of an address. -/
def broadcast : InetAddress := ⟨255, 255, 255, 255, 65535⟩

theorem length_broadcast : broadcast.toIpPort.length = 21 := by decide

/-! ## Uniqueness -/

/-- Names are unique exactly while the number of connections has no more
digits than the address leaves room for; until then `connections_[connName] =
conn` finds no entry to overwrite. -/
theorem names_unique_iff [DecidableEq Tid] {addr : InetAddress} (hs : system.Reachable s)
    (haddr : s.hostport = addr.toIpPort) :
    (s.Distinct ↔ s.created < 10 ^ (29 - addr.toIpPort.length)) ∧
      (s.created + 1 < 10 ^ (29 - addr.toIpPort.length) →
        ∀ e ∈ s.connections, e.1 ≠ s.connName) := by
  have hnum := numbered_reachable hs
  have hlen : s.hostport.length < 29 := by
    rw [haddr]
    exact Nat.lt_of_le_of_lt addr.length_toIpPort (by decide)
  rw [← haddr]
  refine ⟨hnum.distinct_iff hlen, fun hfit e he => ?_⟩
  obtain ⟨hname, hc⟩ := (placed_reachable hs).entries e he
  rw [hname]
  exact hnum.connName_ne hlen hfit hc

/-- A thousand connections to that address. -/
theorem names_unique_thousand : ∃ s : TcpServer Unit, system.Reachable s ∧ s.created = 1000 ∧
    s.Distinct ∧ ∀ e ∈ s.connections, e.1 ≠ s.connName := by
  obtain ⟨s, hs, h⟩ := @exists_accepting Unit _ (str "srv") broadcast.toIpPort 1000
  obtain ⟨hiff, hfresh⟩ := names_unique_iff hs h.hostport
  rw [h.created, length_broadcast] at hiff hfresh
  exact ⟨s, hs, h.created, hiff.mpr (by decide), hfresh (by decide)⟩

/-- The hundred millionth connection to it is given the name of the ten
millionth, and takes its place in `connections_`. -/
theorem names_unique_not_long :
    ¬∀ (s : TcpServer Unit) (addr : InetAddress), system.Reachable s →
      s.hostport = addr.toIpPort → s.created + 1 < 2 ^ 31 - 1 →
      s.Distinct ∧ ∀ e ∈ s.connections, e.1 ≠ s.connName := by
  intro hall
  obtain ⟨s, hs, h⟩ := @exists_accepting Unit _ (str "srv") broadcast.toIpPort (10 ^ 8 - 1)
  have hdigits : idDigits s.hostport = 8 := by rw [h.hostport, idDigits, length_broadcast]
  have hlen : s.hostport.length < 29 := by rw [h.hostport, length_broadcast]; decide
  obtain ⟨e, he, hname⟩ := h.kept (10 ^ 7 - 1) (by decide)
  have hold : (s.conn (10 ^ 7 - 1)).name = s.name ++ suffix s.hostport (10 ^ 7) :=
    numbered_reachable hs _ (by rw [h.created]; decide)
  have hpow := suffix_pow hlen
  rw [hdigits] at hpow
  refine (hall s broadcast hs h.hostport (by rw [h.created]; decide)).2 e he ?_
  rw [hname, hold, connName, h.created]
  exact congrArg (s.name ++ ·) hpow.symm

end TcpServer

end Muduo
