import Muduo.Net.Echo

/-!
# What comes back from the echo server

The runs of `EchoLink.echo`: the bytes that were typed, what each end has of
them at any point, when all of them have come back (`Follows.all_back_iff`), and
why both programs come to an end: an event that is not the user's moves bytes
on, or gives an end up (`Sound.weight_step`), and there is one as long as
something is left (`Sound.inFlight_of_idle`, `Sound.closed_of_idle`).
-/

namespace Muduo

open Lib Buffer

namespace EchoLink

variable {k : Side → Kernel} {k₀ : Kernel} {s s' : EchoLink} {e e' : Endpoint} {a : EchoEvent}
  {as : List EchoEvent}

/-! ## What was typed -/

theorem typedLines_snoc (as : List EchoEvent) (a : EchoEvent) (h : .disconnect ∉ as) :
    typedLines (as ++ [a]) = typedLines as ++ typedLines [a] := by
  induction as with
  | nil => rfl
  | cons b as ih =>
      have hrest := ih fun hmem => h (List.mem_cons_of_mem b hmem)
      cases b with
      | send message => exact congrArg (message :: ·) hrest
      | disconnect => exact absurd List.mem_cons_self h
      | handleRead x readv => exact hrest
      | destroyed x => exact hrest

/-- Nothing is sent any more. -/
theorem typedLines_after (as : List EchoEvent) (a : EchoEvent) (h : .disconnect ∈ as) :
    typedLines (as ++ [a]) = typedLines as := by
  induction as with
  | nil => cases h
  | cons b as ih =>
      cases b with
      | disconnect => rfl
      | send message =>
          exact congrArg (message :: ·) (ih ((List.mem_cons.mp h).resolve_left fun h => by cases h))
      | handleRead x readv => exact ih ((List.mem_cons.mp h).resolve_left fun h => by cases h)
      | destroyed x => exact ih ((List.mem_cons.mp h).resolve_left fun h => by cases h)

theorem typedLines_other (as : List EchoEvent) (a : EchoEvent) (h : typedLines [a] = []) :
    typedLines (as ++ [a]) = typedLines as := by
  by_cases hmem : .disconnect ∈ as
  · exact typedLines_after as a hmem
  · rw [typedLines_snoc as a hmem, h, List.append_nil]

theorem mem_disconnect_snoc (h : a ≠ .disconnect) :
    EchoEvent.disconnect ∈ as ++ [a] ↔ .disconnect ∈ as := by
  rw [List.mem_append, List.mem_singleton]
  exact or_iff_left fun heq => h heq.symm

/-- The client's socket after the events `as`. -/
structure Typed (as : List EchoEvent) (e : Endpoint) : Prop where
  writes : e.conn.socket.writes = typedLines as
  writeClosed : e.conn.socket.writeClosed = true ↔ .disconnect ∈ as

theorem Typed.same (h : Typed as e) (hsocket : e'.conn.socket = e.conn.socket)
    (htyped : typedLines [a] = []) (ha : a ≠ .disconnect) : Typed (as ++ [a]) e' where
  writes := by rw [hsocket, h.writes, typedLines_other as a htyped]
  writeClosed := by rw [hsocket, mem_disconnect_snoc ha, h.writeClosed]

theorem Typed.step (h : Typed as (s .client)) (hs : Sound k (s .client) (s .server))
    (hstep : Step k s a s') : Typed (as ++ [a]) (s' .client) := by
  have hleft (hc : (s .client).conn.state ≠ .kConnected) : .disconnect ∈ as := by
    rw [← h.writeClosed]
    exact Bool.eq_true_of_not_eq_false fun hopen => hc (hs.connected.mpr hopen)
  cases hstep with
  | @wrote message hc =>
      have hopen := hs.connected.mp hc
      have hnot : .disconnect ∉ as := fun hmem => by
        rw [h.writeClosed.mpr hmem] at hopen
        cases hopen
      rw [set_same, TcpConnection.sendInLoop, Socket.write_open hopen]
      refine ⟨?_, ?_⟩
      · rw [typedLines_snoc as _ hnot, ← h.writes]
        rfl
      · rw [mem_disconnect_snoc fun h => by cases h]
        exact h.writeClosed
  | refused hc =>
      exact ⟨h.writes.trans (typedLines_after as _ (hleft hc)).symm,
        h.writeClosed.trans (mem_disconnect_snoc fun h => by cases h).symm⟩
  | left hc =>
      have hnot : .disconnect ∉ as := fun hmem => by
        have hopen := hs.connected.mp hc
        rw [h.writeClosed.mpr hmem] at hopen
        cases hopen
      rw [set_same]
      refine ⟨?_, iff_of_true rfl (List.mem_append_right _ List.mem_cons_self)⟩
      rw [typedLines_snoc as _ hnot, ← h.writes]
      exact (List.append_nil _).symm
  | leaving hc =>
      have hmem := hleft hc
      exact ⟨h.writes.trans (typedLines_after as _ hmem).symm,
        iff_of_true (h.writeClosed.mpr hmem) (List.mem_append_left _ hmem)⟩
  | @message x =>
      cases x with
      | client => exact h.same (by rw [set_same]; rfl) rfl fun h => by cases h
      | server => exact h.same (by rw [set_server_client]) rfl fun h => by cases h
  | @eof x =>
      cases x with
      | client => exact h.same (by rw [set_same]; rfl) rfl fun h => by cases h
      | server => exact h.same (by rw [set_server_client]) rfl fun h => by cases h
  | failed => exact h.same rfl rfl fun h => by cases h
  | @destroyed x =>
      cases x with
      | client => exact h.same (by rw [set_same]) rfl fun h => by cases h
      | server => exact h.same (by rw [set_server_client]) rfl fun h => by cases h

/-! ## How long it takes -/

/-- What an event may add to what is left to do; each takes one away. -/
def gain : EchoEvent → Nat
  | .send message => 2 * message.length + 1
  | .disconnect => 1
  | .handleRead _ readv => if readv.n < 0 then 1 else 0
  | .destroyed _ => 0

/-- An end has to read to the end of the stream and to close its descriptor. -/
def pending (e : Endpoint) : Nat := (if e.reading then 1 else 0) + if e.closed then 0 else 1

theorem pending_eof (hr : e.reading = true) (conn : TcpConnection) :
    pending { e with conn := conn, reading := false } + 1 = pending e := by
  simp only [pending, hr, if_true, Bool.false_eq_true, if_false]
  omega

theorem pending_destroyed (hc : e.closed = false) :
    pending { e with closed := true } + 1 = pending e := by
  simp only [pending, hc, if_true, Bool.false_eq_true, if_false]

/-- A byte for the server is read twice. -/
def weight (s : EchoLink) : Nat :=
  2 * (s.inFlight .server).length + (s.inFlight .client).length + pending (s .client) +
    pending (s .server)

theorem weight_eq (s : EchoLink) : s.weight =
    2 * ((s .client).conn.socket.accepted.length - (s .server).read) +
      ((s .server).conn.socket.accepted.length - (s .client).read) + pending (s .client) +
      pending (s .server) := by
  unfold weight inFlight
  rw [List.length_drop, List.length_drop]
  rfl

theorem length_sendInLoop (c : TcpConnection) (data : Bytes) :
    (c.sendInLoop k₀ data).socket.accepted.length ≤ c.socket.accepted.length + data.length := by
  unfold TcpConnection.sendInLoop Socket.write
  split
  · exact Nat.le_add_right _ _
  · rw [List.length_append]
    exact Nat.add_le_add_left (List.take_sublist _ _).length_le _

theorem Sound.weight_step (h : Sound k (s .client) (s .server)) (hstep : Step k s a s') :
    s'.weight + 1 ≤ s.weight + gain a := by
  rw [weight_eq, weight_eq]
  cases hstep with
  | @wrote message =>
      have hlen := @length_sendInLoop (k .client) (s .client).conn message
      rw [set_same, set_client_server]
      simp only [gain, pending]
      omega
  | refused => simp only [gain]; omega
  | left =>
      rw [set_same, set_client_server]
      simp only [gain, pending, Socket.shutdownWrite]
      omega
  | leaving => simp only [gain]; omega
  | @message x readv buf hn hdata hr =>
      have hlen := hdata.length_le
      have hstored := readv.stored
      have hnot : ¬readv.n < 0 := by omega
      rw [inFlight, List.length_drop] at hlen
      cases x with
      | client =>
          rw [set_same, set_client_server]
          simp only [gain, pending, reply, if_neg hnot, Side.peer] at hlen ⊢
          omega
      | server =>
          have hgrown := @length_sendInLoop (k .server) (s .server).conn readv.data
          rw [set_same, set_server_client]
          simp only [gain, pending, reply, if_neg hnot, Side.peer,
            TcpConnection.sendPiece_connected (h.serverUp hr)] at hlen ⊢
          omega
  | @eof x readv hz _ _ hr =>
      have hpending := pending_eof hr ((s x).conn.setState .kDisconnected)
      have hnot : ¬readv.n < 0 := by omega
      cases x with
      | client =>
          rw [set_same, set_client_server]
          simp only [gain, if_neg hnot, TcpConnection.setState] at hpending ⊢
          omega
      | server =>
          rw [set_same, set_server_client]
          simp only [gain, if_neg hnot, TcpConnection.setState] at hpending ⊢
          omega
  | failed hn => simp only [gain, if_pos hn]; omega
  | @destroyed x hr hc =>
      have hpending := pending_destroyed hc
      cases x with
      | client =>
          rw [set_same, set_client_server]
          simp only [gain]
          omega
      | server =>
          rw [set_same, set_server_client]
          simp only [gain]
          omega

/-! ## Whole runs -/

/-- After the events `as`. -/
structure Follows (k : Side → Kernel) (as : List EchoEvent) (s : EchoLink) : Prop where
  sound : Sound k (s .client) (s .server)
  typed : Typed as (s .client)

theorem follows_established (k : Side → Kernel) : Follows k [] established where
  sound := sound_established k
  typed := ⟨rfl, iff_of_false (fun h => by cases h) fun h => by cases h⟩

theorem follows_of_run (hrun : (echo k).Run established as s) : Follows k as s := by
  induction hrun with
  | nil => exact follows_established k
  | snoc _ he hn ih =>
      have hstep := ih.sound.step_of_ok he hn
      exact ⟨ih.sound.step hstep, ih.typed.step ih.sound hstep⟩

theorem length_le_of_run (hrun : (echo k).Run established as s) :
    as.length ≤ 4 + Lts.total gain as := by
  have hlen := hrun.length_le (I := fun s : EchoLink => Sound k (s .client) (s .server)) weight gain
    (fun s a s' h he hn => h.step (h.step_of_ok he hn))
    (fun s a s' h he hn => h.weight_step (h.step_of_ok he hn)) (sound_established k)
  have hstart : weight established = 4 := rfl
  omega

/-- What there is room for is read without a fault. -/
theorem Sound.runs (h : Sound k (s .client) (s .server)) (he : s.Enabled a)
    (hroom : ∀ x readv, a = .handleRead x readv →
      readv.data.length ≤ (s x).inputBuffer.1.writableBytes) : ∃ s', next k s a = .ok s' := by
  rcases h.next_cases he with ⟨s', hok, -⟩ | ⟨x, readv, ha, -, hover, -⟩
  · exact ⟨s', hok⟩
  · exact absurd (hroom x readv ha) (Nat.not_le_of_lt hover)

/-- The result of a read at the end of the stream, and of a read of one byte. -/
def endOfStream : Readv := ⟨0, 0, [], rfl⟩
def oneByte (byte : UInt8) : Readv := ⟨1, 0, [byte], rfl⟩

/-- Nothing is left that would go on by itself. -/
def Idle (k : Side → Kernel) (s : EchoLink) : Prop :=
  ∀ a s', gain a = 0 → s.Enabled a → next k s a ≠ .ok s'

theorem Sound.inFlight_of_idle (h : Sound k (s .client) (s .server)) (hidle : Idle k s) (x : Side) :
    s.inFlight x = [] := by
  by_contra hne
  obtain ⟨byte, rest, hbytes⟩ := List.exists_cons_of_ne_nil hne
  have hr : (s x).reading = true := by
    by_contra hr
    refine hne (List.drop_eq_nil_of_le ?_)
    cases x with
    | client => exact (h.clientDone (Bool.eq_false_of_not_eq_true hr)).2.ge
    | server => exact (h.serverDone (Bool.eq_false_of_not_eq_true hr)).2.ge
  have he : s.Enabled (.handleRead x (oneByte byte)) := by
    refine ⟨hr, ?_, ?_, fun h => by cases h⟩
    · have hone : (1 : Int) ≤ extrabufSize := by decide
      change (1 : Int) ≤ _
      omega
    · rw [hbytes]
      exact ⟨rest, rfl⟩
  obtain ⟨s', hs'⟩ := h.runs he fun y readv heq => by
    obtain ⟨rfl, rfl⟩ := EchoEvent.handleRead.inj heq
    exact (h.got x).drained.room
  exact hidle _ s' rfl he hs'

/-- An end at whose peer the stream has ended is given up. -/
theorem Sound.closed_of_idle (h : Sound k (s .client) (s .server)) (hidle : Idle k s) {x : Side}
    (hfin : (s x.peer).Finished) : (s x).closed = true := by
  by_contra hclosed
  have hopen := Bool.eq_false_of_not_eq_true hclosed
  by_cases hr : (s x).reading = true
  · have he : s.Enabled (.handleRead x endOfStream) :=
      ⟨hr, Int.natCast_nonneg _, List.nil_prefix, fun _ => ⟨h.inFlight_of_idle hidle x, hfin⟩⟩
    obtain ⟨s', hs'⟩ := h.runs he fun y readv heq => by
      obtain ⟨rfl, rfl⟩ := EchoEvent.handleRead.inj heq
      exact Nat.zero_le _
    exact hidle _ s' rfl he hs'
  · exact hidle (.destroyed x) _ rfl ⟨Bool.eq_false_of_not_eq_true hr, hopen⟩ rfl

/-- All of it came back. -/
theorem Follows.all_back_iff (h : Follows k as s) (hdone : (s .client).reading = false) :
    (s .client).messages.flatten = (typedLines as).flatten ↔
      (k .client).taken (typedLines as) = typedLines as ∧
      (k .server).taken (s .server).messages = (s .server).messages := by
  have hclient := h.sound.clientDone hdone
  have hserver := h.sound.serverDone (h.sound.serverLives.closed hclient.1)
  have hup : (s .server).messages.flatten = ((k .client).taken (typedLines as)).flatten := by
    rw [h.sound.serverGot.messages, hserver.2, List.take_length, h.sound.clientGot.accepted,
      h.typed.writes]
  have hdown : (s .client).messages.flatten =
      ((k .server).taken (s .server).messages).flatten := by
    rw [h.sound.clientGot.messages, hclient.2, List.take_length, h.sound.serverGot.accepted,
      h.sound.echoed]
  constructor
  · intro hall
    have hu := ((k .client).taken_sublist (typedLines as)).length_le
    have hd := ((k .server).taken_sublist (s .server).messages).length_le
    rw [← hdown, hall, hup] at hd
    refine ⟨(k .client).taken_eq_of_length (Nat.le_antisymm hu hd),
      (k .server).taken_eq_of_length ?_⟩
    rw [← hdown, hall, hup]
    exact Nat.le_antisymm hd hu
  · rintro ⟨hu, hd⟩
    rw [hdown, hd, hup, hu]

/-- **What comes back from the echo server.** At any point of any run, under
any behaviour of the two kernels, the server has read a prefix of what the
client's kernel took of the lines typed, and the client a prefix of what the
server's kernel took of that; the client loses its connection only after it
has read the last byte, and then it has back all that was typed exactly when
no `write(2)` of either end was short. No assertion fails, and no fault comes
up before a peer has sent close to `max_size()` bytes. A run is no longer than
what was sent, the reads that failed and the disconnects allow for, and when
nothing is left to happen, no byte is on its way, and both ends are closed if
the client has disconnected. -/
theorem echo_returns (k : Side → Kernel) (as : List EchoEvent) (s : EchoLink)
    (hrun : (echo k).Run established as s) :
    (s .server).messages.flatten <+: ((k .client).taken (typedLines as)).flatten ∧
    (s .client).messages.flatten <+: ((k .server).taken (s .server).messages).flatten ∧
    (s .client).messages.flatten.Sublist (typedLines as).flatten ∧
    ((s .client).reading = false →
      ((s .client).messages.flatten = (typedLines as).flatten ↔
        (k .client).taken (typedLines as) = typedLines as ∧
        (k .server).taken (s .server).messages = (s .server).messages)) ∧
    (∀ a e, s.Enabled a → next k s a = .error e → e = .buffer .lengthError ∧
      ∃ x, maxSize < kCheapPrepend + kInitialSize + (s x).conn.socket.accepted.length) ∧
    as.length ≤ 4 + Lts.total gain as ∧
    (Idle k s → ∀ x, s.inFlight x = [] ∧
      (.disconnect ∈ as → (s x).reading = false ∧ (s x).closed = true)) := by
  have h := follows_of_run hrun
  have hserver : (s .server).messages.flatten <+: ((k .client).taken (typedLines as)).flatten := by
    rw [h.sound.serverGot.messages, h.sound.clientGot.accepted, h.typed.writes]
    exact List.take_prefix _ _
  have hclient : (s .client).messages.flatten <+:
      ((k .server).taken (s .server).messages).flatten := by
    rw [h.sound.clientGot.messages, h.sound.serverGot.accepted, h.sound.echoed]
    exact List.take_prefix _ _
  refine ⟨hserver, hclient, ?_, h.all_back_iff, ?_, length_le_of_run hrun, ?_⟩
  · have hback := hclient.sublist.trans (Kernel.taken_sublist _ _)
    exact (hback.trans hserver.sublist).trans (Kernel.taken_sublist _ _)
  · intro a e he herr
    rcases h.sound.next_cases he with ⟨s', hok, -⟩ | ⟨x, readv, rfl, hlen, -, hover⟩
    · rw [hok] at herr
      cases herr
    · rw [hlen] at herr
      refine ⟨(Except.error.inj herr).symm, x.peer, ?_⟩
      have hgot := h.sound.got x
      have hsize := hgot.size
      have hle := hgot.read_le
      have hdata := he.2.2.1.length_le
      rw [hgot.messages, List.length_take, Nat.min_eq_left hle] at hsize
      rw [inFlight, List.length_drop] at hdata
      omega
  · intro hidle x
    refine ⟨h.sound.inFlight_of_idle hidle x, fun hmem => ?_⟩
    have hfin : (s .server).closed = true :=
      h.sound.closed_of_idle hidle (Or.inl (h.typed.writeClosed.mpr hmem))
    have hclosed : (s x).closed = true := by
      cases x with
      | client => exact h.sound.closed_of_idle hidle (Or.inr hfin)
      | server => exact hfin
    exact ⟨(h.sound.lives x).closed hclosed, hclosed⟩

/-- A line, read by the server at once and by the client in two parts. -/
def hiThere : List EchoEvent :=
  [.send (str "hi"), .handleRead .server ⟨2, 0, str "hi", rfl⟩,
    .handleRead .client (oneByte 104), .disconnect, .handleRead .client (oneByte 105),
    .handleRead .server endOfStream, .destroyed .server, .handleRead .client endOfStream]

theorem echo_returns_hiThere : ∃ s : EchoLink, (s .client).reading = false ∧
    (s .client).messages.flatten = str "hi" := by
  obtain ⟨s, hs, hp⟩ := Option.map_eq_some_iff.mp
    (show ((echo fun _ => .eager).exec established hiThere).map
      (fun s => decide ((s .client).reading = false ∧ (s .server).messages = [str "hi"])) =
        some true by decide +kernel)
  obtain ⟨hreading, hmessages⟩ := of_decide_eq_true hp
  have hall := (echo_returns _ _ s (Lts.run_of_exec hs)).2.2.2.1 hreading
  refine ⟨s, hreading, hall.mpr ⟨by decide, ?_⟩⟩
  rw [hmessages]
  decide

end EchoLink

end Muduo
