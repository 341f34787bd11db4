import Muduo.Echo.PollServer

/-!
# The epoll server, and what is echoed

The main loop of `echosrv_epoll.cpp` over any results of `epoll_wait` and of
the calls made for each event: an `accept4` that finds no free descriptor uses
the spare one to be rid of the connection, and the client branch is that of the
poll server.

At the end the records of both servers are compared with what an echo server
should do. A client is sent what it has sent exactly as long as none of its
chunks holds a NUL or fills the array (`echo_exact_iff`).
-/

namespace Muduo

open Lib

namespace Echo

namespace EpollServer

def EPOLLIN : BitVec 32 := 1

/-- What `accept4` returns: a descriptor, or -1 with `errno`. -/
inductive AcceptResult where
  | connfd (fd : Int)
  | EMFILE
  | failed
deriving DecidableEq, Repr

/-- An element of `events`, and what the calls made for it return; `opened` is
the result of `open("/dev/null")`. -/
structure Reported where
  fd : Int
  events : BitVec 32
  accept4 : AcceptResult
  accept : Int
  opened : Int
  read : ReadResult
deriving DecidableEq, Repr

end EpollServer

/-- `events` is the size of that vector. -/
structure EpollServer where
  listenfd : Int
  idlefd : Int
  clients : List Int
  events : Nat
  /-- The calls since the main loop was entered. -/
  calls : List Call
  exited : Bool
deriving DecidableEq, Repr

namespace EpollServer

def record (s : EpollServer) (calls : List Call) : EpollServer :=
  { s with calls := s.calls ++ calls }

/-- The body of the `for` loop, for `events[i]`. -/
def handle (s : EpollServer) (e : Reported) : EpollServer :=
  if e.fd = s.listenfd then
    match e.accept4 with
    | .connfd connfd =>
        { s.record [.accept4 connfd, .epollAdd connfd] with clients := s.clients ++ [connfd] }
    | .EMFILE =>
        { s.record [.accept4 (-1), .close s.idlefd, .accept e.accept, .close e.accept,
            .openNull e.opened] with
          idlefd := e.opened }
    | .failed => { s.record [.accept4 (-1)] with exited := true }
  else if e.events &&& EPOLLIN ≠ 0 then
    let connfd := e.fd
    if connfd < 0 then s
    else
      match e.read with
      | .failed => { s.record [.read connfd .failed] with exited := true }
      | .data chunk =>
          if chunk.bytes = [] then
            { s.record [.read connfd (.data chunk), .close connfd, .epollDel connfd] with
              clients := s.clients.filter (· ≠ connfd) }
          else s.record [.read connfd (.data chunk), .write connfd chunk.reply]
  else s

/-- The `for` loop; `exit` leaves it. -/
def handleAll (s : EpollServer) : List Reported → EpollServer
  | [] => s
  | e :: events =>
      let s := s.handle e
      if s.exited then s else handleAll s events

/-- What `epoll_wait` returns. -/
inductive Event where
  /-- `-1`, with `errno == EINTR` or not. -/
  | failed (eintr : Bool)
  | ready (events : List Reported)
deriving DecidableEq, Repr

def next (s : EpollServer) : Event → Except Empty EpollServer
  | .failed true => .ok s
  | .failed false => .ok { s with exited := true }
  | .ready [] => .ok s
  | .ready events =>
      let s := if events.length = s.events then { s with events := s.events * 2 } else s
      .ok (s.handleAll events)

def enabled (s : EpollServer) : Event → Bool
  | .failed _ => !s.exited
  | .ready events =>
      !s.exited && events.length ≤ s.events && events.all fun e => e.read.fits

/-- Before the main loop. -/
structure Started (s : EpollServer) : Prop where
  clients : s.clients = []
  events : s.events = 16
  calls : s.calls = []
  exited : s.exited = false

def server : Lts EpollServer Event Empty where
  init := Started
  enabled s a := s.enabled a = true
  next := next

instance (s : EpollServer) (a : Event) : Decidable (server.enabled s a) :=
  inferInstanceAs (Decidable (_ = true))

/-! ## The record -/

variable {s s' : EpollServer}

theorem paired_record {calls : List Call} (h : Paired s.calls) (hcalls : Paired calls) :
    Paired (s.record calls).calls := h.append hcalls

theorem paired_quiet {calls : List Call} (h : Paired s.calls)
    (hquiet : ∀ c ∈ calls, c.isTraffic = false) : Paired (s.record calls).calls :=
  paired_record h (.of_quiet hquiet)

theorem paired_handle (h : Paired s.calls) (e : Reported) : Paired (s.handle e).calls := by
  unfold handle
  split
  · -- the listening socket
    split
    · exact paired_quiet h (by simp [Call.isTraffic])
    · exact paired_quiet h (by simp [Call.isTraffic])
    · exact paired_quiet h (by simp [Call.isTraffic])
  · split
    · simp only
      split
      · exact h
      · split
        · exact paired_quiet h (by simp [Call.isTraffic])
        · split
          · rename_i hempty
            exact paired_quiet h (by simp [Call.isTraffic, hempty])
          · rename_i hbytes
            exact paired_record h (Paired.nil.answer hbytes)
    · exact h

theorem paired_handleAll {events : List Reported} (h : Paired s.calls) :
    Paired (s.handleAll events).calls := by
  induction events generalizing s with
  | nil => exact h
  | cons e events ih =>
      have he := paired_handle h e
      simp only [handleAll]
      split
      · exact he
      · exact ih he

theorem server_invariant : server.Invariant fun s => Paired s.calls where
  init s h := by
    rw [h.calls]
    exact .nil
  step s a s' h _ hn := by
    simp only [server, next] at hn
    split at hn
    · cases hn
      exact h
    · cases hn
      exact h
    · cases hn
      exact h
    · cases hn
      refine paired_handleAll ?_
      split
      · exact h
      · exact h

theorem paired_reachable (hs : server.Reachable s) : Paired s.calls :=
  server_invariant.reachable hs

end EpollServer

/-! ## What a client gets back -/

/-- The client on `fd` was sent the bytes read from it. -/
def Echoed (fd : Int) (calls : List Call) : Prop :=
  (writes fd calls).flatten = (reads fd calls).flatten

/-- And each `write` was of the bytes of one `read`, and no others. -/
def EchoedByChunk (fd : Int) (calls : List Call) : Prop := writes fd calls = reads fd calls

/-- None of its chunks holds a NUL, and behind none is a byte other than NUL. -/
def AllClean (fd : Int) (calls : List Call) : Prop := ∀ chunk ∈ chunks fd calls, chunk.Clean

/-- The record of a run of one of the servers, up to some state of it. -/
inductive Recorded : List Call → Prop
  | poll {s : PollServer} (hs : PollServer.server.Reachable s) : Recorded s.calls
  | epoll {s : EpollServer} (hs : EpollServer.server.Reachable s) : Recorded s.calls

theorem Recorded.paired {calls : List Call} (h : Recorded calls) : Paired calls := by
  cases h with
  | poll hs => exact PollServer.paired_reachable hs
  | epoll hs => exact EpollServer.paired_reachable hs

/-- In every run of either server, the client on a descriptor has been echoed
exactly if all its chunks were clean, and exactly then chunk by chunk. -/
theorem echo_exact_iff {calls : List Call} (h : Recorded calls) (fd : Int) :
    (Echoed fd (session fd calls) ↔ AllClean fd (session fd calls)) ∧
      (EchoedByChunk fd (session fd calls) ↔ AllClean fd (session fd calls)) :=
  have hsession := h.paired.session fd
  ⟨hsession.echo_iff fd, hsession.writes_eq_reads_iff fd⟩

/-! ## A client that sends one chunk -/

def oneChunk (fd : Int) (chunk : Chunk) : List Call :=
  [.accept4 fd, .read fd (.data chunk), .write fd chunk.reply]

theorem PollServer.reachable_oneChunk (b : UInt8) (bytes beyond : Bytes)
    (h : bytes.length < bufSize) :
    ∃ s, PollServer.server.Reachable s ∧ s.calls = oneChunk 4 ⟨b :: bytes, beyond⟩ := by
  have hstart : PollServer.Started ⟨[⟨3, POLLIN, 0⟩], [], false⟩ := ⟨⟨_, rfl, rfl⟩, rfl, rfl⟩
  have haccept : PollServer.server.Reachable
      ⟨[⟨3, POLLIN, POLLIN⟩, ⟨4, POLLIN, 0⟩], [.accept4 4], false⟩ :=
    (Lts.Reachable.of_init hstart).step (a := .ready [POLLIN] 1 ⟨4, fun _ => .failed⟩)
      ⟨rfl, rfl, rfl, fun _ => rfl⟩ rfl
  exact ⟨_, haccept.step (a := .ready [0, POLLIN] 1 ⟨-1, fun _ => .data ⟨b :: bytes, beyond⟩⟩)
    ⟨rfl, rfl, rfl, fun _ => decide_eq_true h⟩ rfl, rfl⟩

theorem EpollServer.reachable_oneChunk (b : UInt8) (bytes beyond : Bytes)
    (h : bytes.length < bufSize) :
    ∃ s, EpollServer.server.Reachable s ∧ s.calls =
      .accept4 6 :: .epollAdd 6 :: (oneChunk 6 ⟨b :: bytes, beyond⟩).tail := by
  have hstart : EpollServer.Started ⟨4, 3, [], 16, [], false⟩ := ⟨rfl, rfl, rfl, rfl⟩
  have haccept : EpollServer.server.Reachable
      ⟨4, 3, [6], 16, [.accept4 6, .epollAdd 6], false⟩ :=
    (Lts.Reachable.of_init hstart).step
      (a := .ready [⟨4, EPOLLIN, .connfd 6, -1, -1, .failed⟩]) (by decide) rfl
  have hfits : (ReadResult.data ⟨b :: bytes, beyond⟩).fits = true := decide_eq_true h
  have hhandle : handle ⟨4, 3, [6], 16, [.accept4 6, .epollAdd 6], false⟩
      ⟨6, EPOLLIN, .failed, -1, -1, .data ⟨b :: bytes, beyond⟩⟩ =
        ⟨4, 3, [6], 16, .accept4 6 :: .epollAdd 6 :: (oneChunk 6 ⟨b :: bytes, beyond⟩).tail,
          false⟩ := by
    simp [handle, record, oneChunk, EPOLLIN]
  have hchunk : EpollServer.server.Reachable ⟨4, 3, [6], 16, .accept4 6 :: .epollAdd 6 ::
      (oneChunk 6 ⟨b :: bytes, beyond⟩).tail, false⟩ := by
    refine haccept.step
      (a := .ready [⟨6, EPOLLIN, .failed, -1, -1, .data ⟨b :: bytes, beyond⟩⟩]) ?_ ?_
    · simp [EpollServer.server, EpollServer.enabled, hfits]
    · simp [EpollServer.server, EpollServer.next, handleAll, hhandle]
  exact ⟨_, hchunk, rfl⟩

/-- `hi` comes back. -/
theorem echo_exact_hi :
    (∃ s, PollServer.server.Reachable s ∧ Echoed 4 (session 4 s.calls) ∧
      reads 4 (session 4 s.calls) = [str "hi"]) ∧
    ∃ s, EpollServer.server.Reachable s ∧ Echoed 6 (session 6 s.calls) ∧
      reads 6 (session 6 s.calls) = [str "hi"] := by
  obtain ⟨s, hs, hcalls⟩ := PollServer.reachable_oneChunk 104 [105] [] (by decide)
  obtain ⟨s', hs', hcalls'⟩ := EpollServer.reachable_oneChunk 104 [105] [] (by decide)
  refine ⟨⟨s, hs, (echo_exact_iff (.poll hs) 4).1.mpr ?_, ?_⟩,
    ⟨s', hs', (echo_exact_iff (.epoll hs') 6).1.mpr ?_, ?_⟩⟩
  · rw [hcalls]
    intro chunk hchunk
    obtain rfl := List.mem_singleton.mp hchunk
    decide
  · rw [hcalls]
    rfl
  · rw [hcalls']
    intro chunk hchunk
    obtain rfl := List.mem_singleton.mp hchunk
    decide
  · rw [hcalls']
    rfl

/-- `a`, NUL, `b` are answered with `a`. -/
theorem not_echoed :
    (¬∀ s, PollServer.server.Reachable s → ∀ fd, Echoed fd (session fd s.calls)) ∧
    ¬∀ s, EpollServer.server.Reachable s → ∀ fd, Echoed fd (session fd s.calls) := by
  constructor
  · intro hall
    obtain ⟨s, hs, hcalls⟩ := PollServer.reachable_oneChunk 97 [0, 98] [] (by decide)
    have hbytes := hall s hs 4
    rw [hcalls, Echoed] at hbytes
    revert hbytes
    decide
  · intro hall
    obtain ⟨s, hs, hcalls⟩ := EpollServer.reachable_oneChunk 97 [0, 98] [] (by decide)
    have hbytes := hall s hs 6
    rw [hcalls, Echoed] at hbytes
    revert hbytes
    decide

end Echo

end Muduo
