import Muduo.Echo.EpollServer
import Muduo.Lib.Trace

/-!
# The descriptors of the echo servers

Both servers over a kernel that keeps the descriptor table of the process: a
call that opens a descriptor returns one that is not open, as long as one of
the `limit` slots is free. The table is read off the record of calls
(`Table.after`).

In every run of either server the descriptors open are those of the program's
own books, once each (`poll_books`, `epoll_books`): no connection is leaked,
none is closed twice, and nothing is read from or written to a descriptor that
has been closed and may be another client's. The epoll server has its spare
descriptor at the end of every round, whatever became of the connection it had
no slot for; no other thread opens descriptors in this process.
-/

namespace Muduo

open Lib

namespace Echo

/-- The open descriptors of the process. -/
abbrev Table := List Int

namespace Table

/-- A result of -1 opens nothing, and a `close` of what is not open fails. -/
def after (t : Table) : Call → Table
  | .accept4 fd | .accept fd | .openNull fd => if fd < 0 then t else fd :: t
  | .close fd => t.erase fd
  | .read _ _ | .write _ _ | .epollAdd _ | .epollDel _ => t

/-- The call is made on a descriptor that is open. That of `EPOLL_CTL_DEL` has
just been closed, and with that left the epoll instance. -/
def Proper (t : Table) : Call → Prop
  | .read fd _ | .write fd _ | .epollAdd fd | .close fd => fd ∈ t
  | .epollDel fd => fd ∉ t
  | .accept4 _ | .accept _ | .openNull _ => True

/-- A descriptor the kernel may give out. -/
def Fresh (limit : Nat) (t : Table) (fd : Int) : Prop := 0 ≤ fd ∧ fd ∉ t ∧ t.length < limit

/-- A result of `open("/dev/null")`: it fails if there is no free slot. -/
def Opens (limit : Nat) (t : Table) (fd : Int) : Prop :=
  t.Fresh limit fd ∨ limit ≤ t.length ∧ fd = -1

instance (limit : Nat) (t : Table) (fd : Int) : Decidable (t.Fresh limit fd) :=
  inferInstanceAs (Decidable (_ ∧ _))

instance (limit : Nat) (t : Table) (fd : Int) : Decidable (t.Opens limit fd) :=
  inferInstanceAs (Decidable (_ ∨ _))

variable {limit : Nat} {t : Table} {fd : Int}

/-- The books of a process: what is open, each once, in no more than its slots. -/
structure Holds (limit : Nat) (t owned : Table) : Prop where
  perm : t.Perm owned
  nodup : owned.Nodup
  nonneg : ∀ fd ∈ owned, 0 ≤ fd
  length_le : owned.length ≤ limit

variable {owned owned' : Table}

theorem Holds.mem_iff (h : t.Holds limit owned) : fd ∈ t ↔ fd ∈ owned := h.perm.mem_iff

theorem Holds.of_perm (h : t.Holds limit owned) (hp : owned.Perm owned') :
    t.Holds limit owned' where
  perm := h.perm.trans hp
  nodup := hp.nodup_iff.mp h.nodup
  nonneg fd hfd := h.nonneg fd (hp.mem_iff.mpr hfd)
  length_le := hp.length_eq ▸ h.length_le

theorem Holds.opened (h : t.Holds limit owned) (hfd : t.Fresh limit fd) :
    Holds limit (fd :: t) (fd :: owned) where
  perm := h.perm.cons fd
  nodup := List.nodup_cons.mpr ⟨fun hmem => hfd.2.1 (h.mem_iff.mpr hmem), h.nodup⟩
  nonneg fd' hfd' := by
    rcases List.mem_cons.mp hfd' with rfl | hmem
    · exact hfd.1
    · exact h.nonneg fd' hmem
  length_le := by
    rw [List.length_cons, ← h.perm.length_eq]
    exact hfd.2.2

theorem Holds.closed (h : t.Holds limit (fd :: owned)) : Holds limit (t.erase fd) owned where
  perm := by
    have herase := h.perm.erase fd
    rwa [List.erase_cons_head] at herase
  nodup := (List.nodup_cons.mp h.nodup).2
  nonneg fd' hfd' := h.nonneg fd' (List.mem_cons_of_mem fd hfd')
  length_le := Nat.le_of_succ_le h.length_le

theorem after_accept4 (h : 0 ≤ fd) : t.after (.accept4 fd) = fd :: t :=
  if_neg (Int.not_lt.mpr h)

theorem after_failed : t.after (.accept4 (-1)) = t := by
  rw [after]
  exact if_pos (by decide)

theorem after_openNull (h : 0 ≤ fd) : t.after (.openNull fd) = fd :: t :=
  if_neg (Int.not_lt.mpr h)

/-- What `accept` returned is closed again, be it a connection or not. -/
theorem after_accept_close (h : fd ∉ t) : (t.after (.accept fd)).after (.close fd) = t := by
  simp only [after]
  split
  · exact List.erase_of_not_mem h
  · exact List.erase_cons_head fd t

end Table

/-! ## The poll server -/

namespace PollServer

def table (t : Table) (s : PollServer) : Table := s.calls.foldl Table.after t

/-- `accept4` returns what it can; -1 also when there is no free slot. -/
def Possible (limit : Nat) (t : Table) (s : PollServer) : Event → Prop
  | .failed _ => True
  | .ready _ _ k => k.accept4 = -1 ∨ (s.table t).Fresh limit k.accept4

variable {limit : Nat} {fixed t : Table} {s s' : PollServer}

/-- The descriptors of some entries. -/
def fds (pollfds : List PollFd) : List Int := pollfds.map PollFd.fd

theorem fds_setRevents {pollfds : List PollFd} {revents : List (BitVec 16)}
    (hlen : revents.length = pollfds.length) : fds (setRevents pollfds revents) = fds pollfds := by
  induction pollfds generalizing revents with
  | nil => rfl
  | cons pfd pollfds ih =>
      cases revents with
      | nil => cases hlen
      | cons r revents => exact congrArg (pfd.fd :: ·) (ih (Nat.succ.inj hlen))

theorem fds_kept_cons (v : Visit) (vs : List Visit) :
    fds (kept (v :: vs)) = (if v.closed then [] else [v.entry.fd]) ++ fds (kept vs) := by
  simp only [fds, kept, List.filter_cons]
  cases v.closed with
  | true => rfl
  | false => rfl

theorem entries_visits (read : Nat → ReadResult) (n : Nat) (clients : List PollFd) :
    (visits read n clients).map Visit.entry = clients := by
  induction clients generalizing n with
  | nil => rfl
  | cons pfd clients ih =>
      unfold visits
      split
      · rw [List.map_cons, ih]
      · rw [List.map_cons, ih]

/-- The calls made for a client are on its descriptor, and the last of them is
the `close` if there is one. -/
theorem after_visit {v : Visit} (hopen : v.entry.fd ∈ t) :
    Traced Table.after Table.Proper t v.calls ∧
      v.calls.foldl Table.after t = if v.closed then t.erase v.entry.fd else t := by
  obtain ⟨pfd, result⟩ := v
  match result with
  | none => exact ⟨trivial, rfl⟩
  | some .failed => exact ⟨⟨hopen, trivial⟩, rfl⟩
  | some (.data chunk) =>
      simp only [Visit.calls, Visit.closed, decide_eq_true_eq]
      split
      · exact ⟨⟨hopen, hopen, trivial⟩, rfl⟩
      · exact ⟨⟨hopen, hopen, trivial⟩, rfl⟩

/-- The scan of clients whose descriptors are open, `rest` being open besides. -/
theorem after_visits {vs : List Visit} {rest : Table}
    (h : t.Holds limit (fds (vs.map Visit.entry) ++ rest)) :
    Traced Table.after Table.Proper t (vs.flatMap Visit.calls) ∧
      ((vs.flatMap Visit.calls).foldl Table.after t).Holds limit (fds (kept vs) ++ rest) := by
  induction vs generalizing t rest with
  | nil => exact ⟨trivial, h⟩
  | cons v vs ih =>
      have hhead : t.Holds limit (v.entry.fd :: (fds (vs.map Visit.entry) ++ rest)) := h
      obtain ⟨htraced, hafter⟩ := after_visit (hhead.mem_iff.mpr List.mem_cons_self)
      rw [List.flatMap_cons, List.foldl_append, hafter, fds_kept_cons]
      cases hclosed : v.closed with
      | true =>
          rw [if_pos rfl, if_pos rfl, List.nil_append]
          obtain ⟨hrest, hbooks⟩ := ih hhead.closed
          refine ⟨htraced.append ?_, hbooks⟩
          rw [hafter, hclosed]
          exact hrest
      | false =>
          rw [if_neg Bool.false_ne_true, if_neg Bool.false_ne_true]
          obtain ⟨hrest, hbooks⟩ := ih (hhead.of_perm List.perm_middle.symm)
          refine ⟨htraced.append ?_, hbooks.of_perm List.perm_middle⟩
          rw [hafter, hclosed]
          exact hrest

/-- The listening socket and what the process was started with are `fixed`;
after `exit` there are no books. -/
structure Books (limit : Nat) (fixed t : Table) (s : PollServer) : Prop where
  listens : ∃ listen clients, s.pollfds = listen :: clients ∧ listen.fd ∈ fixed
  table : s.exited = false → (s.table t).Holds limit (fds s.pollfds.tail ++ fixed)
  traced : Traced Table.after Table.Proper t s.calls

section round

variable {listen : PollFd} {clients : List PollFd} {k : Answers}

/-- With the new client. -/
theorem after_acceptCalls (h : t.Holds limit (fds clients ++ fixed))
    (hk : k.accept4 = -1 ∨ t.Fresh limit k.accept4) (hok : listen.ready = true → k.accept4 ≠ -1) :
    ((acceptCalls listen k).foldl Table.after t).Holds limit
      (fds clients ++ (fds (accepted listen k) ++ fixed)) := by
  unfold acceptCalls accepted
  by_cases hready : listen.ready = true
  · have hfresh := hk.resolve_left (hok hready)
    rw [if_pos hready, if_pos hready]
    change Table.Holds limit (t.after (.accept4 k.accept4)) _
    rw [Table.after_accept4 hfresh.1]
    exact (h.opened hfresh).of_perm List.perm_middle.symm
  · rw [if_neg hready, if_neg hready]
    exact h

theorem traced_acceptCalls (listen : PollFd) (k : Answers) (t : Table) :
    Traced Table.after Table.Proper t (acceptCalls listen k) := by
  unfold acceptCalls
  split
  · exact ⟨trivial, trivial⟩
  · trivial

/-- A round, to its end or to `exit`. -/
theorem after_round {nready : Int} (h : t.Holds limit (fds clients ++ fixed))
    (hk : k.accept4 = -1 ∨ t.Fresh limit k.accept4)
    (hcount : nready = ((listen :: clients).countP PollFd.reported : Nat)) :
    (∀ pollfds calls, round (listen :: clients) nready k = .ok (pollfds, calls) →
      (∃ clients', pollfds = listen :: clients') ∧
      (calls.foldl Table.after t).Holds limit (fds pollfds.tail ++ fixed) ∧
      Traced Table.after Table.Proper t calls) ∧
    ∀ calls, round (listen :: clients) nready k = .error (.exit calls) →
      Traced Table.after Table.Proper t calls := by
  have houtcome := round_outcome (k := k) hcount
  have hscan (hok : listen.ready = true → k.accept4 ≠ -1) := by
    have haccepted := after_acceptCalls h hk hok
    rw [← entries_visits k.read 0 clients] at haccepted
    exact after_visits haccepted
  constructor
  · intro pollfds calls hround
    rw [hround] at houtcome
    have hserved : Served listen clients k pollfds calls := houtcome
    obtain ⟨htraced, hbooks⟩ := hscan hserved.accept
    refine ⟨⟨_, hserved.pollfds⟩, ?_, ?_⟩
    · rw [hserved.pollfds, hserved.calls, List.foldl_append]
      simp only [List.cons_append, List.tail_cons, fds, List.map_append, List.append_assoc]
      exact hbooks
    · rw [hserved.calls]
      exact (traced_acceptCalls listen k t).append htraced
  · intro calls hround
    rw [hround] at houtcome
    rcases houtcome with ⟨-, -, rfl⟩ | ⟨before, v, after, hvs, -, -, rfl⟩
    · exact ⟨trivial, trivial⟩
    · have htraced : Traced Table.after Table.Proper ((acceptCalls listen k).foldl Table.after t)
          ((visits k.read 0 clients).flatMap Visit.calls) := by
        by_cases hok : listen.ready = true → k.accept4 ≠ -1
        · exact (hscan hok).1
        · obtain ⟨hready, hfailed⟩ := Classical.not_imp.mp hok
          have hsame : (acceptCalls listen k).foldl Table.after t = t := by
            rw [acceptCalls, if_pos hready, Decidable.of_not_not hfailed]
            exact Table.after_failed
          rw [hsame]
          rw [← entries_visits k.read 0 clients] at h
          exact (after_visits h).1
      rw [hvs, List.append_cons, List.flatMap_append] at htraced
      exact (traced_acceptCalls listen k t).append (traced_append.mp htraced).1

end round

theorem Books.next {a : Event} (h : Books limit fixed t s) (he : s.enabled a)
    (hk : Possible limit t s a) (hn : s.next a = .ok s') : Books limit fixed t s' := by
  match a, he, hk with
  | .failed true, _, _ => exact Except.ok.inj hn ▸ h
  | .failed false, _, _ =>
      obtain rfl := Except.ok.inj hn
      exact ⟨h.listens, (fun hexit => by cases hexit), h.traced⟩
  | .ready revents nready k, ⟨hrun, hlen, hcount, _⟩, hk =>
      obtain ⟨listen, clients, hpollfds, hfixed⟩ := h.listens
      have htable := h.table hrun
      have hfds := fds_setRevents hlen
      obtain ⟨listen', clients', hset⟩ := setRevents_cons
        (by rw [hpollfds]; exact List.cons_ne_nil _ _) hlen
      rw [hset] at hfds hcount
      rw [hpollfds] at htable hfds
      obtain ⟨hlisten, hclients⟩ := List.cons.inj hfds
      have hbooks : (s.table t).Holds limit (fds clients' ++ fixed) := by
        rw [show fds clients' = fds clients from hclients]
        exact htable
      obtain ⟨hserved, hstopped⟩ := after_round hbooks hk hcount
      simp only [PollServer.next, hset] at hn
      split at hn
      · rename_i pollfds calls hround
        obtain ⟨⟨clients'', hpollfds'⟩, hafter, htraced⟩ := hserved pollfds calls hround
        obtain rfl := Except.ok.inj hn
        refine ⟨⟨listen', clients'', hpollfds', ?_⟩, fun _ => ?_, h.traced.append htraced⟩
        · rw [show listen'.fd = listen.fd from hlisten]
          exact hfixed
        · rw [PollServer.table, List.foldl_append]
          exact hafter
      · rename_i calls hround
        obtain rfl := Except.ok.inj hn
        exact ⟨h.listens, (fun hexit => by cases hexit),
          h.traced.append (hstopped calls hround)⟩
      · cases hn

/-- What is open when the main loop is entered. -/
structure Setup (limit : Nat) (fixed : Table) (s : PollServer) : Prop where
  started : Started s
  listens : ∀ pfd ∈ s.pollfds, pfd.fd ∈ fixed
  nodup : fixed.Nodup
  nonneg : ∀ fd ∈ fixed, 0 ≤ fd
  length_le : fixed.length ≤ limit

theorem Setup.books (h : Setup limit fixed s) : Books limit fixed fixed s := by
  obtain ⟨listen, hpollfds, -⟩ := h.started.pollfds
  have hcalls := h.started.calls
  refine ⟨⟨listen, [], hpollfds, h.listens listen ?_⟩, fun _ => ?_, ?_⟩
  · rw [hpollfds]
    exact List.mem_cons_self
  · rw [table, hcalls, hpollfds]
    exact ⟨List.Perm.refl _, h.nodup, h.nonneg, h.length_le⟩
  · rw [hcalls]
    trivial

/-- **The descriptors of the poll server.** At the end of every round of every
run what is open are the clients with an entry behind that of the listening
socket and what the server began with, all different; and every call of the
run was made on a descriptor that was open then. -/
theorem poll_books (limit : Nat) (fixed : Table) (s₀ s : PollServer) (as : List Event)
    (hstart : Setup limit fixed s₀) (hrun : (server.guarded (Possible limit fixed)).Run s₀ as s) :
    (s.exited = false →
      (s.table fixed).Perm (s.pollfds.tail.map PollFd.fd ++ fixed) ∧
      (s.pollfds.tail.map PollFd.fd ++ fixed).Nodup ∧
      (s.pollfds.tail.map PollFd.fd ++ fixed).length ≤ limit) ∧
    (∃ listen ∈ s.pollfds.head?, listen.fd ∈ fixed) ∧
    ∀ before c rest, s.calls = before ++ c :: rest →
      Table.Proper (before.foldl Table.after fixed) c := by
  have hstep (s : PollServer) (a : Event) (s' : PollServer) (h : Books limit fixed fixed s)
      (he : (server.guarded (Possible limit fixed)).enabled s a) (hn : s.next a = .ok s') :
      Books limit fixed fixed s' := h.next he.1 he.2 hn
  have h := hrun.invariant hstep hstart.books
  refine ⟨fun hexit => ?_, ?_, fun before c rest hcalls => ?_⟩
  · exact ⟨(h.table hexit).perm, (h.table hexit).nodup, (h.table hexit).length_le⟩
  · obtain ⟨listen, clients, hpollfds, hfixed⟩ := h.listens
    rw [hpollfds]
    exact ⟨listen, rfl, hfixed⟩
  · have htraced := h.traced
    rw [hcalls] at htraced
    exact htraced.ok_at

/-- A client is accepted, and is gone in the next round. -/
theorem poll_books_gone : ∃ s : PollServer, s.calls.length = 3 ∧
    (s.table [3, 0, 1, 2]).Perm [3, 0, 1, 2] := by
  let s₀ : PollServer := ⟨[⟨3, POLLIN, 0⟩], [], false⟩
  let s₁ : PollServer := ⟨[⟨3, POLLIN, POLLIN⟩, ⟨4, POLLIN, 0⟩], [.accept4 4], false⟩
  let s₂ : PollServer :=
    ⟨[⟨3, POLLIN, 0⟩], [.accept4 4, .read 4 (.data ⟨[], []⟩), .close 4], false⟩
  have hfree : Table.Fresh 5 (s₀.table [3, 0, 1, 2]) 4 := by decide
  have haccept : (server.guarded (Possible 5 [3, 0, 1, 2])).enabled s₀
      (.ready [POLLIN] 1 ⟨4, fun _ => .failed⟩) := ⟨⟨rfl, rfl, rfl, fun _ => rfl⟩, Or.inr hfree⟩
  have hgone : (server.guarded (Possible 5 [3, 0, 1, 2])).enabled s₁
      (.ready [0, POLLIN] 1 ⟨-1, fun _ => .data ⟨[], []⟩⟩) :=
    ⟨⟨rfl, rfl, rfl, fun _ => rfl⟩, Or.inl rfl⟩
  have hfirst := (Lts.Run.nil s₀).snoc haccept (show _ = Except.ok s₁ from rfl)
  have hrun := hfirst.snoc hgone (show _ = Except.ok s₂ from rfl)
  have hbooks := poll_books 5 [3, 0, 1, 2] s₀ _ _
    ⟨⟨⟨_, rfl, rfl⟩, rfl, rfl⟩, by decide, by decide, by decide, by decide⟩ hrun
  exact ⟨_, rfl, (hbooks.1 rfl).1⟩

end PollServer

/-! ## The epoll server -/

namespace EpollServer

/-- The interest list of the epoll instance; a descriptor that is closed
leaves it. -/
def interest (fds : List Int) : Call → List Int
  | .epollAdd fd => fd :: fds
  | .epollDel fd | .close fd => fds.erase fd
  | .accept4 _ | .accept _ | .openNull _ | .read _ _ | .write _ _ => fds

/-- The call is proper, or closes the -1 that `accept` has returned for a
connection that was gone. -/
def InOrder (t : Table) (c : Call) : Prop := t.Proper c ∨ c = .close (-1)

/-- What is open, of `t` at the start. -/
def table (t : Table) (s : EpollServer) : Table := s.calls.foldl Table.after t

/-- The calls made for an event of the listening socket return what they can
with `t` open. The connection there was no slot for may be gone by the time
of `accept`. -/
def Answered (limit : Nat) (t : Table) (s : EpollServer) (e : Reported) : Prop :=
  match e.accept4 with
  | .connfd connfd => t.Fresh limit connfd
  | .EMFILE =>
      let closed := t.after (.close s.idlefd)
      limit ≤ t.length ∧ (closed.Fresh limit e.accept ∨ e.accept = -1) ∧
        ((closed.after (.accept e.accept)).after (.close e.accept)).Opens limit e.opened
  | .failed => True

/-- And those of the events after it. -/
def AllAnswered (limit : Nat) (t : Table) (s : EpollServer) : List Reported → Prop
  | [] => True
  | e :: events =>
      (e.fd = s.listenfd → Answered limit (s.table t) s e) ∧
        ((s.handle e).exited = false → AllAnswered limit t (s.handle e) events)

/-- The vector for the events is twice as long once it has been full. -/
def resized (s : EpollServer) (events : List Reported) : EpollServer :=
  if events.length = s.events then { s with events := s.events * 2 } else s

/-- `epoll_wait` returns each descriptor of the interest list at most once. -/
def Possible (limit : Nat) (t : Table) (s : EpollServer) : Event → Prop
  | .failed _ => True
  | .ready events => (events.map Reported.fd).Nodup ∧
      (∀ e ∈ events, e.fd ∈ s.calls.foldl interest [s.listenfd]) ∧
      AllAnswered limit t (s.resized events) events

instance (limit : Nat) (t : Table) (s : EpollServer) (e : Reported) :
    Decidable (Answered limit t s e) := by
  unfold Answered
  split <;> infer_instance

instance decidableAllAnswered (limit : Nat) (t : Table) :
    ∀ (s : EpollServer) (events : List Reported), Decidable (AllAnswered limit t s events)
  | _, [] => .isTrue trivial
  | s, e :: events =>
      have := decidableAllAnswered limit t (s.handle e) events
      inferInstanceAs (Decidable ((_ → _) ∧ (_ → _)))

instance (limit : Nat) (t : Table) (s : EpollServer) : ∀ a, Decidable (Possible limit t s a)
  | .failed _ => .isTrue trivial
  | .ready _ => inferInstanceAs (Decidable (_ ∧ _))

instance (limit : Nat) (t : Table) (s : EpollServer) :
    ∀ a, Decidable ((server.guarded (Possible limit t)).enabled s a) :=
  fun a => inferInstanceAs (Decidable (s.enabled a = true ∧ Possible limit t s a))

variable {limit : Nat} {fixed : Table} {t : Table} {s s' : EpollServer} {e : Reported}

/-- Beside the spare descriptor and the clients, `fixed` is open: the listening
socket, the epoll instance, and what the process was started with. -/
structure Books (limit : Nat) (fixed t : Table) (s : EpollServer) : Prop where
  table : (s.table t).Holds limit (s.idlefd :: (s.clients ++ fixed))
  interest : (s.calls.foldl interest [s.listenfd]).Perm (s.listenfd :: s.clients)
  listens : s.listenfd ∈ fixed
  traced : Traced Table.after InOrder t s.calls

theorem Books.listenfd_not_mem (h : Books limit fixed t s) : s.listenfd ∉ s.clients := by
  intro hmem
  have hnodup := (List.nodup_cons.mp h.table.nodup).2
  exact (List.nodup_append.mp hnodup).2.2 _ hmem _ h.listens rfl

theorem Books.not_watched (h : Books limit fixed t s) {fd : Int} (hfd : fd ∉ s.clients ++ fixed) :
    fd ∉ s.calls.foldl EpollServer.interest [s.listenfd] := by
  intro hmem
  rcases List.mem_cons.mp (h.interest.mem_iff.mp hmem) with rfl | hmem
  · exact hfd (List.mem_append_right _ h.listens)
  · exact hfd (List.mem_append_left _ hmem)

/-- More calls, that leave the books as they say. -/
theorem Books.extend (h : Books limit fixed t s) {calls : List Call}
    (hcalls : s'.calls = s.calls ++ calls) (hlisten : s'.listenfd = s.listenfd)
    (htable : (calls.foldl Table.after (s.table t)).Holds limit
      (s'.idlefd :: (s'.clients ++ fixed)))
    (hinterest : (calls.foldl EpollServer.interest (s.calls.foldl EpollServer.interest
      [s.listenfd])).Perm (s.listenfd :: s'.clients))
    (htraced : Traced Table.after InOrder (s.table t) calls) : Books limit fixed t s' where
  table := by
    rw [EpollServer.table, hcalls, List.foldl_append]
    exact htable
  interest := by
    rw [hcalls, List.foldl_append, hlisten]
    exact hinterest
  listens := hlisten ▸ h.listens
  traced := by
    rw [hcalls]
    exact h.traced.append htraced

/-- A client is accepted. -/
theorem Books.connected (h : Books limit fixed t s) {connfd : Int}
    (hfresh : (s.table t).Fresh limit connfd) : Books limit fixed t
      { s.record [.accept4 connfd, .epollAdd connfd] with clients := s.clients ++ [connfd] } := by
  have hafter : [Call.accept4 connfd, .epollAdd connfd].foldl Table.after (s.table t) =
      connfd :: s.table t := Table.after_accept4 hfresh.1
  have hmove (rest : List Int) (x : Int) : (connfd :: x :: (s.clients ++ rest)).Perm
      (x :: ((s.clients ++ [connfd]) ++ rest)) := by
    rw [List.append_assoc]
    exact (List.Perm.swap _ _ _).trans (List.perm_middle.symm.cons x)
  refine h.extend rfl rfl ?_ ?_ ⟨Or.inl trivial, Or.inl ?_, trivial⟩
  · rw [hafter]
    exact (h.table.opened hfresh).of_perm (hmove fixed s.idlefd)
  · have hnone := hmove [] s.listenfd
    rw [List.append_nil, List.append_nil] at hnone
    exact (h.interest.cons connfd).trans hnone
  · rw [Table.after_accept4 hfresh.1]
    exact List.mem_cons_self

/-- There is no slot for a client; the spare one comes back. -/
theorem Books.refused (h : Books limit fixed t s) (hfull : e.accept4 = .EMFILE)
    (hk : Answered limit (s.table t) s e) : Books limit fixed t
      { s.record [.accept4 (-1), .close s.idlefd, .accept e.accept, .close e.accept,
          .openNull e.opened] with idlefd := e.opened } := by
  rw [Answered, hfull] at hk
  obtain ⟨-, haccept, hopen⟩ := hk
  have hclosed := h.table.closed
  change Table.Fresh limit ((s.table t).erase s.idlefd) e.accept ∨ _ at haccept
  change Table.Opens limit (Table.after (Table.after ((s.table t).erase s.idlefd) _) _) _ at hopen
  have hgone : e.accept ∉ (s.table t).erase s.idlefd := by
    rcases haccept with hfresh | hfailed
    · exact hfresh.2.1
    · intro hmem
      have hnonneg := hclosed.nonneg _ (hclosed.mem_iff.mp hmem)
      omega
  rw [Table.after_accept_close hgone] at hopen
  have hfresh : Table.Fresh limit ((s.table t).erase s.idlefd) e.opened := by
    refine hopen.resolve_right fun hnone => ?_
    have hle := h.table.length_le
    have hlen := hclosed.perm.length_eq
    rw [List.length_cons] at hle
    omega
  have hafter : [Call.accept4 (-1), .close s.idlefd, .accept e.accept, .close e.accept,
      .openNull e.opened].foldl Table.after (s.table t) =
        e.opened :: (s.table t).erase s.idlefd := by
    simp only [List.foldl_cons, List.foldl_nil, Table.after_failed]
    change Table.after (Table.after (Table.after ((s.table t).erase s.idlefd) _) _) _ = _
    rw [Table.after_accept_close hgone, Table.after_openNull hfresh.1]
  have hspare := h.not_watched (List.nodup_cons.mp h.table.nodup).1
  have hother := h.not_watched (mt hclosed.mem_iff.mpr hgone)
  refine h.extend rfl rfl ?_ ?_
    ⟨Or.inl trivial, Or.inl ?_, Or.inl trivial, ?_, Or.inl trivial, trivial⟩
  · rw [hafter]
    exact hclosed.opened hfresh
  · change ((List.erase (s.calls.foldl EpollServer.interest [s.listenfd]) s.idlefd).erase
      e.accept).Perm _
    rw [List.erase_of_not_mem hspare, List.erase_of_not_mem hother]
    exact h.interest
  · exact h.table.mem_iff.mpr List.mem_cons_self
  · rcases haccept with haccepted | hfailed
    · left
      change e.accept ∈ Table.after ((s.table t).erase s.idlefd) (.accept e.accept)
      rw [Table.after, if_neg (Int.not_lt.mpr haccepted.1)]
      exact List.mem_cons_self
    · exact Or.inr (congrArg Call.close hfailed)

/-- A client is gone. -/
theorem Books.disconnected (h : Books limit fixed t s) {connfd : Int} (hmem : connfd ∈ s.clients)
    (result : ReadResult) : Books limit fixed t
      { s.record [.read connfd result, .close connfd, .epollDel connfd] with
        clients := s.clients.filter (· ≠ connfd) } := by
  have hopen : connfd ∈ s.table t :=
    h.table.mem_iff.mpr (List.mem_cons_of_mem _ (List.mem_append_left _ hmem))
  have hnodup : s.clients.Nodup :=
    (List.nodup_append.mp (List.nodup_cons.mp h.table.nodup).2).1
  have hclients : s.clients.Perm (connfd :: s.clients.filter (· ≠ connfd)) := by
    have hfilter : s.clients.filter (· ≠ connfd) = s.clients.erase connfd := by
      rw [hnodup.erase_eq_filter]
      exact List.filter_congr fun fd _ => Bool.eq_iff_iff.mpr (by simp)
    rw [hfilter]
    exact List.perm_cons_erase hmem
  have hmove (rest : List Int) (x : Int) : (x :: (s.clients ++ rest)).Perm
      (connfd :: x :: (s.clients.filter (· ≠ connfd) ++ rest)) :=
    ((hclients.append_right rest).cons x).trans (List.Perm.swap _ _ _)
  have howned := h.table.of_perm (hmove fixed s.idlefd)
  have hgone : connfd ∉ (s.table t).erase connfd := fun hstill =>
    (List.nodup_cons.mp howned.nodup).1 (howned.closed.mem_iff.mp hstill)
  refine h.extend rfl rfl howned.closed ?_ ⟨Or.inl hopen, Or.inl hopen, Or.inl hgone, trivial⟩
  have hnone := hmove [] s.listenfd
  rw [List.append_nil, List.append_nil] at hnone
  have hleft := (h.interest.trans hnone).erase connfd
  rw [List.erase_cons_head] at hleft
  change ((List.erase (s.calls.foldl EpollServer.interest [s.listenfd]) connfd).erase
    connfd).Perm _
  rw [List.erase_of_not_mem]
  · exact hleft
  · intro hstill
    rcases List.mem_cons.mp (hleft.mem_iff.mp hstill) with rfl | hfilter
    · exact h.listenfd_not_mem hmem
    · exact of_decide_eq_true (List.mem_filter.mp hfilter).2 rfl

/-- A call on a client that leaves the descriptors alone. -/
theorem Books.served (h : Books limit fixed t s) {connfd : Int} (hmem : connfd ∈ s.clients)
    (result : ReadResult) {calls : List Call}
    (hcalls : calls = [] ∨ ∃ data, calls = [.write connfd data]) :
    Books limit fixed t (s.record (.read connfd result :: calls)) := by
  have hopen : connfd ∈ s.table t :=
    h.table.mem_iff.mpr (List.mem_cons_of_mem _ (List.mem_append_left _ hmem))
  rcases hcalls with rfl | ⟨data, rfl⟩
  · exact h.extend rfl rfl h.table h.interest ⟨Or.inl hopen, trivial⟩
  · exact h.extend rfl rfl h.table h.interest ⟨Or.inl hopen, Or.inl hopen, trivial⟩

/-- What an event leaves of the clients: those it is not about. -/
theorem Books.handle (h : Books limit fixed t s) (he : e.fd = s.listenfd ∨ e.fd ∈ s.clients)
    (hk : e.fd = s.listenfd → Answered limit (s.table t) s e) :
    Books limit fixed t (s.handle e) ∧ (s.handle e).listenfd = s.listenfd ∧
      ∀ fd ∈ s.clients, fd ≠ e.fd → fd ∈ (s.handle e).clients := by
  unfold EpollServer.handle
  by_cases hlisten : e.fd = s.listenfd
  · rw [if_pos hlisten]
    have hanswered := hk hlisten
    cases haccept : e.accept4 with
    | connfd connfd =>
        rw [Answered, haccept] at hanswered
        exact ⟨h.connected hanswered, rfl, fun fd hfd _ => List.mem_append_left _ hfd⟩
    | EMFILE => exact ⟨h.refused haccept hanswered, rfl, fun fd hfd _ => hfd⟩
    | failed =>
        refine ⟨h.extend rfl rfl ?_ h.interest ⟨Or.inl trivial, trivial⟩, rfl, fun fd hfd _ => hfd⟩
        exact h.table
  · rw [if_neg hlisten]
    have hmem := he.resolve_left hlisten
    by_cases hin : e.events &&& EPOLLIN ≠ 0
    · rw [if_pos hin]
      have hpos : ¬e.fd < 0 := Int.not_lt.mpr
        (h.table.nonneg _ (List.mem_cons_of_mem _ (List.mem_append_left _ hmem)))
      dsimp only
      rw [if_neg hpos]
      cases hread : e.read with
      | failed =>
          have hserved := h.served hmem .failed (Or.inl rfl)
          exact ⟨⟨hserved.table, hserved.interest, hserved.listens, hserved.traced⟩, rfl,
            fun fd hfd _ => hfd⟩
      | data chunk =>
          dsimp only
          split
          · refine ⟨h.disconnected hmem _, rfl, fun fd hfd hne => ?_⟩
            exact List.mem_filter.mpr ⟨hfd, decide_eq_true hne⟩
          · exact ⟨h.served hmem _ (Or.inr ⟨_, rfl⟩), rfl, fun fd hfd _ => hfd⟩
    · rw [if_neg hin]
      exact ⟨h, rfl, fun fd hfd _ => hfd⟩

/-- A batch: an event closes no descriptor but its own, and that comes once. -/
theorem Books.handleAll {events : List Reported} (h : Books limit fixed t s)
    (hnodup : (events.map Reported.fd).Nodup)
    (hmem : ∀ e ∈ events, e.fd = s.listenfd ∨ e.fd ∈ s.clients)
    (hk : AllAnswered limit t s events) : Books limit fixed t (s.handleAll events) := by
  induction events generalizing s with
  | nil => exact h
  | cons e events ih =>
      rw [List.map_cons, List.nodup_cons] at hnodup
      obtain ⟨hbooks, hlisten, hkept⟩ := h.handle (hmem e List.mem_cons_self) hk.1
      rw [EpollServer.handleAll]
      by_cases hexit : (s.handle e).exited = true
      · rw [if_pos hexit]
        exact hbooks
      · rw [if_neg hexit]
        refine ih hbooks hnodup.2 (fun e' he' => ?_) (hk.2 (Bool.eq_false_of_not_eq_true hexit))
        rw [hlisten]
        refine (hmem e' (List.mem_cons_of_mem e he')).imp_right fun hclient => ?_
        exact hkept _ hclient fun heq => hnodup.1 (heq ▸ List.mem_map_of_mem he')

theorem Books.next {a : Event} (h : Books limit fixed t s) (hk : Possible limit t s a)
    (hn : s.next a = .ok s') : Books limit fixed t s' := by
  match a, hk with
  | .failed true, _ => exact Except.ok.inj hn ▸ h
  | .failed false, _ =>
      obtain rfl := Except.ok.inj hn
      exact ⟨h.table, h.interest, h.listens, h.traced⟩
  | .ready [], _ => exact Except.ok.inj hn ▸ h
  | .ready (e :: events), ⟨hnodup, hmem, hanswered⟩ =>
      obtain rfl : (s.resized (e :: events)).handleAll (e :: events) = s' := Except.ok.inj hn
      have hresized : Books limit fixed t (s.resized (e :: events)) ∧
          (s.resized (e :: events)).listenfd = s.listenfd ∧
          (s.resized (e :: events)).clients = s.clients := by
        unfold resized
        split
        · exact ⟨⟨h.table, h.interest, h.listens, h.traced⟩, rfl, rfl⟩
        · exact ⟨h, rfl, rfl⟩
      refine hresized.1.handleAll hnodup (fun e' he' => ?_) hanswered
      rw [hresized.2.1, hresized.2.2]
      exact List.mem_cons.mp (h.interest.mem_iff.mp (hmem e' he'))

/-- What is open when the main loop is entered: the spare descriptor, and
`fixed`. -/
structure Setup (limit : Nat) (fixed : Table) (s : EpollServer) : Prop where
  started : Started s
  listens : s.listenfd ∈ fixed
  nodup : (s.idlefd :: fixed).Nodup
  nonneg : ∀ fd ∈ s.idlefd :: fixed, 0 ≤ fd
  length_le : (s.idlefd :: fixed).length ≤ limit

theorem Setup.books (h : Setup limit fixed s) : Books limit fixed (s.idlefd :: fixed) s := by
  have hcalls := h.started.calls
  have hclients := h.started.clients
  refine ⟨?_, ?_, h.listens, ?_⟩
  · rw [table, hcalls, hclients]
    exact ⟨List.Perm.refl _, h.nodup, h.nonneg, h.length_le⟩
  · rw [hcalls, hclients]
    exact List.Perm.refl _
  · rw [hcalls]
    trivial

/-- **The descriptors of the epoll server.** At the end of every round of every
run: what is open is the spare descriptor, which the server has again after
any `EMFILE`, its clients and what it began with, all different; epoll watches
the listening socket and the clients; and every call of the run was made on a
descriptor that was open then, but for the `close(-1)` after an `accept` that
found the connection gone. -/
theorem epoll_books (limit : Nat) (fixed : Table) (s₀ s : EpollServer) (as : List Event)
    (hstart : Setup limit fixed s₀)
    (hrun : (server.guarded (Possible limit (s₀.idlefd :: fixed))).Run s₀ as s) :
    (s.table (s₀.idlefd :: fixed)).Perm (s.idlefd :: (s.clients ++ fixed)) ∧
    (s.idlefd :: (s.clients ++ fixed)).Nodup ∧ 0 ≤ s.idlefd ∧
    (s.clients ++ fixed).length < limit ∧
    (s.calls.foldl interest [s.listenfd]).Perm (s.listenfd :: s.clients) ∧
    ∀ before c rest, s.calls = before ++ c :: rest →
      Table.Proper (before.foldl Table.after (s₀.idlefd :: fixed)) c ∨ c = .close (-1) := by
  have hstep (s : EpollServer) (a : Event) (s' : EpollServer)
      (h : Books limit fixed (s₀.idlefd :: fixed) s)
      (he : (server.guarded (Possible limit (s₀.idlefd :: fixed))).enabled s a)
      (hn : s.next a = .ok s') : Books limit fixed (s₀.idlefd :: fixed) s' := h.next he.2 hn
  have h := hrun.invariant hstep hstart.books
  refine ⟨h.table.perm, h.table.nodup, h.table.nonneg _ List.mem_cons_self, h.table.length_le,
    h.interest, fun before c rest hcalls => ?_⟩
  have htraced := h.traced
  rw [hcalls] at htraced
  exact htraced.ok_at

/-- A client in the last of 7 slots, and a round in which another one finds no
slot and the first is gone. -/
def noSlot : List Event :=
  [.ready [⟨4, EPOLLIN, .connfd 6, -1, -1, .failed⟩],
    .ready [⟨4, EPOLLIN, .EMFILE, 3, 3, .failed⟩,
      ⟨6, EPOLLIN, .failed, -1, -1, .data ⟨[], []⟩⟩]]

theorem epoll_books_noSlot : ∃ s : EpollServer, s.idlefd = 3 ∧
    (s.table [3, 4, 5, 0, 1, 2]).Perm [3, 4, 5, 0, 1, 2] ∧ s.calls.length = 10 := by
  obtain ⟨s, hs, hp⟩ := Option.map_eq_some_iff.mp
    (show ((server.guarded (Possible 7 [3, 4, 5, 0, 1, 2])).exec ⟨4, 3, [], 16, [], false⟩
      noSlot).map (fun s => decide (s.idlefd = 3 ∧ s.clients = [] ∧ s.calls.length = 10)) =
        some true by decide +kernel)
  obtain ⟨hidle, hclients, hlen⟩ := of_decide_eq_true hp
  have hbooks := epoll_books 7 [4, 5, 0, 1, 2] ⟨4, 3, [], 16, [], false⟩ s noSlot
    ⟨⟨rfl, rfl, rfl, rfl⟩, by decide, by decide, by decide, by decide⟩ (Lts.run_of_exec hs)
  refine ⟨s, hidle, ?_, hlen⟩
  have hperm := hbooks.1
  rwa [hidle, hclients] at hperm

end EpollServer

end Echo

end Muduo
