import Muduo.Http.RequestText
import Muduo.Http.Server
import Muduo.Lib.Arrivals

/-!
# Pipelined requests

`onMessage` calls the parser once and the parser stops at the end of the
first request, so a chunk is good for at most one call of `httpCallback_`,
however many requests it completes; what is left over stays in the input
buffer until the next chunk. Hence after `i` chunks the requests answered
are those of `served` (`progress_receive`), and all `k` requests of a stream
are answered by its last chunk exactly when at no point fewer chunks were
still to come than requests incomplete (`pipeline_served_iff`).
-/

namespace Muduo

open Lib RequestText

/-! ## The stream -/

/-- The texts of the requests, back to back. -/
def stream (reqs : List RequestText) : Bytes := (reqs.map render).flatten

/-- How many of the requests are complete within the first `n` bytes of their
stream. -/
def complete : List RequestText → Nat → Nat
  | [], _ => 0
  | r :: reqs, n =>
      if r.render.length ≤ n then complete reqs (n - r.render.length) + 1 else 0

/-- The bytes of the chunks. -/
def bytesOf (chunks : List (Bytes × Timestamp)) : Bytes := (chunks.map Prod.fst).flatten

theorem bytesOf_append (chunks more : List (Bytes × Timestamp)) :
    bytesOf (chunks ++ more) = bytesOf chunks ++ bytesOf more := by
  simp [bytesOf]

/-- How many requests are complete after the first `i` chunks. -/
def available (reqs : List RequestText) (chunks : List (Bytes × Timestamp)) (i : Nat) : Nat :=
  complete reqs (bytesOf (chunks.take i)).length

theorem available_zero (reqs : List RequestText) (chunks : List (Bytes × Timestamp)) :
    available reqs chunks 0 = 0 := by
  cases reqs with
  | nil => rfl
  | cons r reqs => exact if_neg (Nat.not_le.mpr r.render_pos)

/-- Requests already read drop out of the count. -/
theorem complete_take (reqs : List RequestText) (n : Nat) : ∀ d ≤ reqs.length,
    complete reqs ((stream (reqs.take d)).length + n) = complete (reqs.drop d) n + d := by
  induction reqs with
  | nil =>
      intro d hd
      obtain rfl := Nat.le_zero.mp hd
      rfl
  | cons r reqs ih =>
      rintro (_ | d) hd
      · simp [stream]
      · have hlen : (stream ((r :: reqs).take (d + 1))).length =
            r.render.length + (stream (reqs.take d)).length := by
          simp [stream]
        have hsub : r.render.length + (stream (reqs.take d)).length + n - r.render.length =
            (stream (reqs.take d)).length + n := by omega
        rw [hlen, complete, if_pos (by omega), hsub, ih d (Nat.le_of_succ_le_succ hd)]
        rfl

theorem stream_take_drop (reqs : List RequestText) (d : Nat) :
    stream (reqs.take d) ++ stream (reqs.drop d) = stream reqs := by
  rw [stream, stream, ← List.flatten_append, ← List.map_append, List.take_append_drop]
  rfl

/-! ## One chunk -/

/-- The parser on contexts that differ in the receive time. -/
theorem run_erased {t : Timestamp} {c c₁ : HttpContext} {buf rest : Bytes} {st : Status}
    (h : (parser .invalid).run c.eraseTime buf = .ok (st, c₁, rest)) :
    ∃ c', (parser t).run c buf = .ok (st, c', rest) ∧ c'.eraseTime = c₁ := by
  rw [(parser_hom t).run_eq] at h
  cases hr : (parser t).run c buf with
  | error e => rw [hr] at h; cases h
  | ok o =>
      obtain ⟨st', c', rest'⟩ := o
      rw [hr] at h
      cases h
      exact ⟨c', rfl, rfl⟩

namespace HttpConnection

variable {cb : HttpCallback} {k : Kernel} {s : HttpConnection} {u : Bytes}

/-- The bytes `u` are those received and not answered: context and buffer are
where reading `u` from a fresh context leads. -/
structure Holds (s : HttpConnection) (u : Bytes) : Prop where
  parsing : s.context.Parsing
  suffix : s.inputBuffer <:+ u
  reads : ∃ c₀, Fresh c₀ ∧ ∀ more,
    (parser .invalid).run s.context.eraseTime (s.inputBuffer ++ more) =
      (parser .invalid).run c₀ (u ++ more)

/-- No response so far asked for the connection to be closed. -/
def KeptOpen (s : HttpConnection) : Prop := ∀ resp ∈ s.responses, resp.closeConnection = false

/-- What the parser makes of a chunk is what it makes of all bytes not
answered, the chunk included, in a fresh context. -/
theorem Holds.run_eq (h : s.Holds u) {chunk : Bytes × Timestamp} {st : Status} {c : HttpContext}
    {rest : Bytes}
    (hc : (parser chunk.2).run s.context (s.inputBuffer ++ chunk.1) = .ok (st, c, rest)) :
    ∃ c₀, Fresh c₀ ∧ (parser .invalid).run c₀ (u ++ chunk.1) = .ok (st, c.eraseTime, rest) ∧
      ∀ more, (parser .invalid).run c₀ (u ++ chunk.1 ++ more) =
        (parser .invalid).resume more (.ok (st, c.eraseTime, rest)) := by
  obtain ⟨c₀, hfresh, hreads⟩ := h.reads
  have hrun : (parser .invalid).run c₀ (u ++ chunk.1) = .ok (st, c.eraseTime, rest) := by
    rw [← hreads, (parser_hom chunk.2).run_eq, hc]
    rfl
  refine ⟨c₀, hfresh, hrun, fun more => ?_⟩
  rw [LineMachine.run_append, hrun]

/-- A chunk that does not end the request adds to the bytes not answered. -/
theorem Holds.waiting (h : s.Holds u) {chunk : Bytes × Timestamp} {c : HttpContext} {rest : Bytes}
    (hc : (parser chunk.2).run s.context (s.inputBuffer ++ chunk.1) = .ok (.waiting, c, rest)) :
    Holds { s with context := c, inputBuffer := rest } (u ++ chunk.1) := by
  obtain ⟨c₀, hfresh, -, hmore⟩ := h.run_eq hc
  refine ⟨run_state h.parsing hc, ?_, c₀, hfresh, fun more => (hmore more).symm⟩
  obtain ⟨v, rfl⟩ := h.suffix
  rw [List.append_assoc]
  exact (LineMachine.run_suffix hc).trans (List.suffix_append _ _)

/-- A chunk that does not complete the request at hand. -/
theorem Holds.wait (cb : HttpCallback) (k : Kernel) (h : s.Holds u) {r : RequestText}
    {chunk : Bytes × Timestamp} {more : Bytes}
    (hr : r.render = (u ++ chunk.1) ++ more) (hmore : more ≠ []) :
    ∃ c rest, s.handleRead cb k chunk = .ok { s with context := c, inputBuffer := rest } ∧
      Holds { s with context := c, inputBuffer := rest } (u ++ chunk.1) := by
  obtain ⟨c₀, hfresh, hreads⟩ := h.reads
  obtain ⟨c₁, rest, hrun⟩ := run_part hfresh hr hmore
  obtain ⟨c, hc, -⟩ := run_erased (t := chunk.2) ((hreads chunk.1).trans hrun)
  refine ⟨c, rest, ?_, h.waiting hc⟩
  rw [handleRead_run h.parsing, hc]
  rfl

/-- A chunk that completes it: one call of `httpCallback_`, whatever is left. -/
theorem Holds.answer (cb : HttpCallback) (k : Kernel) (h : s.Holds u) {r : RequestText}
    {chunk : Bytes × Timestamp} {v : Bytes}
    (hr : u ++ chunk.1 = r.render ++ v) :
    ∃ c, s.handleRead cb k chunk =
        .ok { onRequest cb k { s with inputBuffer := v, context := c } c.request with
          context := c.reset } ∧
      c.request.setReceiveTime .invalid = r.toRequest := by
  obtain ⟨c₀, hfresh, hreads⟩ := h.reads
  have hrun := (hreads chunk.1).trans (hr ▸ run_render hfresh r v)
  obtain ⟨c, hc, heq⟩ := run_erased (t := chunk.2) hrun
  refine ⟨c, ?_, congrArg HttpContext.request heq⟩
  rw [handleRead_run h.parsing, hc]
  rfl

/-- After a reset the bytes left over are all there is to read. -/
theorem holds_reset {v : Bytes} {c : HttpContext} {s : HttpConnection}
    (hc : s.context = c.reset) (hv : s.inputBuffer = v) : s.Holds v where
  parsing := by rw [hc]; exact Or.inl rfl
  suffix := hv ▸ List.suffix_rfl
  reads := by
    refine ⟨c.reset.eraseTime, ⟨rfl, rfl, rfl⟩, fun more => ?_⟩
    rw [hc, hv]

/-- A response that keeps the connection open is one more write on it. -/
theorem onRequest_open (cb : HttpCallback) (k : Kernel) {req : HttpRequest}
    (hconn : s.conn.state = .kConnected)
    (hopen : (cb s.requests.length req (.new (wantsClose req))).closeConnection = false) :
    (s.onRequest cb k req).conn.state = .kConnected ∧
      (s.onRequest cb k req).conn.socket.writes.length = s.conn.socket.writes.length + 1 := by
  have hcond : ¬(cb s.requests.length req (.new (wantsClose req))).closeConnection = true := by
    rw [hopen]
    exact Bool.false_ne_true
  simp only [onRequest, if_neg hcond, TcpConnection.sendBuffer_eq_sendPiece,
    TcpConnection.sendPiece_connected hconn, TcpConnection.sendInLoop]
  refine ⟨hconn, ?_⟩
  unfold Socket.write
  split <;> simp

/-! ## Whole runs -/

/-- The first `d` requests have been answered, each once and in order. -/
structure Progress (reqs : List RequestText) (bytes : Bytes) (s : HttpConnection) (d : Nat) :
    Prop where
  le : d ≤ reqs.length
  requests : s.requests.map (HttpRequest.setReceiveTime · .invalid) =
    (reqs.take d).map toRequest
  holds : ∃ u, bytes = stream (reqs.take d) ++ u ∧ s.Holds u
  connected : s.KeptOpen → s.conn.state = .kConnected ∧ s.conn.socket.writes.length = d

theorem progress_established (reqs : List RequestText) : Progress reqs [] established 0 where
  le := Nat.zero_le _
  requests := rfl
  holds := ⟨[], rfl, holds_reset (c := .new) rfl rfl⟩
  connected _ := ⟨rfl, rfl⟩

/-- **One chunk answers at most one request.** -/
theorem Progress.step (cb : HttpCallback) (k : Kernel) {reqs : List RequestText}
    {bytes more : Bytes} {d : Nat}
    {chunk : Bytes × Timestamp} (h : Progress reqs bytes s d)
    (hstream : stream reqs = (bytes ++ chunk.1) ++ more) :
    ∃ s', s.handleRead cb k chunk = .ok s' ∧
      Progress reqs (bytes ++ chunk.1) s'
        (min (complete reqs (bytes ++ chunk.1).length) (d + 1)) := by
  obtain ⟨u, rfl, hu⟩ := h.holds
  have hrest : stream (reqs.drop d) = (u ++ chunk.1) ++ more := by
    rw [← stream_take_drop reqs d, List.append_assoc, List.append_assoc] at hstream
    rw [List.append_assoc]
    exact List.append_cancel_left hstream
  rw [List.append_assoc, List.length_append, complete_take reqs _ d h.le]
  cases hd : reqs.drop d with
  | nil =>
      -- all requests are answered, and the chunk is empty
      rw [hd] at hrest
      obtain ⟨hnil, -⟩ := List.append_eq_nil_iff.mp hrest.symm
      obtain ⟨rfl, hchunk⟩ := List.append_eq_nil_iff.mp hnil
      have hbuf : s.inputBuffer = [] := List.suffix_nil.mp hu.suffix
      have hsame : { s with inputBuffer := [] } = s := by rw [← hbuf]
      refine ⟨s, ?_, ?_⟩
      · rw [handleRead_run hu.parsing, hbuf, hchunk, List.nil_append,
          LineMachine.run_waiting (M := parser chunk.2) rfl]
        exact congrArg Except.ok hsame
      · rw [hchunk, complete, Nat.zero_add, Nat.min_eq_left (Nat.le_succ d)]
        exact ⟨h.le, h.requests, ⟨[], rfl, hu⟩, h.connected⟩
  | cons r rs =>
      rw [hd, stream, List.map_cons, List.flatten_cons] at hrest
      by_cases hfull : r.render.length ≤ (u ++ chunk.1).length
      · -- the chunk completes the next request
        obtain ⟨v, hv⟩ : ∃ v, u ++ chunk.1 = r.render ++ v :=
          (List.prefix_of_prefix_length_le ⟨_, hrest⟩ (List.prefix_append _ more) hfull).imp
            fun _ h => h.symm
        obtain ⟨c, hread, hreq⟩ := hu.answer cb k hv
        refine ⟨_, hread, ?_⟩
        have hlt : d < reqs.length := by
          have := congrArg List.length hd
          rw [List.length_drop, List.length_cons] at this
          omega
        have htake : reqs.take (d + 1) = reqs.take d ++ [r] := by
          have hr : reqs[d] = r := by
            have := List.drop_eq_getElem_cons hlt
            rw [hd] at this
            exact (List.cons.inj this).1.symm
          rw [List.take_succ_eq_append_getElem hlt, hr]
        rw [complete, if_pos hfull, Nat.min_eq_right (by omega)]
        refine ⟨hlt, ?_, ⟨v, ?_, holds_reset rfl rfl⟩, ?_⟩
        · have hreqs : ((s.requests ++ [c.request]).map (HttpRequest.setReceiveTime · .invalid)) =
              (reqs.take d).map toRequest ++ [r.toRequest] := by
            rw [List.map_append, h.requests, List.map_singleton, hreq]
          rw [htake, List.map_append]
          exact hreqs
        · rw [hv, htake]
          simp [stream]
        · intro hopen
          have hbefore : s.KeptOpen := fun resp hresp => hopen resp (List.mem_append_left _ hresp)
          obtain ⟨hconn, hwrites⟩ := h.connected hbefore
          have hlast := onRequest_open cb k (s := { s with inputBuffer := v, context := c }) hconn
            (hopen _ (List.mem_append_right _ (List.mem_singleton_self _)))
          refine ⟨hlast.1, hlast.2.trans ?_⟩
          rw [← hwrites]
      · -- the next request is still incomplete
        obtain ⟨w, hw⟩ : ∃ w, r.render = (u ++ chunk.1) ++ w :=
          (List.prefix_of_prefix_length_le (List.prefix_append _ more) ⟨_, hrest⟩
            (Nat.le_of_not_le hfull)).imp fun _ h => h.symm
        have hne : w ≠ [] := by
          rintro rfl
          rw [List.append_nil] at hw
          exact hfull (le_of_eq (congrArg List.length hw))
        obtain ⟨c, rest, hread, hholds⟩ := hu.wait cb k hw hne
        refine ⟨_, hread, ?_⟩
        rw [complete, if_neg hfull, Nat.zero_add, Nat.min_eq_left (Nat.le_succ d)]
        exact ⟨h.le, h.requests, ⟨_, rfl, hholds⟩, h.connected⟩

/-- After any number of chunks the requests answered are those of the rule
"at most one per chunk, and only complete ones". -/
theorem progress_receive (cb : HttpCallback) (k : Kernel) {reqs : List RequestText}
    {chunks : List (Bytes × Timestamp)}
    (hcut : bytesOf chunks = stream reqs) : ∀ i ≤ chunks.length,
      ∃ s, receive cb k established (chunks.take i) = .ok s ∧
        Progress reqs (bytesOf (chunks.take i)) s (served (available reqs chunks) i) := by
  intro i
  induction i with
  | zero => exact fun _ => ⟨_, rfl, progress_established reqs⟩
  | succ i ih =>
      intro hi
      obtain ⟨s, hs, hprog⟩ := ih (Nat.le_of_succ_le hi)
      have htake : chunks.take (i + 1) = chunks.take i ++ [chunks[i]] :=
        List.take_succ_eq_append_getElem hi
      have hbytes : bytesOf (chunks.take (i + 1)) = bytesOf (chunks.take i) ++ chunks[i].1 := by
        rw [htake, bytesOf_append]
        simp [bytesOf]
      have hstream : stream reqs = (bytesOf (chunks.take i) ++ chunks[i].1) ++
          bytesOf (chunks.drop (i + 1)) := by
        rw [← hbytes, ← bytesOf_append, List.take_append_drop, hcut]
      obtain ⟨s', hread, hprog'⟩ := hprog.step cb k hstream
      refine ⟨s', ?_, ?_⟩
      · rw [htake, receive_snoc, hs]
        exact hread
      · rw [served, available, hbytes]
        exact hprog'

/-- All requests have been answered, once each, in order and with nothing
left over; the responses went out one by one. -/
structure AllAnswered (reqs : List RequestText) (s : HttpConnection) : Prop where
  requests : s.requests.map (HttpRequest.setReceiveTime · .invalid) = reqs.map toRequest
  drained : s.inputBuffer = []
  sent : s.conn.socket.writes.length = reqs.length

/-- **A pipelined stream is answered by its last chunk exactly when at no
point fewer chunks were to come than requests were incomplete.** -/
theorem pipeline_served_iff (cb : HttpCallback) (k : Kernel) (reqs : List RequestText)
    (chunks : List (Bytes × Timestamp)) (hcut : bytesOf chunks = stream reqs) :
    ∃ s, receive cb k established chunks = .ok s ∧ (s.KeptOpen →
      (AllAnswered reqs s ↔
        ∀ i ≤ chunks.length,
          reqs.length ≤ available reqs chunks i + (chunks.length - i))) := by
  obtain ⟨s, hs, hprog⟩ := progress_receive cb k hcut chunks.length le_rfl
  rw [List.take_length] at hs hprog
  refine ⟨s, hs, fun hopen => ?_⟩
  rw [← le_served_iff (available_zero reqs chunks)]
  constructor
  · intro hall
    rw [← (hprog.connected hopen).2, hall.sent]
  · intro hk
    have hd : served (available reqs chunks) chunks.length = reqs.length := le_antisymm hprog.le hk
    rw [hd] at hprog
    obtain ⟨u, hu, hholds⟩ := hprog.holds
    rw [List.take_length, hcut] at hu
    have hnil : u = [] := List.append_right_eq_self.mp hu.symm
    refine ⟨?_, ?_, (hprog.connected hopen).2⟩
    · rw [hprog.requests, List.take_length]
    · rw [hnil] at hholds
      exact List.suffix_nil.mp hholds.suffix

/-! ### Two requests, in two chunks and in one -/

/-- `GET / HTTP/1.1`, without headers. -/
def getRoot : RequestText where
  method := str "GET"
  path := str "/"
  minor := 49
  version := .kHttp11
  headers := []
  method_known := by decide
  path_plain := by decide
  version_known := .http11
  headers_plain := nofun

/-- A callback that keeps the connection open. -/
def keepOpen : HttpCallback := fun _ _ resp =>
  (resp.setStatusCode .k200Ok).setCloseConnection false

/-- What `s` shows of its callbacks: their number, and whether all kept the
connection open. -/
def tally (s : HttpConnection) : Nat × Bool :=
  (s.requests.length, s.responses.all fun resp => !resp.closeConnection)

theorem keptOpen_of_tally {n : Nat} (h : tally s = (n, true)) : s.KeptOpen := by
  intro resp hresp
  have hall := List.all_eq_true.mp (congrArg Prod.snd h) resp hresp
  rw [Bool.not_eq_true'] at hall
  exact hall

theorem tally_of_map {r : Except HttpFault HttpConnection} {p : Nat × Bool} (hr : r = .ok s)
    (h : r.map tally = .ok p) : tally s = p := by
  rw [hr] at h
  exact Except.ok.inj h

theorem pipeline_served_iff_two :
    ∃ s, receive keepOpen .eager established
        [(getRoot.render, .invalid), (getRoot.render, .invalid)] = .ok s ∧
      AllAnswered [getRoot, getRoot] s := by
  obtain ⟨s, hs, hiff⟩ := pipeline_served_iff keepOpen .eager [getRoot, getRoot]
    [(getRoot.render, .invalid), (getRoot.render, .invalid)] rfl
  have htally : tally s = (2, true) := tally_of_map hs (by decide +kernel)
  exact ⟨s, hs, (hiff (keptOpen_of_tally htally)).mpr (by decide +kernel)⟩

theorem pipeline_strands :
    ¬∀ (cb : HttpCallback) (k : Kernel) (reqs : List RequestText)
      (chunks : List (Bytes × Timestamp)), bytesOf chunks = stream reqs →
      ∃ s, receive cb k established chunks = .ok s ∧ (s.KeptOpen → AllAnswered reqs s) := by
  intro h
  obtain ⟨s, hs, hall⟩ := h keepOpen .eager [getRoot, getRoot]
    [(stream [getRoot, getRoot], .invalid)] rfl
  have htally : tally s = (1, true) := tally_of_map hs (by decide +kernel)
  have htwo := congrArg List.length (hall (keptOpen_of_tally htally)).requests
  have hone : s.requests.length = 1 := congrArg Prod.fst htally
  rw [List.length_map, hone] at htwo
  exact absurd htwo (by decide)

end HttpConnection

end Muduo
