import Muduo.Http.AfterClose
import Muduo.Http.ResponseReader

/-!
# A client that waits for each response

The server answers at most one request per chunk, and goes on answering after
it has closed its half of the connection (`Pipeline`, `AfterClose`). A client
that sends its next request when it has the response to the last one sees
neither: however its requests are cut into chunks, each is answered by its
last chunk, and what goes out are the responses in order, up to the first that
closes the connection (`session_receive`). Those before it delimit themselves,
and the body of that one is what is left of the stream (`readReplies`).
-/

namespace Muduo

open Lib RequestText

/-! ## A response that ends with the connection -/

/-- The client does not take one framing name for the other. -/
def Reading.Distinct (R : Reading) : Prop :=
  R.same (str "Connection") (str "Content-Length") = false

namespace HttpResponse

variable {R : Reading} {r : HttpResponse}

/-- Without a `Content-Length` the body goes on to the end of the stream. -/
def readLastReply (R : Reading) (s : Bytes) : Option Reply :=
  match (headReader R).run ⟨none, []⟩ s with
  | .ok (.done, ⟨some (code, message), fields⟩, rest) =>
      if (contentLength R fields).isNone then some ⟨code, message, headersOf R fields, rest⟩
      else none
  | _ => none

/-- All replies that come over a connection. -/
def readReplies (R : Reading) (s : Bytes) : Option (List Reply) :=
  readThen (readReply R) (readLastReply R) s

/-- `Plain`, of a response that closes the connection. -/
structure PlainLast (r : HttpResponse) : Prop where
  closes : r.closeConnection = true
  message : 13 ∉ r.statusMessage
  headers : ∀ f ∈ r.headers.toList, 58 ∉ f.1 ∧ 13 ∉ f.1 ∧ 13 ∉ f.2

/-- The fields of a response that closes the connection, as they are written. -/
def lastFields (r : HttpResponse) : List (Bytes × Bytes) :=
  (str "Connection", str "close") :: r.headers.toList

theorem text_last (h : r.PlainLast) :
    r.text = r.statusLine ++ (kCRLF ++ (fieldLines r.lastFields ++ r.body)) := by
  have hheaders := map_headers (f := id) (fun _ _ => rfl) r.headers.toList
  rw [Prod.map_id, List.map_id, List.map_id] at hheaders
  simp only [text, pieces, h.closes, if_true, snprintf32_status, List.flatten_append, hheaders,
    List.flatten_cons, List.flatten_nil]
  simp only [statusLine, lastFields, fieldLines, List.map_cons, List.flatten_cons, headerLine,
    List.append_assoc, List.append_nil]
  rfl

/-- Without a length there is nothing for `readReply` to take. -/
theorem contentLength_lastFields (hdistinct : R.Distinct) (h : r.ReadableBy R) :
    contentLength R (r.lastFields.map (heard R)) = none := by
  have hnone : ∀ f ∈ r.lastFields.map (heard R), ¬R.same f.1 (str "Content-Length") = true := by
    intro f hf hsame
    obtain ⟨g, hg, rfl⟩ := List.mem_map.mp hf
    rcases List.mem_cons.mp hg with rfl | hg
    · exact Bool.false_ne_true (hdistinct.symm.trans hsame)
    · have hframing := (h g hg).1
      rw [Reading.framing, Bool.or_eq_false_iff] at hframing
      exact Bool.false_ne_true (hframing.1.symm.trans hsame)
  rw [contentLength, List.find?_eq_none.mpr hnone]
  rfl

theorem headersOf_lastFields (h : r.ReadableBy R) :
    headersOf R (r.lastFields.map (heard R)) = r.headers := by
  have hconn : R.framing (str "Connection") = true := by
    rw [Reading.framing, R.same_refl, Bool.or_true]
  have hmap : r.headers.toList.map (heard R) = r.headers.toList := by
    refine (List.map_congr_left fun f hf => ?_).trans (List.map_id _)
    exact Prod.ext rfl (strip_unpadded (h f hf).2)
  have hfilter : (r.lastFields.map (heard R)).filter (fun f => !R.framing f.1) =
      r.headers.toList := by
    rw [lastFields, List.map_cons, hmap, List.filter_cons_of_neg (by simp [heard, hconn])]
    exact List.filter_eq_self.mpr fun f hf => by rw [(h f hf).1]; rfl
  rw [headersOf, hfilter]
  exact ofList_toList r.headers

/-- A response that closes the connection is read to the end of the stream. -/
theorem readLastReply_text (hdistinct : R.Distinct) (h : r.PlainLast)
    (hR : r.ReadableBy R) : readReply R r.text = none ∧
      readLastReply R r.text = some r.reply := by
  have hfs : ∀ f ∈ r.lastFields, 58 ∉ f.1 ∧ 13 ∉ f.1 ∧ 13 ∉ f.2 := by
    intro f hf
    rcases List.mem_cons.mp hf with rfl | hf
    · decide
    · exact h.headers f hf
  rw [text_last h]
  simp only [readReply, readLastReply, run_fields h.message hfs,
    contentLength_lastFields hdistinct hR, headersOf_lastFields hR]
  exact ⟨rfl, rfl⟩

/-! ## What goes out on a connection -/

/-- The responses up to the first that closes the connection. -/
def untilClose : List HttpResponse → List HttpResponse
  | [] => []
  | r :: rs => if r.closeConnection then [r] else r :: untilClose rs

theorem untilClose_open {rs : List HttpResponse} (h : ∀ r ∈ rs, r.closeConnection = false)
    (more : List HttpResponse) : untilClose (rs ++ more) = rs ++ untilClose more := by
  induction rs with
  | nil => rfl
  | cons r rs ih =>
      have hr : ¬r.closeConnection = true := by
        rw [h r (List.mem_cons_self ..)]
        exact Bool.false_ne_true
      rw [List.cons_append, untilClose, if_neg hr,
        ih fun q hq => h q (List.mem_cons_of_mem _ hq), List.cons_append]

/-- What comes after a response that closes the connection does not go out. -/
theorem untilClose_closed {rs : List HttpResponse} (h : ∃ r ∈ rs, r.closeConnection = true)
    (more : List HttpResponse) : untilClose (rs ++ more) = untilClose rs := by
  induction rs with
  | nil =>
      obtain ⟨r, hr, -⟩ := h
      cases hr
  | cons r rs ih =>
      rw [List.cons_append, untilClose, untilClose]
      by_cases hclose : r.closeConnection = true
      · rw [if_pos hclose, if_pos hclose]
      · rw [if_neg hclose, if_neg hclose, ih]
        obtain ⟨q, hq, hqc⟩ := h
        rcases List.mem_cons.mp hq with rfl | hq
        · exact absurd hqc hclose
        · exact ⟨q, hq, hqc⟩

/-- A response the client can read, by whether it closes the connection. -/
def Readable (R : Reading) (r : HttpResponse) : Prop :=
  (r.Plain ∨ r.PlainLast) ∧ r.ReadableBy R

/-- **The client finds the responses that went out**, the last one with the
connection closed behind it. -/
theorem readReplies_untilClose (hdistinct : R.Distinct) (rs : List HttpResponse)
    (h : ∀ r ∈ rs, r.Readable R) :
    readReplies R ((untilClose rs).map text).flatten =
      some ((untilClose rs).map reply) := by
  obtain ⟨kept, last, hsplit, hkept, hlast⟩ : ∃ kept last, untilClose rs = kept ++ last ∧
      (∀ r ∈ kept, r.Plain ∧ r.ReadableBy R) ∧
      (last = [] ∨ ∃ r, last = [r] ∧ r.PlainLast ∧ r.ReadableBy R) := by
    induction rs with
    | nil => exact ⟨[], [], rfl, nofun, Or.inl rfl⟩
    | cons r rs ih =>
        obtain ⟨hplain, hR⟩ := h r (List.mem_cons_self ..)
        rw [untilClose]
        rcases hplain with hplain | hplain
        · obtain ⟨kept, last, hsplit, hkept, hlast⟩ :=
            ih fun q hq => h q (List.mem_cons_of_mem _ hq)
          rw [if_neg (by rw [hplain.keepAlive]; exact Bool.false_ne_true), hsplit]
          refine ⟨r :: kept, last, rfl, fun q hq => ?_, hlast⟩
          rcases List.mem_cons.mp hq with rfl | hq
          · exact ⟨hplain, hR⟩
          · exact hkept q hq
        · rw [if_pos hplain.closes]
          exact ⟨[], [r], rfl, nofun, Or.inr ⟨r, rfl, hplain, hR⟩⟩
  rw [hsplit, List.map_append, List.flatten_append, List.map_append]
  refine (selfDelimiting_text R).readThen_flatten hkept ?_
  rcases hlast with rfl | ⟨r, rfl, hplain, hR⟩
  · exact Or.inl ⟨rfl, rfl⟩
  · obtain ⟨hnone, hread⟩ := readLastReply_text hdistinct hplain hR
    rw [List.map_singleton, List.flatten_singleton]
    refine Or.inr ⟨?_, hnone, r.reply, hread, rfl⟩
    rw [text_last hplain]
    exact List.cons_ne_nil _ _

end HttpResponse

open HttpResponse

namespace HttpConnection

variable {cb : HttpCallback} {k : Kernel} {s : HttpConnection} {u : Bytes} {rs : List HttpResponse}

/-! ## One request -/

/-- The response to a request, and what the call of `httpCallback_` leaves. -/
def response (cb : HttpCallback) (s : HttpConnection) (req : HttpRequest) : HttpResponse :=
  cb s.requests.length req (.new (wantsClose req))

/-- A request is answered by its last chunk, and nothing is left of it. -/
theorem Holds.answer_chunks (cb : HttpCallback) (k : Kernel) {r : RequestText}
    (chunks : List (Bytes × Timestamp)) : ∀ {s : HttpConnection} {u : Bytes}, s.Holds u →
      u ++ bytesOf chunks = r.render → chunks ≠ [] → (∀ c ∈ chunks, c.1 ≠ []) →
      ∃ s' req, receive cb k s chunks = .ok s' ∧
        req.setReceiveTime .invalid = r.toRequest ∧ s'.Holds [] ∧
        s'.conn = (s.onRequest cb k req).conn ∧ s'.requests = s.requests ++ [req] ∧
        s'.responses = s.responses ++ [s.response cb req] := by
  induction chunks with
  | nil => exact fun _ _ hne => absurd rfl hne
  | cons chunk rest ih =>
      intro s u h hcut _ hsome
      have hbytes : bytesOf (chunk :: rest) = chunk.1 ++ bytesOf rest := rfl
      rw [hbytes, ← List.append_assoc] at hcut
      cases rest with
      | nil =>
          have hall : u ++ chunk.1 = r.render ++ [] := by
            rw [List.append_nil, ← hcut]
            exact (List.append_nil _).symm
          obtain ⟨c, hread, hreq⟩ := h.answer cb k hall
          have hrun : receive cb k s [chunk] =
              .ok { onRequest cb k { s with inputBuffer := [], context := c } c.request with
                context := c.reset } := by
            rw [receive, hread]
            rfl
          exact ⟨_, c.request, hrun, hreq, holds_reset rfl rfl, rfl, rfl, rfl⟩
      | cons next rest =>
          have hmore : bytesOf (next :: rest) ≠ [] := fun hnil =>
            hsome next (List.mem_cons_of_mem _ (List.mem_cons_self ..))
              (List.append_eq_nil_iff.mp hnil).1
          obtain ⟨c, left, hread, hholds⟩ := h.wait cb k hcut.symm hmore
          obtain ⟨s', req, hrun, hreq, hs', hconn, hreqs, hresps⟩ :=
            ih hholds hcut (List.cons_ne_nil _ _) fun x hx => hsome x (List.mem_cons_of_mem _ hx)
          refine ⟨s', req, ?_, hreq, hs', hconn, hreqs, hresps⟩
          rw [receive, hread]
          exact hrun

/-! ## What has gone out -/

/-- A kernel that takes every message as a whole. -/
def Whole (k : Kernel) : Prop := ∀ i data, k.accepts i data = data.length

/-- The responses so far are `rs`, and the bytes that have gone out are those up
to the first that closes the connection; nothing is left to read. -/
structure Sent (s : HttpConnection) (rs : List HttpResponse) : Prop where
  holds : s.Holds []
  responses : s.responses = rs
  isOpen : (∀ r ∈ rs, r.closeConnection = false) →
    s.conn.state = .kConnected ∧ s.conn.socket.writeClosed = false
  closed : (∃ r ∈ rs, r.closeConnection = true) →
    s.conn.state ≠ .kConnected ∧ s.conn.socket.writeClosed = true
  waiting : s.conn.isWriting = false
  accepted : s.conn.socket.accepted = ((untilClose rs).map text).flatten

theorem sent_established : established.Sent [] where
  holds := holds_reset (c := .new) rfl rfl
  responses := rfl
  isOpen _ := ⟨rfl, rfl⟩
  closed := nofun
  waiting := rfl
  accepted := rfl

/-- A response on a connection that is open. -/
theorem onRequest_whole (cb : HttpCallback) (hk : Whole k) {req : HttpRequest}
    (hconn : s.conn.state = .kConnected) (hopen : s.conn.socket.writeClosed = false)
    (hwaiting : s.conn.isWriting = false) :
    ∃ c, (s.onRequest cb k req).conn = c ∧
      c.socket.accepted = s.conn.socket.accepted ++ (s.response cb req).text ∧
      c.isWriting = false ∧
      ((s.response cb req).closeConnection = false →
        c.state = .kConnected ∧ c.socket.writeClosed = false) ∧
      ((s.response cb req).closeConnection = true →
        c.state ≠ .kConnected ∧ c.socket.writeClosed = true) := by
  have hc : (s.onRequest cb k req).conn = if (s.response cb req).closeConnection then
      (s.conn.sendInLoop k ((s.response cb req).text)).shutdown k true
      else s.conn.sendInLoop k ((s.response cb req).text) := by
    simp only [onRequest, response, TcpConnection.sendBuffer_eq_sendPiece,
      TcpConnection.sendPiece_connected hconn]
    rfl
  rw [TcpConnection.sendInLoop, Socket.write_open hopen, hk, List.take_length] at hc
  refine ⟨_, hc, ?_⟩
  cases (s.response cb req).closeConnection with
  | false => exact ⟨rfl, hwaiting, fun _ => ⟨hconn, hopen⟩, fun h => by cases h⟩
  | true =>
      rw [if_pos rfl, TcpConnection.shutdown, if_pos hconn]
      simp only [TcpConnection.runInLoop, TcpConnection.runFunctor, TcpConnection.shutdownInLoop,
        TcpConnection.setState, hwaiting, if_true, Bool.not_false]
      exact ⟨rfl, trivial, (fun h => by cases h), fun _ => ⟨(fun h => by cases h), rfl⟩⟩

/-- A response on a connection that the server has closed goes nowhere. -/
theorem onRequest_closing (hclosing : s.Closing) (req : HttpRequest) :
    (s.onRequest cb k req).conn = s.conn := by
  simp only [onRequest, TcpConnection.sendBuffer_eq_sendPiece, sendPiece_closing hclosing,
    shutdown_again hclosing, ite_self]

/-- **One more request.** -/
theorem Sent.answer (cb : HttpCallback) (hk : Whole k) (h : s.Sent rs) {r : RequestText}
    {chunks : List (Bytes × Timestamp)} (hcut : bytesOf chunks = r.render)
    (hsome : ∀ c ∈ chunks, c.1 ≠ []) :
    ∃ s' req, receive cb k s chunks = .ok s' ∧ req.setReceiveTime .invalid = r.toRequest ∧
      s'.requests = s.requests ++ [req] ∧ s'.Sent (rs ++ [s.response cb req]) := by
  have hne : chunks ≠ [] := by
    rintro rfl
    exact absurd (congrArg List.length hcut) (Nat.ne_of_lt r.render_pos)
  obtain ⟨s', req, hrun, hreq, hholds, hconn, hreqs, hresps⟩ :=
    h.holds.answer_chunks cb k chunks hcut hne hsome
  rw [h.responses] at hresps
  refine ⟨s', req, hrun, hreq, hreqs, ?_⟩
  by_cases hall : ∀ q ∈ rs, q.closeConnection = false
  · -- the first response that closes the connection, if it does, is this one
    obtain ⟨hstate, hopen⟩ := h.isOpen hall
    obtain ⟨c, hc, haccepted, hwaiting, hkept, hclosed⟩ :=
      onRequest_whole cb hk hstate hopen h.waiting
    have huntil : untilClose (rs ++ [s.response cb req]) = rs ++ [s.response cb req] := by
      rw [untilClose_open hall, untilClose]
      cases (s.response cb req).closeConnection <;> rfl
    have hrs : untilClose rs = rs := by
      have hnil := untilClose_open hall []
      rwa [List.append_nil, untilClose, List.append_nil] at hnil
    rw [hc] at hconn
    constructor
    · exact hholds
    · exact hresps
    · intro hnew
      rw [hconn]
      exact hkept (hnew _ (List.mem_append_right _ (List.mem_singleton_self _)))
    · rintro ⟨q, hq, hqc⟩
      rw [hconn]
      rcases List.mem_append.mp hq with hq | hq
      · exact absurd ((hall q hq).symm.trans hqc) Bool.false_ne_true
      · rw [List.mem_singleton.mp hq] at hqc
        exact hclosed hqc
    · rw [hconn]
      exact hwaiting
    · rw [hconn, haccepted, h.accepted, hrs, huntil]
      simp
  · -- the server has closed its half before
    obtain ⟨q, hq, hqc⟩ : ∃ q ∈ rs, q.closeConnection = true := by
      simpa using hall
    have hdone := h.closed ⟨q, hq, hqc⟩
    rw [onRequest_closing hdone.1] at hconn
    constructor
    · exact hholds
    · exact hresps
    · intro hnew
      exact absurd ((hnew q (List.mem_append_left _ hq)).symm.trans hqc) Bool.false_ne_true
    · exact fun _ => hconn ▸ hdone
    · exact hconn ▸ h.waiting
    · rw [hconn, h.accepted, untilClose_closed ⟨q, hq, hqc⟩]

/-! ## Whole sessions -/

/-- The responses to these requests, of a callback that does not look at the
receive time. -/
def answers (cb : HttpCallback) (reqs : List RequestText) : List HttpResponse :=
  reqs.mapIdx fun i r => cb i r.toRequest (.new (wantsClose r.toRequest))

theorem answers_concat (cb : HttpCallback) (reqs : List RequestText) (r : RequestText) :
    answers cb (reqs ++ [r]) =
      answers cb reqs ++ [cb reqs.length r.toRequest (.new (wantsClose r.toRequest))] := by
  rw [answers, List.mapIdx_concat]
  rfl

/-- The requests of a client, each with the chunks it arrives in. -/
abbrev Requests := List (RequestText × List (Bytes × Timestamp))

/-- **A client that waits for each response** has all its requests answered,
in order, and finds on the connection the responses up to the first that
closes it. -/
theorem session_receive (cb : HttpCallback) {k : Kernel} (hk : Whole k)
    (htime : ∀ i req resp, cb i (req.setReceiveTime .invalid) resp = cb i req resp)
    (sent : Requests) (hcut : ∀ p ∈ sent, bytesOf p.2 = p.1.render)
    (hsome : ∀ p ∈ sent, ∀ c ∈ p.2, c.1 ≠ []) :
    ∃ s, receive cb k established (sent.flatMap Prod.snd) = .ok s ∧
      s.requests.map (HttpRequest.setReceiveTime · .invalid) =
        sent.map (fun p => p.1.toRequest) ∧
      s.Sent (answers cb (sent.map Prod.fst)) := by
  induction sent using List.reverseRecOn with
  | nil => exact ⟨_, rfl, rfl, sent_established⟩
  | append_singleton sent p ih =>
      obtain ⟨s, hrun, hreqs, hsent⟩ := ih (fun q hq => hcut q (List.mem_append_left _ hq))
        (fun q hq => hsome q (List.mem_append_left _ hq))
      have hp : p ∈ sent ++ [p] := List.mem_append_right _ (List.mem_singleton_self p)
      obtain ⟨s', req, hrun', hreq, hreqs', hsent'⟩ :=
        hsent.answer cb hk (hcut p hp) (hsome p hp)
      refine ⟨s', ?_, ?_, ?_⟩
      · rw [List.flatMap_append, receive_append, hrun, List.flatMap_singleton]
        exact hrun'
      · rw [hreqs', List.map_append, hreqs, List.map_append, List.map_singleton, hreq]
        rfl
      · have hlen : s.requests.length = (sent.map Prod.fst).length := by
          have hlen := congrArg List.length hreqs
          rwa [List.length_map, List.length_map, ← List.length_map (f := Prod.fst)] at hlen
        have hresp : s.response cb req = cb (sent.map Prod.fst).length p.1.toRequest
            (.new (wantsClose p.1.toRequest)) := by
          rw [response, hlen, ← htime, hreq, ← hreq]
          rfl
        rw [List.map_append, List.map_singleton, answers_concat, ← hresp]
        exact hsent'

end HttpConnection

end Muduo
