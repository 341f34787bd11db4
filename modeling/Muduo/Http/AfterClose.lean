import Muduo.Http.Isolation

/-!
# What is served after the server decided to close

`shutdown` closes the write half; the read handler goes on as before and
nothing in `onMessage` asks for the state of the connection. A rejected line
ends the requests all the same, because it stays in the buffer (`Stuck`).
After a response that closes, the context has been reset, so a request that
follows is served if one more chunk arrives to have it parsed
(`served_iff`); `send` does look at the state, and its answer goes nowhere
(`receive_closing`).
-/

namespace Muduo

open Lib RequestText

namespace HttpConnection

variable {cb : HttpCallback} {k : Kernel} {s s' : HttpConnection} {u : Bytes}
  {chunk : Bytes × Timestamp}

/-- `httpCallback_` is called while these chunks arrive, or some of them. -/
def ServedAgain (cb : HttpCallback) (k : Kernel) (s : HttpConnection)
    (chunks : List (Bytes × Timestamp)) : Prop :=
  ∃ mid post s', chunks = mid ++ post ∧ receive cb k s mid = .ok s' ∧ s'.requests ≠ s.requests

theorem not_servedAgain_nil : ¬ServedAgain cb k s [] := by
  rintro ⟨mid, post, s', hsplit, hrun, hne⟩
  obtain ⟨rfl, -⟩ := List.append_eq_nil_iff.mp hsplit.symm
  cases hrun
  exact hne rfl

theorem servedAgain_cons {rest : List (Bytes × Timestamp)}
    (hread : s.handleRead cb k chunk = .ok s') (hreq : s'.requests = s.requests) :
    ServedAgain cb k s (chunk :: rest) ↔ ServedAgain cb k s' rest := by
  constructor
  · rintro ⟨mid, post, s₁, hsplit, hrun, hne⟩
    cases mid with
    | nil =>
        cases hrun
        exact absurd rfl hne
    | cons x mid =>
        obtain ⟨rfl, rfl⟩ := List.cons.inj hsplit
        rw [receive, hread] at hrun
        exact ⟨mid, post, s₁, rfl, hrun, hreq.symm ▸ hne⟩
  · rintro ⟨mid, post, s₁, rfl, hrun, hne⟩
    refine ⟨chunk :: mid, post, s₁, rfl, ?_, hreq ▸ hne⟩
    rw [receive, hread]
    exact hrun

/-! ## After a rejected line -/

theorem Stuck.not_servedAgain (chunks : List (Bytes × Timestamp)) :
    ∀ {s : HttpConnection}, s.Stuck → ¬ServedAgain cb k s chunks := by
  induction chunks with
  | nil => exact fun _ => not_servedAgain_nil
  | cons chunk rest ih =>
      intro s h
      cases hr : s.handleRead cb k chunk with
      | error e =>
          rintro ⟨mid, post, s₁, hsplit, hrun, hne⟩
          cases mid with
          | nil =>
              cases hrun
              exact hne rfl
          | cons x mid =>
              obtain ⟨rfl, rfl⟩ := List.cons.inj hsplit
              rw [receive, hr] at hrun
              cases hrun
      | ok s' =>
          obtain ⟨hstuck, hreq⟩ := h.step hr
          rw [servedAgain_cons hr hreq]
          exact ih hstuck

/-! ## After a response -/

/-- **When a live connection serves a request**: a chunk arrives, and the
bytes not answered followed by those to come start with a complete one. -/
theorem Live.served_iff (chunks : List (Bytes × Timestamp)) :
    ∀ {s : HttpConnection} {u : Bytes}, s.Live u →
      (ServedAgain cb k s chunks ↔ chunks ≠ [] ∧ StartsRequest (u ++ bytesOf chunks)) := by
  induction chunks with
  | nil => exact fun _ => ⟨fun h => absurd h not_servedAgain_nil, fun h => absurd rfl h.1⟩
  | cons chunk rest ih =>
      intro s u h
      obtain ⟨st, c, left, -, hread, -, ⟨c₀, hfresh, hrun, hmore⟩, hwait, -, hrej⟩ :=
        h.handle cb k chunk
      have hbytes : u ++ bytesOf (chunk :: rest) = u ++ chunk.1 ++ bytesOf rest := by
        rw [List.append_assoc]
        rfl
      have hdone : ∀ {bytes : Bytes}, StartsRequest bytes →
          ∃ d r, (parser .invalid).run c₀ bytes = .ok (.done, d, r) := by
        rintro bytes ⟨w, r, hw, hreq⟩
        obtain ⟨d, hd⟩ :=
          (run_done_iff (t := .invalid) hfresh.state hfresh.method).mpr ⟨w, hw, hreq⟩
        exact ⟨d, r, hd⟩
      rw [hbytes]
      cases st with
      | waiting =>
          rw [servedAgain_cons hread rfl, ih (hwait rfl)]
          refine ⟨fun hr => ⟨List.cons_ne_nil _ _, hr.2⟩, fun hr => ⟨?_, hr.2⟩⟩
          rintro rfl
          -- with nothing to come, the request is still waited for
          obtain ⟨d, r, hd⟩ := hdone hr.2
          rw [bytesOf, List.map_nil, List.flatten_nil, List.append_nil, hrun] at hd
          cases hd
      | done =>
          obtain ⟨w, hw, hreq⟩ := (run_done_iff hfresh.state hfresh.method).mp ⟨_, hrun⟩
          have hserved : ServedAgain cb k s (chunk :: rest) := by
            refine ⟨[chunk], rest, _, rfl, by rw [receive, hread]; rfl, ?_⟩
            exact fun heq => absurd (congrArg List.length heq) (by simp [afterRun, onRequest])
          refine iff_of_true hserved ⟨List.cons_ne_nil _ _, w, left ++ bytesOf rest, ?_, hreq⟩
          rw [hw, List.append_assoc]
      | rejected =>
          rw [servedAgain_cons hread rfl]
          refine iff_of_false ((hrej rfl).not_servedAgain rest) fun hr => ?_
          obtain ⟨d, r, hd⟩ := hdone hr.2
          rw [hmore] at hd
          cases hd

/-! ## Nothing more is sent -/

/-- `shutdown` has been called. -/
def Closing (s : HttpConnection) : Prop := s.conn.state ≠ .kConnected

theorem shutdown_closing (c : TcpConnection) : (c.shutdown k true).state ≠ .kConnected := by
  unfold TcpConnection.shutdown
  by_cases h : c.state = .kConnected
  · rw [if_pos h]
    cases hw : c.isWriting <;>
      simp [TcpConnection.runInLoop, TcpConnection.runFunctor, TcpConnection.shutdownInLoop,
        TcpConnection.setState, hw]
  · rwa [if_neg h]

theorem sendPiece_closing {c : TcpConnection} (h : c.state ≠ .kConnected) (message : Bytes) :
    c.sendPiece k true message = c := if_neg h

theorem shutdown_again {c : TcpConnection} (h : c.state ≠ .kConnected) :
    c.shutdown k true = c := if_neg h

/-- A connection between two chunks: live, or stuck. -/
def Between (s : HttpConnection) : Prop := (∃ u, s.Live u) ∨ s.Stuck

theorem Between.parsing (h : s.Between) : s.context.Parsing := by
  rcases h with ⟨u, hlive⟩ | hstuck
  · exact hlive.clean.1
  · exact Or.inl hstuck.state

theorem Between.step (h : s.Between) (hread : s.handleRead cb k chunk = .ok s') : s'.Between := by
  rcases h with ⟨u, hlive⟩ | hstuck
  · obtain ⟨st, c, left, -, hr, -, -, hwait, hdone, hrej⟩ := hlive.handle cb k chunk
    obtain rfl := Except.ok.inj (hr.symm.trans hread)
    cases st with
    | waiting => exact Or.inl ⟨_, hwait rfl⟩
    | done => exact Or.inl ⟨_, hdone rfl⟩
    | rejected => exact Or.inr (hrej rfl)
  · exact Or.inr (hstuck.step hread).1

theorem between_receive (chunks : List (Bytes × Timestamp)) : ∀ {s s' : HttpConnection},
    s.Between → receive cb k s chunks = .ok s' → s'.Between := by
  induction chunks with
  | nil =>
      rintro s s' h ⟨⟩
      exact h
  | cons chunk rest ih =>
      intro s s' h hrun
      obtain ⟨s₁, hread, hrest⟩ := bind_eq_ok hrun
      exact ih (h.step hread) hrest

/-- The parser's outcome behind a call. -/
theorem handleRead_ok (h : s.Between) (hread : s.handleRead cb k chunk = .ok s') :
    ∃ o, (parser chunk.2).run s.context (s.inputBuffer ++ chunk.1) = .ok o ∧
      s' = afterRun cb k s o := by
  rw [handleRead_run h.parsing] at hread
  cases hr : (parser chunk.2).run s.context (s.inputBuffer ++ chunk.1) with
  | error e => rw [hr] at hread; cases hread
  | ok o =>
      rw [hr] at hread
      exact ⟨o, rfl, (Except.ok.inj hread).symm⟩

theorem handleRead_closing (h : s.Between) (hclosing : s.Closing)
    (hread : s.handleRead cb k chunk = .ok s') : s'.conn = s.conn := by
  obtain ⟨⟨st, c, left⟩, -, rfl⟩ := handleRead_ok h hread
  cases st with
  | waiting => rfl
  | done =>
      simp only [afterRun, onRequest, TcpConnection.sendBuffer_eq_sendPiece,
        sendPiece_closing hclosing, shutdown_again hclosing, ite_self]
  | rejected => simp only [afterRun, sendPiece_closing hclosing, shutdown_again hclosing]

/-- **What is served after `shutdown` is answered to nobody.** -/
theorem receive_closing (chunks : List (Bytes × Timestamp)) : ∀ {s s' : HttpConnection},
    s.Between → s.Closing → receive cb k s chunks = .ok s' → s'.conn = s.conn := by
  induction chunks with
  | nil =>
      rintro s s' - - ⟨⟩
      rfl
  | cons chunk rest ih =>
      intro s s' h hclosing hrun
      obtain ⟨s₁, hread, hrest⟩ := bind_eq_ok hrun
      have hconn := handleRead_closing h hclosing hread
      have hclosing₁ : s₁.Closing := by rwa [Closing, hconn]
      rw [ih (h.step hread) hclosing₁ hrest, hconn]

/-! ## The decision to close -/

/-- The chunk is answered with 400. -/
def Rejected (s : HttpConnection) (chunk : Bytes × Timestamp) : Prop :=
  ∃ p, s.parseAt chunk = .ok p ∧ p.ok = false

/-- The call in between ended in a response that closes the connection. -/
def ClosedBy (s s' : HttpConnection) : Prop :=
  ∃ resp, s'.responses = s.responses ++ [resp] ∧ resp.closeConnection = true

theorem Between.rejected (h : s.Between) (hread : s.handleRead cb k chunk = .ok s')
    (hrej : s.Rejected chunk) : s'.Stuck ∧ s'.Closing := by
  obtain ⟨⟨st, c, left⟩, hrun, rfl⟩ := handleRead_ok h hread
  obtain ⟨p, hp, hok⟩ := hrej
  rw [parseAt, parseRequest_bytes _ h.parsing, hrun] at hp
  obtain rfl := Except.ok.inj hp
  obtain rfl : st = .rejected := by
    cases st with
    | rejected => rfl
    | waiting => cases hok
    | done => cases hok
  refine ⟨?_, shutdown_closing _⟩
  rcases h with ⟨u, hlive⟩ | hstuck
  · obtain ⟨st, c', left', hr, -, -, -, -, -, hstuck⟩ := hlive.handle cb k chunk
    rw [hrun] at hr
    cases hr
    exact hstuck rfl
  · exact (hstuck.step hread).1

theorem Between.closedBy (h : s.Between) (hread : s.handleRead cb k chunk = .ok s')
    (hclosed : s.ClosedBy s') : s'.Live s'.inputBuffer ∧ s'.Closing := by
  obtain ⟨⟨st, c, left⟩, hrun, rfl⟩ := handleRead_ok h hread
  obtain ⟨resp, hresp, hclose⟩ := hclosed
  cases st with
  | waiting => exact absurd (congrArg List.length hresp) (by simp [afterRun])
  | done =>
      refine ⟨live_reset rfl rfl, ?_⟩
      have heq : cb s.requests.length c.request (.new (wantsClose c.request)) = resp :=
        (List.append_singleton_inj.mp hresp).2
      simp only [Closing, afterRun, onRequest, heq, hclose, if_true]
      exact shutdown_closing _
  | rejected => exact absurd (congrArg List.length hresp) (by simp [afterRun])

/-- **After a 400 nothing is served. After a response that closes, a request
is served exactly when a further chunk arrives and the unread bytes, followed
by those to come, start with a complete one.** Either way nothing more is
done to the connection. -/
theorem served_after_closing (cb : HttpCallback) (k : Kernel)
    (before after : List (Bytes × Timestamp)) (chunk : Bytes × Timestamp) (s s' : HttpConnection)
    (hs : receive cb k established before = .ok s) (hread : s.handleRead cb k chunk = .ok s') :
    (s.Rejected chunk → ¬ServedAgain cb k s' after) ∧
      (s.ClosedBy s' → (ServedAgain cb k s' after ↔
        after ≠ [] ∧ StartsRequest (s'.inputBuffer ++ bytesOf after))) ∧
      (s.Rejected chunk ∨ s.ClosedBy s' → ∀ mid post s'', after = mid ++ post →
        receive cb k s' mid = .ok s'' → s''.conn = s'.conn) := by
  have hbetween : s.Between := between_receive before (Or.inl ⟨_, live_established⟩) hs
  refine ⟨fun hrej => ?_, fun hclosed => ?_, ?_⟩
  · exact (hbetween.rejected hread hrej).1.not_servedAgain after
  · exact (hbetween.closedBy hread hclosed).1.served_iff after
  · rintro hdecided mid post s'' - hrun
    refine receive_closing mid (hbetween.step hread) ?_ hrun
    rcases hdecided with hrej | hclosed
    · exact (hbetween.rejected hread hrej).2
    · exact (hbetween.closedBy hread hclosed).2

/-! ### Two requests to a server that answers the first with a close -/

/-- What a rendered request is to the parser. -/
theorem startsRequest_render (r : RequestText) (rest : Bytes) : StartsRequest (r.render ++ rest) :=
  have ⟨w, hw, hreq⟩ := (run_done_iff rfl rfl).mp ⟨_, run_render fresh_new r rest⟩
  ⟨w, rest, hw, hreq⟩

/-- The first of them is answered, with the connection to be closed. -/
theorem handleRead_getRoot : ∃ s,
    handleRead defaultHttpCallback .eager established (getRoot.render, .invalid) = .ok s ∧
      established.ClosedBy s ∧ s.inputBuffer = [] := by
  have hrun : (parser .invalid).run .new ([] ++ getRoot.render) = .ok (.done, _, _) :=
    (List.append_nil _).symm ▸ run_render fresh_new getRoot []
  refine ⟨_, by rw [handleRead_run (Or.inl rfl)]; exact congrArg (Except.map _) hrun, ?_, rfl⟩
  exact ⟨_, rfl, rfl⟩

/-- The second is served all the same. -/
theorem served_after_closing_twice : ∃ s,
    handleRead defaultHttpCallback .eager established (getRoot.render, .invalid) = .ok s ∧
      ServedAgain defaultHttpCallback .eager s [(getRoot.render, .invalid)] := by
  obtain ⟨s, hs, hclosed, hbuf⟩ := handleRead_getRoot
  refine ⟨s, hs, ?_⟩
  have h := served_after_closing defaultHttpCallback .eager [] [(getRoot.render, .invalid)] _ _ _
    rfl hs
  rw [h.2.1 hclosed, hbuf]
  exact ⟨List.cons_ne_nil _ _, startsRequest_render getRoot []⟩

theorem served_after_close :
    ¬∀ (cb : HttpCallback) (k : Kernel) (before after : List (Bytes × Timestamp))
      (chunk : Bytes × Timestamp) (s s' : HttpConnection),
      receive cb k established before = .ok s → s.handleRead cb k chunk = .ok s' →
      s.Rejected chunk ∨ s.ClosedBy s' → ¬ServedAgain cb k s' after := by
  intro h
  obtain ⟨s, hs, hclosed, hbuf⟩ := handleRead_getRoot
  have hnone := h defaultHttpCallback .eager [] [(getRoot.render, .invalid)] _ _ _ rfl hs
    (Or.inr hclosed)
  have hlive := (Between.closedBy (Or.inl ⟨_, live_established⟩) hs hclosed).1
  rw [hlive.served_iff, hbuf] at hnone
  exact hnone ⟨List.cons_ne_nil _ _, startsRequest_render getRoot []⟩

end HttpConnection

end Muduo
