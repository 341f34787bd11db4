import Muduo.Http.Reentry

/-!
# The parser loop ends in the server

`parseBody` has no branch that does anything in the states `kExpectBody` and
`kGotAll`, and `parseRequest` would spin there for ever
(`parseRequest_diverges`). In the server it is never entered in one of them:
`onMessage` resets the context as soon as a request is complete, and no other
outcome of a call leaves the two states of `Parsing` (`receive_parsing`).
From those every iteration clears `hasMore` or consumes a line
(`parseBody_progress`), which is the measure the loop runs down.
-/

namespace Muduo

open Lib HttpRequest InputBuffer

/-! ## One iteration -/

variable {β : Type} [InputBuffer β] {t : Timestamp}

/-- Consuming a line leaves fewer bytes. -/
theorem retrieve_shorter {buf : β} {crlf : Nat} (h : findCRLF buf = some crlf) :
    (readable (retrieve buf (crlf + 2))).length < (readable buf).length := by
  have hle : crlf + kCRLF.length ≤ (readable buf).length := search_le h kCRLF_ne
  have htwo : kCRLF.length = 2 := rfl
  rw [readable_retrieveUntil h, List.length_drop]
  omega

/-- The next state of the loop ends it, or is one it runs in with fewer
bytes to read. -/
def LoopProgress (s s' : ParseState β) : Prop :=
  s'.hasMore = false ∨
    s'.context.Parsing ∧ (readable s'.buf).length < (readable s.buf).length

theorem parseBody_requestLine {s s' : ParseState β} (hs : s.context.state = .kExpectRequestLine)
    (h : parseBody t s = .ok s') : LoopProgress s s' := by
  unfold parseBody at h
  have hrl : s.context.expectRequestLine = true := by rw [HttpContext.expectRequestLine, hs]; rfl
  rw [if_pos hrl] at h
  cases hf : findCRLF s.buf with
  | none =>
      simp only [hf] at h
      cases h
      exact Or.inl rfl
  | some crlf =>
      simp only [hf] at h
      obtain ⟨⟨ok, c⟩, -, h⟩ := bind_eq_ok h
      cases ok with
      | false =>
          cases h
          exact Or.inl rfl
      | true =>
          cases h
          exact Or.inr ⟨Or.inr rfl, retrieve_shorter hf⟩

theorem parseBody_headers {s s' : ParseState β} (hs : s.context.state = .kExpectHeaders)
    (h : parseBody t s = .ok s') : LoopProgress s s' := by
  unfold parseBody at h
  have hrl : ¬s.context.expectRequestLine = true := by
    rw [HttpContext.expectRequestLine, hs]
    decide
  have hh : s.context.expectHeaders = true := by rw [HttpContext.expectHeaders, hs]; rfl
  rw [if_neg hrl, if_pos hh] at h
  cases hf : findCRLF s.buf with
  | none =>
      simp only [hf] at h
      cases h
      exact Or.inl rfl
  | some crlf =>
      simp only [hf] at h
      split at h
      · cases h
        exact Or.inr ⟨Or.inr hs, retrieve_shorter hf⟩
      · cases h
        exact Or.inl rfl

/-- **Each iteration strictly decreases the readable bytes or clears
`hasMore`.** -/
theorem parseBody_progress {s s' : ParseState β} (hp : s.context.Parsing)
    (h : parseBody t s = .ok s') : LoopProgress s s' := by
  rcases hp with hs | hs
  · exact parseBody_requestLine hs h
  · exact parseBody_headers hs h

/-- **The loop ends**, in any state with a branch and on any buffer, after
one iteration per byte and one more at most. -/
theorem loop_terminates (s : ParseState β) (hp : s.context.Parsing) (t : Timestamp) :
    ∃ r, whileFuel ParseState.hasMore (parseBody t) ((readable s.buf).length + 2) s = some r :=
  whileFuel_terminates (I := fun s : ParseState β => s.context.Parsing)
    (μ := fun s => (readable s.buf).length) (fun _ _ hs _ h => parseBody_progress hs h) hp

/-! ## The contexts the server enters it with -/

namespace HttpConnection

variable {cb : HttpCallback} {k : Kernel} {s s' : HttpConnection}

/-- Between two calls of `onMessage` the context is in a state with a
branch. -/
theorem handleRead_parsing (hp : s.context.Parsing) {chunk : Bytes × Timestamp}
    (h : s.handleRead cb k chunk = .ok s') : s'.context.Parsing := by
  rw [handleRead_run hp] at h
  cases hr : (parser chunk.2).run s.context (s.inputBuffer ++ chunk.1) with
  | error e => rw [hr] at h; cases h
  | ok o =>
      obtain ⟨st, c, rest⟩ := o
      have hend := run_state hp hr
      rw [hr] at h
      cases h
      cases st with
      | waiting => exact hend
      | rejected => exact Or.inl hend
      | done => exact Or.inl rfl

theorem receive_parsing (chunks : List (Bytes × Timestamp)) : ∀ {s s' : HttpConnection},
    s.context.Parsing → receive cb k s chunks = .ok s' → s'.context.Parsing := by
  induction chunks with
  | nil =>
      intro s s' hp h
      cases h
      exact hp
  | cons chunk rest ih =>
      intro s s' hp h
      obtain ⟨s₁, h₁, h₂⟩ := bind_eq_ok h
      exact ih (handleRead_parsing hp h₁) h₂

/-- **The parser loop always ends in the server.** Whatever chunks arrive,
`parseRequest` is only entered in a state with a branch; from such a state,
on any buffer, each iteration strictly decreases the readable bytes or clears
`hasMore`, and the loop ends. -/
theorem parser_ends (cb : HttpCallback) (k : Kernel) (chunks : List (Bytes × Timestamp)) :
    AtEachChunk cb k chunks (fun s _ => s.context.Parsing) ∧
      ∀ (β : Type) [InputBuffer β] (buf : β) (c : HttpContext) (t : Timestamp), c.Parsing →
        (∃ r, whileFuel ParseState.hasMore (parseBody t) ((readable buf).length + 2)
          ⟨true, true, buf, c⟩ = some r) ∧
        ∀ s s' : ParseState β, s.context.Parsing → parseBody t s = .ok s' →
          LoopProgress s s' := by
  refine ⟨?_, fun β _ buf c t hp => ⟨?_, fun s s' => parseBody_progress⟩⟩
  · rintro before chunk after s - h
    exact receive_parsing before HttpContext.parsing_new h
  · exact loop_terminates ⟨true, true, buf, c⟩ hp t

/-- Two chunks, and the loop on the second. -/
theorem parser_ends_two :
    AtEachChunk defaultHttpCallback .eager [(str "GET /", .invalid), (str " HTTP", .invalid)]
        (fun s _ => s.context.Parsing) ∧
      ∃ r, whileFuel ParseState.hasMore (parseBody .invalid) ((str "GET / HTTP").length + 2)
        ⟨true, true, str "GET / HTTP", .new⟩ = some r := by
  obtain ⟨hchunks, hloop⟩ := parser_ends defaultHttpCallback .eager
    [(str "GET /", .invalid), (str " HTTP", .invalid)]
  exact ⟨hchunks, (hloop Bytes (str "GET / HTTP") .new .invalid HttpContext.parsing_new).1⟩

end HttpConnection

end Muduo
