import Muduo.Http.Server

/-!
# Re-entering the parser after a rejected line

`setMethod` assigns the method before the rest of the request line is looked
at. A line that names a method and is malformed after it (`Malformed`) is
answered with 400 and a half-close, but it stays in the input buffer and the
context still expects a request line, now with a method set: the next chunk
brings the parser back to the same line and to `assert(method_ ==
kInvalid)`. `unharmed_iff` says that nothing else does: a run trips no
assertion and every rejection leaves the request as it was exactly when no
such line is ever the one to be read.
-/

namespace Muduo

open Lib HttpRequest

/-- The line names a method and is malformed after it. -/
def Malformed (line : Bytes) : Prop :=
  ∃ m rest, NamesMethod line m rest ∧ ∀ path v, ¬IsTarget rest path v

variable {t : Timestamp} {c c' : HttpContext} {line buf rest : Bytes} {st : Status}

theorem NamesMethod.unique {m m' rest' : Bytes} (h : NamesMethod line m rest)
    (h' : NamesMethod line m' rest') : m = m' ∧ rest = rest' := by
  obtain ⟨rfl, hm⟩ := h
  obtain ⟨heq, hm'⟩ := h'
  have hlen : m.length = m'.length := by
    rw [← idxOf_append_cons (methodOf_plain hm).1 (r := rest), heq,
      idxOf_append_cons (methodOf_plain hm').1]
  obtain ⟨h₁, h₂⟩ := List.append_inj heq hlen
  exact ⟨h₁, (List.cons.inj h₂).2⟩

/-! ## One line -/

/-- A malformed line is rejected with the method assigned. -/
theorem processRequestLine_malformed (hc : c.request.method = .kInvalid) (h : Malformed line) :
    ∃ c', processRequestLine line c = .ok (false, c') ∧ c'.request.method ≠ .kInvalid := by
  obtain ⟨m, rest, hm, hbad⟩ := h
  have hfalse : (processTarget { c.request with method := methodOf m } rest).1 = false := by
    rw [Bool.eq_false_iff]
    intro htrue
    obtain ⟨path, v, hv⟩ := processTarget_true_iff.mp htrue
    exact hbad path v hv
  refine ⟨_, by rw [processRequestLine_named hc hm, hfalse], ?_⟩
  rw [(processTarget_keeps _ rest).1]
  exact hm.2

/-- Any other rejected line leaves the context as it was. -/
theorem processRequestLine_rejected (hc : c.request.method = .kInvalid) (h : ¬Malformed line)
    (hr : processRequestLine line c = .ok (false, c')) : c' = c := by
  by_cases hn : ∃ m rest, NamesMethod line m rest
  · obtain ⟨m, rest, hm⟩ := hn
    have hgood : ∃ path v, IsTarget rest path v := by
      by_contra hno
      exact h ⟨m, rest, hm, fun path v hv => hno ⟨path, v, hv⟩⟩
    rw [processRequestLine_named hc hm, processTarget_true_iff.mpr hgood] at hr
    cases hr
  · rw [processRequestLine_unnamed hc fun m rest hm => hn ⟨m, rest, hm⟩] at hr
    cases hr
    rfl

/-! ## One call -/

/-- The line the parser is about to read as a request line, once it is
complete. -/
def RequestLineOf (s : HttpConnection) (chunk line : Bytes) : Prop :=
  s.context.state = .kExpectRequestLine ∧
    ∃ i, search kCRLF (s.inputBuffer ++ chunk) = some i ∧
      line = (s.inputBuffer ++ chunk).take i

/-- The chunk does not make the parser read a malformed line. -/
def Harmless (s : HttpConnection) (chunk : Bytes) : Prop :=
  ∀ line, RequestLineOf s chunk line → ¬Malformed line

/-- From a clean context a run ends in a verdict. Waiting, the context is
clean again; rejected, the line it had to read was the first it looked at. -/
theorem run_clean (hc : c.Clean) (buf : Bytes) :
    ∃ st c' rest, (parser t).run c buf = .ok (st, c', rest) ∧ (st = .waiting → c'.Clean) ∧
      (st = .rejected → c.state = .kExpectRequestLine ∧
        ∃ i, search kCRLF buf = some i ∧
          processRequestLine (buf.take i) c = .ok (false, c')) := by
  induction c, buf using LineMachine.run_induction (M := parser t) with
  | waiting c buf hs =>
      refine ⟨_, _, _, LineMachine.run_waiting hs, fun _ => hc, nofun⟩
  | error c buf i e hs hl =>
      obtain ⟨v, hv⟩ := onLine_ok (t := t) hc (buf.take i)
      have habs : Except.error e = Except.ok v := hl.symm.trans hv
      cases habs
  | next c buf i c₁ hs hl ih =>
      have hstate := onLine_next_parsing hl
      obtain ⟨st, c', rest, hr, hw, hrej⟩ := ih (HttpContext.clean_of_headers hstate)
      refine ⟨st, c', rest, (LineMachine.run_next hs hl).trans hr, hw, ?_⟩
      intro hst
      have habs := (hrej hst).1
      rw [hstate] at habs
      cases habs
  | done c buf i c₁ hs hl =>
      refine ⟨_, _, _, LineMachine.run_done hs hl, nofun, nofun⟩
  | reject c buf i c₁ hs hl =>
      obtain ⟨hstate, hr⟩ := onLine_reject hl
      refine ⟨_, _, _, LineMachine.run_reject hs hl, nofun, fun _ => ?_⟩
      exact ⟨hstate, i, hs, hr⟩

namespace HttpConnection

variable {cb : HttpCallback} {k : Kernel} {s s' : HttpConnection} {chunk : Bytes × Timestamp}

/-- What `parseRequest` is asked to do when a chunk arrives. -/
def parseAt (s : HttpConnection) (chunk : Bytes × Timestamp) : Except HttpFault (Parsed Bytes) :=
  parseRequest (s.inputBuffer ++ chunk.1) s.context chunk.2

/-- **One harmless chunk**: no assertion fails, a rejection leaves the
request as it was, and the context stays clean. -/
theorem handleRead_harmless (cb : HttpCallback) (k : Kernel) (hc : s.context.Clean)
    (h : Harmless s chunk.1) :
    ∃ s' p, s.handleRead cb k chunk = .ok s' ∧ s.parseAt chunk = .ok p ∧
      (p.ok = false → p.context.request = s.context.request) ∧ s'.context.Clean := by
  obtain ⟨st, c', rest, hr, hw, hrej⟩ := run_clean (t := chunk.2) hc (s.inputBuffer ++ chunk.1)
  have hparse : s.parseAt chunk = .ok (.ofRun (st, c', rest)) := by
    rw [parseAt, parseRequest_bytes _ hc.1, hr]
    rfl
  have hread : s.handleRead cb k chunk = .ok (afterRun cb k s (st, c', rest)) := by
    rw [handleRead_run hc.1, hr]
    rfl
  cases st with
  | waiting => exact ⟨_, _, hread, hparse, nofun, hw rfl⟩
  | done => exact ⟨_, _, hread, hparse, nofun, Or.inl rfl, fun _ => rfl⟩
  | rejected =>
      obtain ⟨hstate, i, hs, hline⟩ := hrej rfl
      have hsame : c' = s.context :=
        processRequestLine_rejected (hc.2 hstate) (h _ ⟨hstate, i, hs, rfl⟩) hline
      subst hsame
      exact ⟨_, _, hread, hparse, fun _ => rfl, hc⟩

/-- **A malformed line** is rejected with the request changed. -/
theorem parseAt_malformed {line : Bytes} (hc : s.context.Clean)
    (hline : RequestLineOf s chunk.1 line) (h : Malformed line) :
    ∃ p, s.parseAt chunk = .ok p ∧ p.ok = false ∧ p.context.request ≠ s.context.request := by
  obtain ⟨hstate, i, hs, rfl⟩ := hline
  have hinv := hc.2 hstate
  obtain ⟨c', hr, hm⟩ := processRequestLine_malformed hinv h
  have hl : onLine chunk.2 s.context ((s.inputBuffer ++ chunk.1).take i) = .ok (.reject c') := by
    rw [onLine_requestLine hstate, hr]
    rfl
  refine ⟨.ofRun (.rejected, c', s.inputBuffer ++ chunk.1), ?_, rfl, ?_⟩
  · rw [parseAt, parseRequest_bytes _ hc.1, LineMachine.run_reject (M := parser chunk.2) hs hl]
    rfl
  · intro heq
    have habs : c'.request.method = .kInvalid := (congrArg _ heq).trans hinv
    exact hm habs

/-! ## Whole runs -/

/-- Every chunk of the run satisfies `P` in the state it arrives in. -/
def AtEachChunk (cb : HttpCallback) (k : Kernel) (chunks : List (Bytes × Timestamp))
    (P : HttpConnection → Bytes × Timestamp → Prop) : Prop :=
  ∀ before chunk after s, chunks = before ++ chunk :: after →
    receive cb k established before = .ok s → P s chunk

theorem AtEachChunk.init {chunks : List (Bytes × Timestamp)}
    {P : HttpConnection → Bytes × Timestamp → Prop}
    (h : AtEachChunk cb k (chunks ++ [chunk]) P) : AtEachChunk cb k chunks P := by
  rintro before x after s rfl hs
  exact h before x (after ++ [chunk]) s (by simp) hs

/-- Harmless chunks are all handled, and leave the context clean. -/
theorem receive_harmless (chunks : List (Bytes × Timestamp))
    (h : AtEachChunk cb k chunks fun s chunk => Harmless s chunk.1) :
    ∃ s, receive cb k established chunks = .ok s ∧ s.context.Clean := by
  induction chunks using List.reverseRecOn with
  | nil => exact ⟨_, rfl, HttpContext.clean_new⟩
  | append_singleton chunks chunk ih =>
      obtain ⟨s, hs, hc⟩ := ih h.init
      obtain ⟨s', p, hread, -, -, hc'⟩ :=
        handleRead_harmless cb k hc (h chunks chunk [] s rfl hs)
      refine ⟨s', ?_, hc'⟩
      rw [receive_snoc, hs]
      exact hread

/-- A rejection leaves the request as it was before the line. -/
def RejectsCleanly (s : HttpConnection) (chunk : Bytes × Timestamp) : Prop :=
  ∀ p, s.parseAt chunk = .ok p → p.ok = false → p.context.request = s.context.request

/-- **No assertion fails and every rejection leaves the request as it was,
in a run, exactly when no chunk makes the parser read a request line that
names a method and is malformed after it.** -/
theorem unharmed_iff (cb : HttpCallback) (k : Kernel) (chunks : List (Bytes × Timestamp)) :
    ((∃ s, receive cb k established chunks = .ok s) ∧ AtEachChunk cb k chunks RejectsCleanly) ↔
      AtEachChunk cb k chunks fun s chunk => Harmless s chunk.1 := by
  constructor
  · rintro ⟨-, hclean⟩
    induction chunks using List.reverseRecOn with
    | nil =>
        intro before chunk after s h
        cases before <;> cases h
    | append_singleton chunks last ih =>
        have hinit := ih hclean.init
        rintro before chunk after s h hs line hline hbad
        rcases List.eq_nil_or_concat after with rfl | ⟨after, x, rfl⟩
        · -- the last chunk: all before it were harmless
          obtain ⟨rfl, hlast⟩ := List.append_inj' h rfl
          obtain ⟨s₁, hs₁, hc⟩ := receive_harmless chunks hinit
          obtain rfl := Except.ok.inj (hs.symm.trans hs₁)
          obtain ⟨p, hp, hok, hne⟩ := parseAt_malformed hc hline hbad
          exact hne (hclean chunks chunk [] s h hs p hp hok)
        · rw [List.concat_eq_append, ← List.cons_append, ← List.append_assoc] at h
          obtain ⟨rfl, -⟩ := List.append_inj' h rfl
          exact hinit before chunk after s rfl hs line hline hbad
  · intro h
    obtain ⟨s, hs, -⟩ := receive_harmless chunks h
    refine ⟨⟨s, hs⟩, ?_⟩
    rintro before chunk after s₁ rfl hs₁ p hp hok
    have hbefore : AtEachChunk cb k before fun s chunk => Harmless s chunk.1 := by
      rintro b x a s₂ rfl hs₂
      exact h b x (a ++ chunk :: after) s₂ (by simp) hs₂
    obtain ⟨s₂, hs₂, hc⟩ := receive_harmless before hbefore
    obtain rfl := Except.ok.inj (hs₁.symm.trans hs₂)
    obtain ⟨-, p', -, hp', hkeep, -⟩ :=
      handleRead_harmless cb k hc (h before chunk after s₁ rfl hs₁)
    obtain rfl := Except.ok.inj (hp.symm.trans hp')
    exact hkeep hok

/-- One malformed line, then any byte: the assertion fails. -/
theorem reentry_fails :
    ¬∀ (cb : HttpCallback) (k : Kernel) (chunks : List (Bytes × Timestamp)),
      (∃ s, receive cb k established chunks = .ok s) ∧
        AtEachChunk cb k chunks RejectsCleanly := by
  intro h
  have hrun := (h defaultHttpCallback .eager
    [(str "GET / FOO\r\n", .invalid), (str "x", .invalid)]).1
  have habs : receive defaultHttpCallback .eager established
      [(str "GET / FOO\r\n", .invalid), (str "x", .invalid)] = .error .methodNotInvalid := by
    decide +kernel
  obtain ⟨s, hs⟩ := hrun
  rw [habs] at hs
  cases hs

end HttpConnection

end Muduo
