import Muduo.Lib.Search

/-!
# Line machines

An incremental reader that consumes complete lines: it looks for the first
terminator, hands the bytes before it to `onLine`, and goes on after it, or
stops with the line consumed (`done`) or left in place (`reject`). With no
complete line it waits.

The result that matters is `run_append`: what is read from `buf ++ more` is
what is read from `buf`, continued where that stopped. Hence feeding a
stream in chunks is feeding it at once (`feed_eq_run`).
-/

namespace Lib

/-- What a machine makes of a line. -/
inductive Verdict (σ : Type) where
  | next (s : σ)
  | done (s : σ)
  | reject (s : σ)

def Verdict.map {σ σ' : Type} (f : σ → σ') : Verdict σ → Verdict σ'
  | .next s => .next (f s)
  | .done s => .done (f s)
  | .reject s => .reject (f s)

/-- How a run over the bytes at hand ended. -/
inductive Status where
  | waiting | done | rejected
deriving DecidableEq, Repr

structure LineMachine (σ ε α : Type) where
  sep : List α
  sep_ne : sep ≠ []
  onLine : σ → List α → Except ε (Verdict σ)

namespace LineMachine

variable {σ σ' ε α τ : Type} [DecidableEq α] (M : LineMachine σ ε α)

/-- Consume complete lines until the machine stops or has to wait; the state
and the unread bytes. -/
def run (s : σ) (buf : List α) : Except ε (Status × σ × List α) :=
  match _h : search M.sep buf with
  | none => .ok (.waiting, s, buf)
  | some i =>
      match M.onLine s (buf.take i) with
      | .error e => .error e
      | .ok (.next s') => run s' (buf.drop (i + M.sep.length))
      | .ok (.done s') => .ok (.done, s', buf.drop (i + M.sep.length))
      | .ok (.reject s') => .ok (.rejected, s', buf)
termination_by buf.length
decreasing_by
  have hle := search_le _h M.sep_ne
  have hpos := List.length_pos_iff.mpr M.sep_ne
  rw [List.length_drop]
  omega

variable {M} {s s' : σ} {buf : List α} {i : Nat}

/-! ## Unfolding -/

theorem run_waiting (h : search M.sep buf = none) : M.run s buf = .ok (.waiting, s, buf) := by
  rw [run]
  split
  · rfl
  · rename_i heq
    rw [h] at heq
    cases heq

theorem run_found (h : search M.sep buf = some i) :
    M.run s buf = match M.onLine s (buf.take i) with
      | .error e => .error e
      | .ok (.next s') => M.run s' (buf.drop (i + M.sep.length))
      | .ok (.done s') => .ok (.done, s', buf.drop (i + M.sep.length))
      | .ok (.reject s') => .ok (.rejected, s', buf) := by
  rw [run]
  split
  · rename_i heq
    rw [h] at heq
    cases heq
  · rename_i j heq
    obtain rfl := Option.some.inj (h.symm.trans heq)
    rfl

theorem run_next (h : search M.sep buf = some i)
    (hl : M.onLine s (buf.take i) = .ok (.next s')) :
    M.run s buf = M.run s' (buf.drop (i + M.sep.length)) := by
  rw [run_found h, hl]

theorem run_done (h : search M.sep buf = some i)
    (hl : M.onLine s (buf.take i) = .ok (.done s')) :
    M.run s buf = .ok (.done, s', buf.drop (i + M.sep.length)) := by
  rw [run_found h, hl]

theorem run_reject (h : search M.sep buf = some i)
    (hl : M.onLine s (buf.take i) = .ok (.reject s')) :
    M.run s buf = .ok (.rejected, s', buf) := by
  rw [run_found h, hl]

theorem run_error {e : ε} (h : search M.sep buf = some i)
    (hl : M.onLine s (buf.take i) = .error e) : M.run s buf = .error e := by
  rw [run_found h, hl]

/-- A line in front of the machine, its terminator being the first. -/
theorem run_line {line rest : List α}
    (h : search M.sep (line ++ (M.sep ++ rest)) = some line.length)
    (hl : M.onLine s line = .ok (.next s')) :
    M.run s (line ++ (M.sep ++ rest)) = M.run s' rest := by
  have hdrop : (line ++ (M.sep ++ rest)).drop (line.length + M.sep.length) = rest := by
    rw [← List.append_assoc, ← List.length_append]
    exact List.drop_left
  have htake : (line ++ (M.sep ++ rest)).take line.length = line := List.take_left
  rw [← htake] at hl
  rw [run_next h hl, hdrop]

/-- One induction for all facts about runs, with one case per way an
iteration can go. -/
theorem run_induction {P : σ → List α → Prop}
    (waiting : ∀ s buf, search M.sep buf = none → P s buf)
    (error : ∀ s buf i e, search M.sep buf = some i →
      M.onLine s (buf.take i) = .error e → P s buf)
    (next : ∀ s buf i s', search M.sep buf = some i →
      M.onLine s (buf.take i) = .ok (.next s') →
      P s' (buf.drop (i + M.sep.length)) → P s buf)
    (done : ∀ s buf i s', search M.sep buf = some i →
      M.onLine s (buf.take i) = .ok (.done s') → P s buf)
    (reject : ∀ s buf i s', search M.sep buf = some i →
      M.onLine s (buf.take i) = .ok (.reject s') → P s buf)
    (s : σ) (buf : List α) : P s buf := by
  induction hn : buf.length using Nat.strongRecOn generalizing s buf with
  | _ n ih =>
      cases hs : search M.sep buf with
      | none => exact waiting s buf hs
      | some i =>
          have hle := search_le hs M.sep_ne
          have hpos := List.length_pos_iff.mpr M.sep_ne
          have hlt : (buf.drop (i + M.sep.length)).length < n := by
            rw [List.length_drop]
            omega
          cases hl : M.onLine s (buf.take i) with
          | error e => exact error s buf i e hs hl
          | ok v =>
              cases v with
              | next s' => exact next s buf i s' hs hl (ih _ hlt s' _ rfl)
              | done s' => exact done s buf i s' hs hl
              | reject s' => exact reject s buf i s' hs hl

/-! ## Growing the buffer -/

/-- Where a run goes when `more` arrives after it. -/
def resume (M : LineMachine σ ε α) (more : List α) :
    Except ε (Status × σ × List α) → Except ε (Status × σ × List α)
  | .error e => .error e
  | .ok (.waiting, s, rest) => M.run s (rest ++ more)
  | .ok (.done, s, rest) => .ok (.done, s, rest ++ more)
  | .ok (.rejected, s, rest) => .ok (.rejected, s, rest ++ more)

/-- **Reading is resumable**: a run over `buf ++ more` is the run over `buf`,
resumed when `more` arrives. -/
theorem run_append (s : σ) (buf more : List α) :
    M.run s (buf ++ more) = M.resume more (M.run s buf) := by
  have htake : ∀ {buf : List α} {i : Nat}, search M.sep buf = some i →
      (buf ++ more).take i = buf.take i ∧
        (buf ++ more).drop (i + M.sep.length) = buf.drop (i + M.sep.length) ++ more := by
    intro buf i h
    have hle := search_le h M.sep_ne
    exact ⟨List.take_append_of_le_length (by omega), List.drop_append_of_le_length hle⟩
  induction s, buf using run_induction (M := M) with
  | waiting s buf h => rw [run_waiting h, resume]
  | error s buf i e h hl =>
      rw [run_error h hl, run_error (search_append more h) ((htake h).1 ▸ hl), resume]
  | next s buf i s' h hl ih =>
      rw [run_next h hl, run_next (search_append more h) ((htake h).1 ▸ hl), (htake h).2, ih]
  | done s buf i s' h hl =>
      rw [run_done h hl, run_done (search_append more h) ((htake h).1 ▸ hl), (htake h).2, resume]
  | reject s buf i s' h hl =>
      rw [run_reject h hl, run_reject (search_append more h) ((htake h).1 ▸ hl), resume]

/-- A machine that waits has no complete line left, so it keeps waiting. -/
theorem run_of_waiting {rest : List α} (h : M.run s buf = .ok (.waiting, s', rest)) :
    search M.sep rest = none := by
  induction s, buf using run_induction (M := M) with
  | waiting s buf hs =>
      rw [run_waiting hs] at h
      cases h
      exact hs
  | error s buf i e hs hl => rw [run_error hs hl] at h; cases h
  | next s buf i s₁ hs hl ih => exact ih (run_next hs hl ▸ h)
  | done s buf i s₁ hs hl => rw [run_done hs hl] at h; cases h
  | reject s buf i s₁ hs hl => rw [run_reject hs hl] at h; cases h

/-- The unread bytes are the end of those at hand. -/
theorem run_suffix {st : Status} {rest : List α} (h : M.run s buf = .ok (st, s', rest)) :
    rest <:+ buf := by
  induction s, buf using run_induction (M := M) with
  | waiting s buf hs =>
      rw [run_waiting hs] at h
      cases h
      exact List.suffix_rfl
  | error s buf i e hs hl => rw [run_error hs hl] at h; cases h
  | next s buf i s₁ hs hl ih => exact (ih (run_next hs hl ▸ h)).trans (List.drop_suffix _ _)
  | done s buf i s₁ hs hl =>
      rw [run_done hs hl] at h
      cases h
      exact List.drop_suffix _ _
  | reject s buf i s₁ hs hl =>
      rw [run_reject hs hl] at h
      cases h
      exact List.suffix_rfl

/-- A machine done exactly at the end of its input waits anywhere before. -/
theorem run_before_done {more : List α} (h : M.run s (buf ++ more) = .ok (.done, s', []))
    (hmore : more ≠ []) : ∃ s₁ rest, M.run s buf = .ok (.waiting, s₁, rest) := by
  rw [run_append] at h
  cases hr : M.run s buf with
  | error e => rw [hr] at h; cases h
  | ok o =>
      obtain ⟨st, s₁, rest⟩ := o
      rw [hr] at h
      cases st with
      | waiting => exact ⟨s₁, rest, rfl⟩
      | done =>
          obtain ⟨-, h⟩ := Prod.mk.inj (Except.ok.inj h)
          exact absurd (List.append_eq_nil_iff.mp (Prod.mk.inj h).2).2 hmore
      | rejected => cases h

/-! ## Homomorphisms -/

/-- The state of an outcome seen through `f`. -/
def mapState (f : σ → σ') (r : Except ε (Status × σ × List α)) :
    Except ε (Status × σ' × List α) :=
  r.map fun o => (o.1, f o.2.1, o.2.2)

/-- `M'` makes of every line, seen through `f`, what `M` makes of it. -/
structure Hom (M : LineMachine σ ε α) (M' : LineMachine σ' ε α) (f : σ → σ') : Prop where
  sep_eq : M'.sep = M.sep
  onLine_eq : ∀ s line, M'.onLine (f s) line = (M.onLine s line).map (Verdict.map f)

theorem Hom.run_eq {M' : LineMachine σ' ε α} {f : σ → σ'} (h : M.Hom M' f)
    (s : σ) (buf : List α) : M'.run (f s) buf = mapState f (M.run s buf) := by
  have hl' : ∀ {s line r}, M.onLine s line = r →
      M'.onLine (f s) line = r.map (Verdict.map f) := fun hl => by rw [h.onLine_eq, hl]
  have hs' : ∀ {buf r}, search M.sep buf = r → search M'.sep buf = r := fun hs => by
    rw [h.sep_eq, hs]
  induction s, buf using run_induction (M := M) with
  | waiting s buf hs => rw [run_waiting hs, run_waiting (hs' hs)]; rfl
  | error s buf i e hs hl => rw [run_error hs hl, run_error (hs' hs) (hl' hl)]; rfl
  | next s buf i s₁ hs hl ih =>
      rw [run_next hs hl, run_next (hs' hs) (hl' hl), h.sep_eq, ih]
  | done s buf i s₁ hs hl =>
      rw [run_done hs hl, run_done (hs' hs) (hl' hl), h.sep_eq]; rfl
  | reject s buf i s₁ hs hl => rw [run_reject hs hl, run_reject (hs' hs) (hl' hl)]; rfl

/-! ## Feeding chunks -/

/-- Chunks arriving one at a time, each with a tag the machine may use; the
feed ends at the first run that does not wait. The unread bytes are those
in the buffer followed by the chunks not yet delivered. -/
def feed (M : τ → LineMachine σ ε α) : σ → List α → List (List α × τ) →
    Except ε (Status × σ × List α)
  | s, buf, [] => .ok (.waiting, s, buf)
  | s, buf, (chunk, t) :: rest =>
      match (M t).run s (buf ++ chunk) with
      | .error e => .error e
      | .ok (.waiting, s', buf') => feed M s' buf' rest
      | .ok (st, s', buf') => .ok (st, s', buf' ++ (rest.map Prod.fst).flatten)

/-- **However the stream is cut, the outcome is that of reading it at once**,
seen through any `f` that forgets the tags. -/
theorem feed_eq_run {M : τ → LineMachine σ ε α} {M' : LineMachine σ' ε α} {f : σ → σ'}
    (h : ∀ t, (M t).Hom M' f) : ∀ (chunks : List (List α × τ)) (s : σ) (buf : List α),
      search M'.sep buf = none →
        mapState f (feed M s buf chunks) = M'.run (f s) (buf ++ (chunks.map Prod.fst).flatten)
  | [], s, buf, hbuf => by
      simp only [feed, List.map_nil, List.flatten_nil, List.append_nil]
      rw [run_waiting hbuf]
      rfl
  | (chunk, t) :: rest, s, buf, hbuf => by
      rw [List.map_cons, List.flatten_cons, ← List.append_assoc, run_append, (h t).run_eq, feed]
      cases hr : (M t).run s (buf ++ chunk) with
      | error e => rfl
      | ok o =>
          obtain ⟨st, s', buf'⟩ := o
          cases st with
          | waiting =>
              have hw : search M'.sep buf' = none := by
                rw [(h t).sep_eq]
                exact run_of_waiting hr
              exact feed_eq_run h rest s' buf' hw
          | done => rfl
          | rejected => rfl

end LineMachine

end Lib
