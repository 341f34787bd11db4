import Muduo.Http.Grammar

/-!
# Where the headers end

The header branch of `parseRequest` takes a line without a colon for the end
of the request, whatever else stands in it; the comment on that branch calls
it the empty line. `headers_end_iff` says on which buffers the two are the
same thing: those whose first line without a colon, if there is one, is
empty. On every other buffer the request ends early and the lines after it
are the next request (`headers_end_early`).
-/

namespace Muduo

open Lib HttpRequest InputBuffer

/-- Complete header lines with a colon. -/
inductive FieldLines : Bytes → Prop where
  | nil : FieldLines []
  | cons {line s : Bytes} : search kCRLF line = none → 58 ∈ line → FieldLines s →
      FieldLines (line ++ (kCRLF ++ s))

/-- `line` is the first complete line without a colon. -/
def FirstColonless (bytes line : Bytes) : Prop :=
  ∃ fields rest, FieldLines fields ∧ bytes = fields ++ (line ++ (kCRLF ++ rest)) ∧
    search kCRLF line = none ∧ 58 ∉ line

/-- `line` is the last of the complete lines `bytes` consists of. -/
def IsLastLine (bytes line : Bytes) : Prop :=
  ∃ before, bytes = before ++ (line ++ kCRLF) ∧ search kCRLF line = none ∧
    (before = [] ∨ kCRLF <:+ before)

/-- Lines with a colon end in a CRLF, if there are any. -/
theorem FieldLines.ends {s : Bytes} (h : FieldLines s) : s = [] ∨ kCRLF <:+ s := by
  induction h with
  | nil => exact Or.inl rfl
  | @cons line s _ _ _ ih =>
      right
      rcases ih with rfl | ih
      · rw [List.append_nil]
        exact List.suffix_append line kCRLF
      · exact (ih.trans (List.suffix_append kCRLF s)).trans (List.suffix_append line _)

/-- What the parser takes for headers is lines with a colon and one without. -/
theorem IsHeaders.split {w : Bytes} (h : IsHeaders w) :
    ∃ fields line, w = fields ++ (line ++ kCRLF) ∧ FieldLines fields ∧
      search kCRLF line = none ∧ 58 ∉ line := by
  induction h with
  | @last line hs hcolon => exact ⟨[], line, rfl, .nil, hs, hcolon⟩
  | @field line s hs hcolon _ ih =>
      obtain ⟨fields, last, rfl, hf, hlast⟩ := ih
      refine ⟨line ++ (kCRLF ++ fields), last, ?_, .cons hs hcolon hf, hlast⟩
      simp only [List.append_assoc]

theorem FieldLines.isHeaders {fields line : Bytes} (h : FieldLines fields)
    (hs : search kCRLF line = none) (hcolon : 58 ∉ line) :
    IsHeaders (fields ++ (line ++ kCRLF)) := by
  induction h with
  | nil => exact .last hs hcolon
  | @cons first s hfirst hmem _ ih =>
      rw [List.append_assoc, List.append_assoc]
      exact .field hfirst hmem ih

/-- A string cut at its first CRLF is cut in one way. -/
theorem line_inj {line line' r r' : Bytes} (hs : search kCRLF line = none)
    (hs' : search kCRLF line' = none)
    (h : line ++ (kCRLF ++ r) = line' ++ (kCRLF ++ r')) : line = line' ∧ r = r' := by
  have hlen : line.length = line'.length := by
    have hfirst := search_line r hs
    rw [h, search_line r' hs'] at hfirst
    exact (Option.some.inj hfirst).symm
  obtain ⟨hline, htail⟩ := List.append_inj h hlen
  exact ⟨hline, List.append_cancel_left htail⟩

/-- There is one first line without a colon at most. -/
theorem FirstColonless.unique {bytes line line' : Bytes} (h : FirstColonless bytes line)
    (h' : FirstColonless bytes line') : line = line' := by
  obtain ⟨fields, rest, hf, hbytes, hs, hcolon⟩ := h
  obtain ⟨fields', rest', hf', hbytes', hs', hcolon'⟩ := h'
  induction hf generalizing fields' bytes with
  | nil =>
      cases hf' with
      | nil => exact (line_inj hs hs' (hbytes.symm.trans hbytes')).1
      | @cons first' s' hfirst' hmem' _ =>
          rw [List.append_assoc, List.append_assoc] at hbytes'
          obtain ⟨rfl, -⟩ := line_inj hs hfirst' (hbytes.symm.trans hbytes')
          exact absurd hmem' hcolon
  | @cons first s hfirst hmem _ ih =>
      rw [List.append_assoc, List.append_assoc] at hbytes
      cases hf' with
      | nil =>
          obtain ⟨rfl, -⟩ := line_inj hfirst hs' (hbytes.symm.trans hbytes')
          exact absurd hmem hcolon'
      | @cons first' s' hfirst' hmem' hf' =>
          rw [List.append_assoc, List.append_assoc] at hbytes'
          obtain ⟨-, htail⟩ := line_inj hfirst hfirst' (hbytes.symm.trans hbytes')
          exact ih rfl s' hf' htail

variable {β : Type} [InputBuffer β] {buf : β} {c : HttpContext} {t : Timestamp}

/-- The bytes a call consumed. -/
def Consumed (buf : β) (p : Parsed β) (bytes : Bytes) : Prop :=
  readable buf = bytes ++ readable p.buf

/-- Headers end at the blank line and nowhere else: a call that moves the
context to `kGotAll` has consumed an empty line last, and a first line
without a colon that is not empty makes the call return false. -/
structure EndsAtBlank (buf : β) (c : HttpContext) (t : Timestamp) : Prop where
  blank : ∀ p, parseRequest buf c t = .ok p → p.context.gotAll = true →
    ∃ bytes, Consumed buf p bytes ∧ IsLastLine bytes []
  rejects : ∀ line, FirstColonless (readable buf) line → line ≠ [] →
    ∃ p, parseRequest buf c t = .ok p ∧ p.ok = false ∧ p.context.gotAll = false

/-- A call that ends the request has consumed headers. -/
theorem parseRequest_gotAll (hc : c.state = .kExpectHeaders) {p : Parsed β}
    (hp : parseRequest buf c t = .ok p) (hg : p.context.gotAll = true) :
    ∃ w, Consumed buf p w ∧ IsHeaders w := by
  have hparsing : c.Parsing := Or.inr hc
  have hrun := parseRequest_run (t := t) buf hparsing
  rw [hp] at hrun
  cases hr : (parser t).run c (readable buf) with
  | error e => rw [hr] at hrun; cases hrun
  | ok o =>
      obtain ⟨st, c', rest⟩ := o
      rw [hr] at hrun
      obtain ⟨-, hctx, hrest⟩ := Parsed.mk.inj (Except.ok.inj hrun)
      have hend := run_state hparsing hr
      have hctx' : p.context = c' := hctx
      rw [hctx'] at hg
      cases st with
      | waiting =>
          rw [HttpContext.Parsing.not_gotAll hend] at hg
          cases hg
      | rejected =>
          rw [HttpContext.gotAll, hend] at hg
          cases hg
      | done =>
          obtain ⟨w, hw, hheaders⟩ := run_headers_done hc hr
          exact ⟨w, hw.trans (congrArg (w ++ ·) hrest.symm), hheaders⟩

/-- A complete line without a colon ends the request, whatever it is. -/
theorem parseRequest_colonless (hc : c.state = .kExpectHeaders) {line : Bytes}
    (h : FirstColonless (readable buf) line) (t : Timestamp) :
    ∃ p, parseRequest buf c t = .ok p ∧ p.ok = true ∧ p.context.gotAll = true := by
  obtain ⟨fields, rest, hf, hbytes, hs, hcolon⟩ := h
  obtain ⟨c', hr⟩ := (hf.isHeaders hs hcolon).run t rest hc
  have hparsing : c.Parsing := Or.inr hc
  have hsplit : readable buf = (fields ++ (line ++ kCRLF)) ++ rest := by
    rw [hbytes]
    simp only [List.append_assoc]
  have hrun := parseRequest_run (t := t) buf hparsing
  have hend := run_state hparsing hr
  rw [hsplit, hr] at hrun
  cases hp : parseRequest buf c t with
  | error e => rw [hp] at hrun; cases hrun
  | ok p =>
      rw [hp] at hrun
      obtain ⟨hok, hctx, -⟩ := Parsed.mk.inj (Except.ok.inj hrun)
      have hctx' : p.context = c' := hctx
      refine ⟨p, rfl, hok, ?_⟩
      rw [hctx', HttpContext.gotAll, hend]
      rfl

/-- **Headers end at the blank line exactly on the buffers whose first line
without a colon is blank.** -/
theorem headers_end_iff (buf : β) (hc : c.state = .kExpectHeaders) (t : Timestamp) :
    EndsAtBlank buf c t ↔ ∀ line, FirstColonless (readable buf) line → line = [] := by
  constructor
  · intro h line hline
    by_contra hne
    obtain ⟨p, hp, -, hgot⟩ := h.rejects line hline hne
    obtain ⟨p', hp', -, hgot'⟩ := parseRequest_colonless hc hline t
    obtain rfl := Except.ok.inj (hp.symm.trans hp')
    rw [hgot] at hgot'
    cases hgot'
  · intro h
    constructor
    · intro p hp hg
      obtain ⟨w, hw, hheaders⟩ := parseRequest_gotAll hc hp hg
      obtain ⟨fields, line, rfl, hf, hs, hcolon⟩ := hheaders.split
      have hfirst : FirstColonless (readable buf) line := by
        refine ⟨fields, readable p.buf, hf, ?_, hs, hcolon⟩
        rw [hw]
        simp only [List.append_assoc]
      obtain rfl := h line hfirst
      exact ⟨_, hw, fields, rfl, hs, hf.ends⟩
    · intro line hline hne
      exact absurd (h line hline) hne

/-- On a header line, the blank line and the start of another request. -/
theorem headers_end_iff_blank :
    EndsAtBlank (str "Host: a\r\n\r\nGET") ⟨.kExpectHeaders, .new⟩ .invalid := by
  refine (headers_end_iff (str "Host: a\r\n\r\nGET") rfl .invalid).mpr ?_
  have hblank : FirstColonless (str "Host: a\r\n\r\nGET") [] :=
    ⟨str "Host: a" ++ (kCRLF ++ []), str "GET", .cons (by decide) (by decide) .nil,
      by decide, by decide, by decide⟩
  exact fun line hline => hline.unique hblank

/-- A line without a colon that is not blank, and a request after it: the
call ends the request at the line, and the next one reads the other. -/
theorem headers_end_early :
    ¬∀ (buf : Bytes) (c : HttpContext) (t : Timestamp), c.state = .kExpectHeaders →
      EndsAtBlank buf c t := by
  intro h
  have hends := h (str "foo\r\nGET / HTTP/1.1\r\n\r\n") ⟨.kExpectHeaders, .new⟩ .invalid rfl
  have hline : FirstColonless (str "foo\r\nGET / HTTP/1.1\r\n\r\n") (str "foo") :=
    ⟨[], str "GET / HTTP/1.1\r\n\r\n", .nil, by decide, by decide, by decide⟩
  obtain ⟨p, hp, hok, -⟩ := hends.rejects _ hline (by decide)
  have habs : (parseRequest (str "foo\r\nGET / HTTP/1.1\r\n\r\n") ⟨.kExpectHeaders, .new⟩
      .invalid).map Parsed.ok = .ok true := by decide +kernel
  rw [hp] at habs
  cases hok.symm.trans (Except.ok.inj habs)

end Muduo
