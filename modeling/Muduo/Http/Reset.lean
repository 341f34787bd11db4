import Muduo.Http.LineParser
import Muduo.Http.RequestLine

/-!
# What `reset` leaves behind

`HttpContext::reset` swaps the request with a new one, and
`HttpRequest::swap` exchanges every member but `version_`. A context is reset
to a new one exactly when its version was never set (`reset_eq_new_iff`); in
the contexts the parser can leave that is as long as no request line has been
accepted (`ParsedFrom.version`).
-/

namespace Muduo

open Lib HttpRequest InputBuffer

/-- The contexts any calls of `parseRequest` can leave, one after the other,
each on a buffer of its own. -/
inductive ParsedFrom : HttpContext → Prop where
  | new : ParsedFrom .new
  | call {c : HttpContext} {β : Type} [InputBuffer β] (buf : β) (t : Timestamp) {p : Parsed β} :
      ParsedFrom c → parseRequest buf c t = .ok p → ParsedFrom p.context

/-! ## The version -/

variable {c c' : HttpContext} {t : Timestamp} {line buf rest : Bytes}

/-- A version that is not one leaves the request as it was. -/
theorem processVersion_false {r : HttpRequest} {s : Bytes} (h : (processVersion r s).1 = false) :
    (processVersion r s).2 = r := by
  unfold processVersion at h ⊢
  split_ifs at h ⊢ <;> rfl

theorem processTarget_false {r : HttpRequest} {s : Bytes} (h : (processTarget r s).1 = false) :
    (processTarget r s).2.version = r.version := by
  by_cases hsp : s.idxOf 32 = s.length
  · rw [processTarget_none r (List.idxOf_eq_length_iff.mp hsp)]
  · obtain ⟨path, more, rfl, hp⟩ := exists_cut hsp
    rw [processTarget_cut r hp] at h ⊢
    rw [processVersion_false h]
    rfl

theorem processTarget_true {r : HttpRequest} {s : Bytes} (h : (processTarget r s).1 = true) :
    (processTarget r s).2.version ≠ .kUnknown := by
  obtain ⟨path, v, hv⟩ := processTarget_true_iff.mp h
  rw [processTarget_eq r hv]
  obtain ⟨d, -, -, hd⟩ := hv
  cases hd
  · exact nofun
  · exact nofun

/-- The version is set by the line that is accepted, and by no other. -/
theorem processRequestLine_version {ok : Bool} (hv : c.request.version = .kUnknown)
    (h : processRequestLine line c = .ok (ok, c')) :
    c'.request.version = .kUnknown ↔ ok = false := by
  unfold processRequestLine at h
  by_cases hsp : line.idxOf 32 ≠ line.length
  · simp only [if_pos hsp] at h
    obtain ⟨⟨known, r⟩, hset, h⟩ := bind_eq_ok h
    have hr : r.version = .kUnknown := by
      obtain ⟨-, -, hset⟩ := bind_eq_ok hset
      cases hset
      exact hv
    cases known with
    | false =>
        cases h
        exact ⟨fun _ => rfl, fun _ => hr⟩
    | true =>
        cases h
        cases htarget : (processTarget r (line.drop (line.idxOf 32 + 1))).1 with
        | false => exact ⟨fun _ => rfl, fun _ => (processTarget_false htarget).trans hr⟩
        | true => exact ⟨fun h => absurd h (processTarget_true htarget), nofun⟩
  · simp only [if_neg hsp] at h
    cases h
    exact ⟨fun _ => rfl, fun _ => hv⟩

/-- The version is known from the request line on. -/
def HttpContext.Versioned (c : HttpContext) : Prop :=
  c.request.version = .kUnknown ↔ c.state = .kExpectRequestLine

theorem run_versioned (hp : c.Parsing) (hc : c.Versioned) {st : Status}
    (h : (parser t).run c buf = .ok (st, c', rest)) : c'.Versioned := by
  induction c, buf using LineMachine.run_induction (M := parser t) with
  | waiting c buf hs =>
      rw [LineMachine.run_waiting hs] at h
      cases h
      exact hc
  | error c buf i e hs hl => rw [LineMachine.run_error hs hl] at h; cases h
  | next c buf i c₁ hs hl ih =>
      rw [LineMachine.run_next hs hl] at h
      refine ih (Or.inr (onLine_next_parsing hl)) ?_ h
      obtain ⟨hstate, d, hd, hv⟩ | ⟨-, d, -, hv⟩ | ⟨hstate, -, hv⟩ | ⟨-, -, hv⟩ := onLine_cases hl
      · cases hv
        have hset := processRequestLine_version (hc.mpr hstate) hd
        exact ⟨fun h => absurd (hset.mp h) nofun, nofun⟩
      · cases hv
      · cases hv
        exact hc
      · cases hv
  | done c buf i c₁ hs hl =>
      rw [LineMachine.run_done hs hl] at h
      cases h
      obtain ⟨hstate, rfl⟩ := onLine_done hl
      have hknown : c.request.version ≠ .kUnknown := fun h => by
        rw [hc.mp h] at hstate
        cases hstate
      exact ⟨fun h => absurd h hknown, nofun⟩
  | reject c buf i c₁ hs hl =>
      rw [LineMachine.run_reject hs hl] at h
      cases h
      obtain ⟨hstate, hr⟩ := onLine_reject hl
      have hsame := processRequestLine_state hr
      have hset := processRequestLine_version (hc.mpr hstate) hr
      exact ⟨fun _ => hsame.trans hstate, fun _ => hset.mpr rfl⟩

theorem ParsedFrom.versioned (h : ParsedFrom c) : c.Versioned := by
  induction h with
  | new => exact ⟨fun _ => rfl, fun _ => rfl⟩
  | @call c β _ buf t p _ hp ih =>
      by_cases hparsing : c.Parsing
      · have hrun := parseRequest_run (t := t) buf hparsing
        rw [hp] at hrun
        cases hr : (parser t).run c (readable buf) with
        | error e => rw [hr] at hrun; cases hrun
        | ok o =>
            rw [hr] at hrun
            obtain ⟨-, hctx, -⟩ := Parsed.mk.inj (Except.ok.inj hrun)
            have hctx' : p.context = o.2.1 := hctx
            rw [hctx']
            exact run_versioned hparsing ih hr
      · -- such a call does not return
        rw [(parseRequest_diverges (t := t) buf hparsing).2] at hp
        cases hp

/-! ## Reset and swap -/

theorem reset_eq_new_iff (c : HttpContext) : c.reset = .new ↔ c.request.version = .kUnknown := by
  constructor
  · intro h
    have hreq : c.reset.request.version = HttpContext.new.request.version := by rw [h]
    exact hreq
  · intro h
    unfold HttpContext.reset swap HttpContext.new
    rw [h]
    rfl

theorem swap_eq_iff (r r' : HttpRequest) : r.swap r' = (r', r) ↔ r.version = r'.version := by
  constructor
  · intro h
    have hfst : (r.swap r').1.version = r'.version := by rw [h]
    exact hfst
  · intro h
    unfold swap
    rw [h]
    exact Prod.ext rfl (by rw [← h])

/-- **`reset` restores the initial context as long as no request line has
been accepted**, whatever was parsed or rejected before, and `swap` exchanges
two requests exactly when their versions are equal. -/
theorem reset_restores_iff (h : ParsedFrom c) (r r' : HttpRequest) :
    (c.reset = .new ↔ c.expectRequestLine = true) ∧
      (r.swap r' = (r', r) ↔ r.version = r'.version) := by
  refine ⟨?_, swap_eq_iff r r'⟩
  have hversion : c.request.version = .kUnknown ↔ c.state = .kExpectRequestLine := h.versioned
  rw [reset_eq_new_iff, hversion, HttpContext.expectRequestLine, beq_iff_eq]

/-- After a line that was rejected. -/
theorem reset_restores_iff_rejected : ∃ p : Parsed Bytes,
    parseRequest (str "GET / FOO\r\n") .new .invalid = .ok p ∧ p.ok = false ∧
      p.context.request.method = .kGet ∧ p.context.reset = .new := by
  have hp : parseRequest (str "GET / FOO\r\n") HttpContext.new .invalid = .ok
      ⟨false, ⟨.kExpectRequestLine, { HttpRequest.new with method := .kGet, path := str "/" }⟩,
        str "GET / FOO\r\n"⟩ := by decide +kernel
  have hreset := reset_restores_iff (.call (str "GET / FOO\r\n") .invalid .new hp) .new .new
  exact ⟨_, hp, rfl, rfl, hreset.1.mpr rfl⟩

/-- A request line leaves its version behind, and `swap` does not exchange
the versions of two requests. -/
theorem reset_keeps_version :
    ¬(∀ c, ParsedFrom c → c.reset = .new) ∧
      ¬∀ r r' : HttpRequest, r.swap r' = (r', r) := by
  constructor
  · intro h
    have hp : (parseRequest (str "GET / HTTP/1.1\r\n") HttpContext.new .invalid).map
        (fun p => p.context.reset.request.version) = .ok .kHttp11 := by decide +kernel
    cases hr : parseRequest (str "GET / HTTP/1.1\r\n") HttpContext.new .invalid with
    | error e => rw [hr] at hp; cases hp
    | ok p =>
        rw [hr] at hp
        have hversion : p.context.reset.request.version = .kHttp11 := Except.ok.inj hp
        rw [h p.context (.call _ .invalid .new hr)] at hversion
        cases hversion
  · intro h
    have hswap := congrArg (fun x : HttpRequest × HttpRequest => x.1.version)
      (h .new { HttpRequest.new with version := .kHttp11 })
    cases hswap

end Muduo
