import Muduo.Http.Pipeline

/-!
# Parsing inverts rendering

`run_render` gives the request back with its headers as the parser folds
them into its map. Here the headers come with the blanks around their
values apart (`SentHeader`), and the map is said by what it answers: each
name has the value of its last line (`headerMap_get`). The result is about
`parseRequest` itself, on any input buffer (`parseRequest_render`).
-/

namespace Muduo

open Lib InputBuffer HttpConnection

/-- A header as its sender has it: the value, and the blanks put around it. -/
structure SentHeader where
  name : Bytes
  before : Bytes
  value : Bytes
  after : Bytes
  name_plain : 58 ∉ name ∧ 13 ∉ name
  before_blank : ∀ c ∈ before, c = 32 ∨ c = 9
  after_blank : ∀ c ∈ after, c = 32 ∨ c = 9
  value_plain : 13 ∉ value
  value_trimmed : Unpadded isspace value

namespace SentHeader

/-- What stands before the colon and what stands after it. -/
def raw (h : SentHeader) : Bytes × Bytes := (h.name, h.before ++ (h.value ++ h.after))

/-- The value of the last header of that name. -/
def last (hs : List SentHeader) (name : Bytes) : Option Bytes :=
  ((hs.filter (·.name = name)).getLast?).map value

theorem last_concat (hs : List SentHeader) (h : SentHeader) (name : Bytes) :
    last (hs ++ [h]) name = if h.name = name then some h.value else last hs name := by
  rw [last, List.filter_append]
  by_cases hn : h.name = name
  · simp [hn]
  · simp [hn, last]

theorem isspace_blank {c : UInt8} (h : c = 32 ∨ c = 9) : isspace c = true := by
  rcases h with rfl | rfl <;> rfl

theorem blank_plain {pad : Bytes} (h : ∀ c ∈ pad, c = 32 ∨ c = 9) : 13 ∉ pad := fun hc => by
  rcases h 13 hc with h | h <;> cases h

theorem raw_plain (h : SentHeader) : 58 ∉ h.raw.1 ∧ 13 ∉ h.raw.1 ∧ 13 ∉ h.raw.2 := by
  refine ⟨h.name_plain.1, h.name_plain.2, ?_⟩
  simp only [raw, List.mem_append, not_or]
  exact ⟨blank_plain h.before_blank, h.value_plain, blank_plain h.after_blank⟩

/-- The parser takes off the blanks its sender put there. -/
theorem trim_raw (h : SentHeader) : RequestText.trim h.raw.2 = h.value :=
  strip_pad (fun c hc => isspace_blank (h.before_blank c hc))
    (fun c hc => isspace_blank (h.after_blank c hc)) h.value_trimmed

end SentHeader

namespace RequestText

/-- The request line of `r` with these header lines. -/
def withHeaders (r : RequestText) (hs : List SentHeader) : RequestText :=
  { r with
    headers := hs.map SentHeader.raw
    headers_plain := by
      intro f hf
      obtain ⟨h, -, rfl⟩ := List.mem_map.mp hf
      exact h.raw_plain }

/-- A later line of the same name overwrites an earlier one. -/
theorem headerMap_get (hs : List SentHeader) (name : Bytes) :
    (headerMap ∅ (hs.map SentHeader.raw))[name]? = SentHeader.last hs name := by
  induction hs using List.reverseRecOn with
  | nil => exact Std.ExtTreeMap.getElem?_empty
  | append_singleton hs h ih =>
      rw [List.map_append, headerMap, List.foldl_append]
      change ((headerMap ∅ (hs.map SentHeader.raw)).insert h.name (trim h.raw.2))[name]? = _
      rw [h.trim_raw, Std.ExtTreeMap.getElem?_insert, ih, SentHeader.last_concat]
      by_cases hn : h.name = name
      · rw [if_pos hn, if_pos (Std.LawfulEqCmp.compare_eq_iff_eq.mpr hn)]
      · have hne : ¬compare h.name name = .eq := fun he =>
          hn (Std.LawfulEqCmp.compare_eq_iff_eq.mp he)
        rw [if_neg hn, if_neg hne]

variable {β : Type} [InputBuffer β]

/-- **Parsing inverts rendering**: from a context in which nothing has been
read yet, a request is read back from its text, its headers with the value
of their last line, and the bytes after it are left in the buffer. -/
theorem parseRequest_render (r : RequestText) (hs : List SentHeader) (rest : Bytes) (buf : β)
    {c : HttpContext} (receiveTime : Timestamp) (hc : Fresh c)
    (hbuf : readable buf = (r.withHeaders hs).render ++ rest) :
    ∃ p, parseRequest buf c receiveTime = .ok p ∧ p.ok = true ∧ p.context.gotAll = true ∧
      p.context.request.method = HttpRequest.methodOf r.method ∧
      p.context.request.path = r.path ∧ p.context.request.version = r.version ∧
      (∀ name, p.context.request.headers[name]? = SentHeader.last hs name) ∧
      readable p.buf = rest := by
  have hfresh : Fresh c.eraseTime := ⟨hc.state, hc.method, hc.headers⟩
  obtain ⟨c', hrun, herase⟩ :=
    run_erased (t := receiveTime) (run_render hfresh (r.withHeaders hs) rest)
  have hread : c'.eraseTime =
      HttpContext.eraseTime ⟨.kGotAll, (r.withHeaders hs).toRequest⟩ := herase
  obtain ⟨hstate, hmethod, hpath, hversion, hheaders⟩ := HttpContext.eraseTime_inj hread
  have hparse := parseRequest_run (t := receiveTime) buf (Or.inl hc.state)
  rw [hbuf, hrun] at hparse
  cases hp : parseRequest buf c receiveTime with
  | error e => rw [hp] at hparse; cases hparse
  | ok p =>
      rw [hp] at hparse
      have hseen : p.seen = ⟨true, c', rest⟩ := Except.ok.inj hparse
      obtain ⟨hok, hctx, hrest⟩ := Parsed.mk.inj hseen
      refine ⟨p, rfl, hok, ?_, ?_, ?_, ?_, fun name => ?_, hrest⟩
      · rw [HttpContext.gotAll, hctx, hstate]
        rfl
      · exact hctx ▸ hmethod
      · exact hctx ▸ hpath
      · exact hctx ▸ hversion
      · rw [hctx, hheaders]
        exact headerMap_get hs name

/-- `Host` twice, the second time with blanks around a value with a colon. -/
def twoHosts : List SentHeader :=
  [⟨str "Host", [], str "a", [], by decide, by simp, by simp, by decide, by decide⟩,
    ⟨str "Host", [32, 9], str "b:80", [32], by decide, by simp, by simp, by decide, by decide⟩]

theorem parseRequest_render_twoHosts :
    ∃ p, parseRequest (str "GET / HTTP/1.1\r\nHost:a\r\nHost: \tb:80 \r\n\r\nrest") .new
        .invalid = .ok p ∧ p.ok = true ∧ p.context.gotAll = true ∧
      p.context.request.headers[str "Host"]? = some (str "b:80") ∧ p.buf = str "rest" := by
  obtain ⟨p, hp, hok, hall, -, -, -, hheaders, hrest⟩ :=
    parseRequest_render getRoot twoHosts (str "rest")
      (str "GET / HTTP/1.1\r\nHost:a\r\nHost: \tb:80 \r\n\r\nrest") (c := .new) .invalid
      ⟨rfl, rfl, rfl⟩ (by decide +kernel)
  exact ⟨p, hp, hok, hall, (hheaders _).trans (by decide), hrest⟩

end RequestText

end Muduo
