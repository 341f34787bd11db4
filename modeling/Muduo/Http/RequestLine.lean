import Muduo.Http.Parse

/-!
# What `processRequestLine` does to the request

Either the line does not start with one of the five methods and a space,
and nothing changes (`processRequestLine_unnamed`), or it does, and the
method is assigned before the rest of the line is looked at
(`processRequestLine_named`). The rest decides the verdict
(`processTarget_true_iff`) but never touches the method again.
-/

namespace Muduo

open Lib HttpRequest

/-- The line starts with a supported method and a space; `rest` is what
follows. -/
def NamesMethod (line m rest : Bytes) : Prop :=
  line = m ++ 32 :: rest ∧ methodOf m ≠ .kInvalid

/-- The two version bytes. -/
inductive VersionByte : UInt8 → Version → Prop where
  | http10 : VersionByte 48 .kHttp10
  | http11 : VersionByte 49 .kHttp11

/-- `path SP HTTP/1.d` -/
def IsTarget (rest path : Bytes) (v : Version) : Prop :=
  ∃ d, rest = path ++ 32 :: (str "HTTP/1." ++ [d]) ∧ 32 ∉ path ∧ VersionByte d v

theorem methodOf_cases {m : Bytes} (h : methodOf m ≠ .kInvalid) :
    m = str "GET" ∨ m = str "POST" ∨ m = str "HEAD" ∨ m = str "PUT" ∨ m = str "DELETE" := by
  unfold methodOf at h
  split_ifs at h with h₁ h₂ h₃ h₄ h₅
  · exact Or.inl h₁
  · exact Or.inr (Or.inl h₂)
  · exact Or.inr (Or.inr (Or.inl h₃))
  · exact Or.inr (Or.inr (Or.inr (Or.inl h₄)))
  · exact Or.inr (Or.inr (Or.inr (Or.inr h₅)))
  · exact absurd rfl h

/-- The name of a method holds no space, CR or LF. -/
theorem methodOf_plain {m : Bytes} (h : methodOf m ≠ .kInvalid) :
    32 ∉ m ∧ 13 ∉ m ∧ 10 ∉ m := by
  rcases methodOf_cases h with rfl | rfl | rfl | rfl | rfl <;> decide

/-! ## Version and path -/

theorem processVersion_true {r : HttpRequest} {s : Bytes}
    (h : (processVersion r s).1 = true) : ∃ d v, s = str "HTTP/1." ++ [d] ∧ VersionByte d v := by
  unfold processVersion at h
  split_ifs at h with hs h₁ h₀
  · obtain ⟨hlen, htake⟩ := hs
    refine ⟨49, .kHttp11, ?_, .http11⟩
    rw [← htake]
    obtain ⟨hlt, hget⟩ := List.getElem?_eq_some_iff.mp h₁
    rw [← hget, List.take_append_getElem hlt, List.take_of_length_le hlen.le]
  · obtain ⟨hlen, htake⟩ := hs
    refine ⟨48, .kHttp10, ?_, .http10⟩
    rw [← htake]
    obtain ⟨hlt, hget⟩ := List.getElem?_eq_some_iff.mp h₀
    rw [← hget, List.take_append_getElem hlt, List.take_of_length_le hlen.le]

theorem processVersion_eq (r : HttpRequest) {d : UInt8} {v : Version} (h : VersionByte d v) :
    processVersion r (str "HTTP/1." ++ [d]) = (true, r.setVersion v) := by
  cases h <;> rfl

theorem processTarget_cut (r : HttpRequest) {path rest : Bytes} (h : 32 ∉ path) :
    processTarget r (path ++ 32 :: rest) = processVersion (r.setPath path) rest := by
  have hne : path.length ≠ (path ++ 32 :: rest).length := by
    rw [List.length_append, List.length_cons]
    omega
  simp only [processTarget, idxOf_append_cons h, if_pos hne, take_cut, drop_cut]

theorem processTarget_none (r : HttpRequest) {rest : Bytes} (h : 32 ∉ rest) :
    processTarget r rest = (false, r) := by
  simp only [processTarget, idxOf_eq_length h, ne_eq, not_true_eq_false, if_false]

/-- A well-formed remainder is accepted, and says what path and version are. -/
theorem processTarget_eq (r : HttpRequest) {rest path : Bytes} {v : Version}
    (h : IsTarget rest path v) :
    processTarget r rest = (true, (r.setPath path).setVersion v) := by
  obtain ⟨d, rfl, hp, hd⟩ := h
  rw [processTarget_cut r hp, processVersion_eq _ hd]

theorem processTarget_true_iff {r : HttpRequest} {rest : Bytes} :
    (processTarget r rest).1 = true ↔ ∃ path v, IsTarget rest path v := by
  constructor
  · intro h
    by_cases hsp : rest.idxOf 32 = rest.length
    · rw [processTarget_none r (List.idxOf_eq_length_iff.mp hsp)] at h
      cases h
    · obtain ⟨path, s, rfl, hp⟩ := exists_cut hsp
      rw [processTarget_cut r hp] at h
      obtain ⟨d, v, rfl, hd⟩ := processVersion_true h
      exact ⟨path, v, d, rfl, hp, hd⟩
  · rintro ⟨path, v, h⟩
    rw [processTarget_eq r h]

/-- The remainder of the line does not touch the method, the receive time or
the headers. -/
theorem processTarget_keeps (r : HttpRequest) (rest : Bytes) :
    (processTarget r rest).2.method = r.method ∧
      (processTarget r rest).2.headers = r.headers := by
  by_cases hsp : rest.idxOf 32 = rest.length
  · rw [processTarget_none r (List.idxOf_eq_length_iff.mp hsp)]
    exact ⟨rfl, rfl⟩
  · obtain ⟨path, s, rfl, hp⟩ := exists_cut hsp
    rw [processTarget_cut r hp]
    unfold processVersion
    split_ifs <;> exact ⟨rfl, rfl⟩

/-! ## The whole line -/

variable {c : HttpContext} {line : Bytes}

theorem setMethod_eq {r : HttpRequest} (h : r.method = .kInvalid) (m : Bytes) :
    r.setMethod m = .ok (decide (methodOf m ≠ .kInvalid), { r with method := methodOf m }) := by
  unfold setMethod
  rw [check_of h]
  rfl

theorem processRequestLine_cut (hc : c.request.method = .kInvalid) {m rest : Bytes}
    (hm : 32 ∉ m) :
    processRequestLine (m ++ 32 :: rest) c =
      if methodOf m ≠ .kInvalid then
        let r := processTarget { c.request with method := methodOf m } rest
        .ok (r.1, { c with request := r.2 })
      else .ok (false, c) := by
  have hne : m.length ≠ (m ++ 32 :: rest).length := by
    rw [List.length_append, List.length_cons]
    omega
  simp only [processRequestLine, idxOf_append_cons hm, if_pos hne, take_cut, drop_cut,
    setMethod_eq hc, ok_bind]
  by_cases hk : methodOf m = .kInvalid
  · -- an unknown method assigns `kInvalid`, which is what was there
    have hreq : { c.request with method := methodOf m } = c.request := by rw [hk, ← hc]
    rw [if_neg (not_not.mpr hk), if_neg (by simp [hk]), hreq]
    rfl
  · rw [if_pos hk, if_pos (by simp [hk])]
    rfl

/-- A line that starts with a method and a space: the method is assigned,
whatever becomes of the rest. -/
theorem processRequestLine_named (hc : c.request.method = .kInvalid) {m rest : Bytes}
    (h : NamesMethod line m rest) :
    processRequestLine line c = .ok
      ((processTarget { c.request with method := methodOf m } rest).1,
        { c with request := (processTarget { c.request with method := methodOf m } rest).2 }) := by
  obtain ⟨rfl, hm⟩ := h
  rw [processRequestLine_cut hc (methodOf_plain hm).1, if_pos hm]

/-- Any other line is rejected and changes nothing. -/
theorem processRequestLine_unnamed (hc : c.request.method = .kInvalid)
    (h : ∀ m rest, ¬NamesMethod line m rest) :
    processRequestLine line c = .ok (false, c) := by
  by_cases hsp : line.idxOf 32 = line.length
  · simp only [processRequestLine, hsp, ne_eq, not_true_eq_false, if_false]
    rfl
  · obtain ⟨m, rest, rfl, hm⟩ := exists_cut hsp
    have hinv : ¬methodOf m ≠ .kInvalid := fun hne => h m rest ⟨rfl, hne⟩
    rw [processRequestLine_cut hc hm, if_neg hinv]

/-- With the method still unset the assertion holds, on every line. -/
theorem processRequestLine_ok (hc : c.request.method = .kInvalid) (line : Bytes) :
    ∃ r, processRequestLine line c = .ok r := by
  by_cases h : ∃ m rest, NamesMethod line m rest
  · obtain ⟨m, rest, h⟩ := h
    exact ⟨_, processRequestLine_named hc h⟩
  · have h' : ∀ m rest, ¬NamesMethod line m rest := fun m rest hn => h ⟨m, rest, hn⟩
    exact ⟨_, processRequestLine_unnamed hc h'⟩

/-- A line changes nothing in the context but the request. -/
theorem processRequestLine_state {r : Bool × HttpContext} (h : processRequestLine line c = .ok r) :
    r.2.state = c.state := by
  unfold processRequestLine at h
  by_cases hsp : line.idxOf 32 ≠ line.length
  · simp only [if_pos hsp] at h
    obtain ⟨⟨known, request⟩, -, h⟩ := bind_eq_ok h
    cases known <;> cases h <;> rfl
  · simp only [if_neg hsp] at h
    cases h
    rfl

end Muduo
