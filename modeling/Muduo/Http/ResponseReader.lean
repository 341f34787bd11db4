import Muduo.Http.RequestText
import Muduo.Http.Response
import Muduo.Lib.Framing

/-!
# Reading responses back

What a client does with the text of a response: a status line, header
lines up to the empty one, then exactly `Content-Length` bytes of body. The
head is read by a line machine (`headReader`); `readReply` reads one
response, and `readAll readReply` a whole connection.

The text of a keep-alive response with a body of less than 10^13 bytes
delimits itself (`selfDelimiting_text`), whatever the body holds: its length
fits the `char buf[32]` the header is printed in, and the lines before it
hold no CR of their own.
-/

namespace Muduo

open Lib

/-! ## The reader -/

def isDigit (d : UInt8) : Bool := 48 ≤ d && d ≤ 57

/-- How a client compares the names of header fields, and which blanks it
takes off around their values; it takes a number for a number. -/
structure Reading where
  same : Bytes → Bytes → Bool
  blank : UInt8 → Bool
  same_refl : ∀ a, same a a = true
  digit_plain : ∀ d, isDigit d = true → blank d = false

namespace Reading

/-- Names are compared byte by byte, and a value is all that follows `": "`. -/
def exact : Reading where
  same a b := a = b
  blank _ := false
  same_refl _ := decide_eq_true rfl
  digit_plain _ _ := rfl

def lower (c : UInt8) : UInt8 := if 65 ≤ c ∧ c ≤ 90 then c + 32 else c

/-- Names are compared without regard to case, and spaces and tabs around a
value are not part of it. -/
def lenient : Reading where
  same a b := a.map lower = b.map lower
  blank c := c = 32 || c = 9
  same_refl _ := decide_eq_true rfl
  digit_plain d hd := by
    simp only [Bool.or_eq_false_iff, decide_eq_false_iff_not]
    constructor
    · rintro rfl
      cases hd
    · rintro rfl
      cases hd

def strip (R : Reading) (v : Bytes) : Bytes := (v.dropWhile R.blank).rdropWhile R.blank

/-- The fields that frame the message are not part of its header map. -/
def framing (R : Reading) (name : Bytes) : Bool :=
  R.same name (str "Content-Length") || R.same name (str "Connection")

end Reading

/-- What a client knows of a response. -/
structure Reply where
  statusCode : Nat
  statusMessage : Bytes
  headers : HeaderMap
  body : Bytes
deriving DecidableEq

/-- The lines read so far: none, or the status line and some fields. -/
structure Head where
  status : Option (Nat × Bytes)
  fields : List (Bytes × Bytes)
deriving DecidableEq

def readNumber (s : Bytes) : Option Nat :=
  if s ≠ [] ∧ s.all isDigit then some (s.foldl (fun n d => 10 * n + (d.toNat - 48)) 0) else none

/-- `HTTP/1.1 SP code SP message` -/
def readStatusLine (line : Bytes) : Option (Nat × Bytes) :=
  if line.take 9 = str "HTTP/1.1 " then
    let s := line.drop 9
    let space := s.idxOf 32
    if space ≠ s.length then (readNumber (s.take space)).map fun n => (n, s.drop (space + 1))
    else none
  else none

/-- The name up to the first colon; of the rest, one space belongs to the
separator. -/
def readField (R : Reading) (line : Bytes) : Option (Bytes × Bytes) :=
  let colon := line.idxOf 58
  if colon ≠ line.length then
    let s := line.drop (colon + 1)
    some (line.take colon, R.strip (if s.head? = some 32 then s.tail else s))
  else none

def readHeadLine (R : Reading) (h : Head) (line : Bytes) : Except Empty (Verdict Head) :=
  match h.status with
  | none =>
      match readStatusLine line with
      | some s => .ok (.next { h with status := some s })
      | none => .ok (.reject h)
  | some _ =>
      if line = [] then .ok (.done h)
      else
        match readField R line with
        | some f => .ok (.next { h with fields := h.fields ++ [f] })
        | none => .ok (.reject h)

def headReader (R : Reading) : LineMachine Head Empty UInt8 where
  sep := kCRLF
  sep_ne := InputBuffer.kCRLF_ne
  onLine := readHeadLine R

def contentLength (R : Reading) (fields : List (Bytes × Bytes)) : Option Nat :=
  (fields.find? fun f => R.same f.1 (str "Content-Length")).bind fun f => readNumber f.2

def headersOf (R : Reading) (fields : List (Bytes × Bytes)) : HeaderMap :=
  .ofList (fields.filter fun f => !R.framing f.1) compare

def readReply (R : Reading) (s : Bytes) : Option (Reply × Bytes) :=
  match (headReader R).run ⟨none, []⟩ s with
  | .ok (.done, ⟨some (code, message), fields⟩, rest) => do
      let length ← contentLength R fields
      if length ≤ rest.length then
        return (⟨code, message, headersOf R fields, rest.take length⟩, rest.drop length)
      else none
  | _ => none

/-! ## Numbers -/

namespace HttpResponse

theorem toNat_toUInt8 {c : Char} (h : c.isDigit = true) :
    isDigit c.toUInt8 = true ∧ c.toUInt8.toNat = c.toNat := by
  simp only [Char.isDigit, Bool.and_eq_true, decide_eq_true_eq] at h
  have hlo : 48 ≤ c.toNat := UInt32.le_iff_toNat_le.mp h.1
  have hhi : c.toNat ≤ 57 := UInt32.le_iff_toNat_le.mp h.2
  have hval : c.toUInt8.toNat = c.toNat := by
    change c.toNat % 256 = c.toNat
    omega
  refine ⟨?_, hval⟩
  simp only [isDigit, Bool.and_eq_true, decide_eq_true_eq, UInt8.le_iff_toNat_le, hval]
  exact ⟨hlo, hhi⟩

theorem isDigit_of_mem_digits {n : Nat} {c : Char} (h : c ∈ Nat.toDigits 10 n) :
    c.isDigit = true :=
  Nat.isDigit_of_mem_toDigits (Nat.succ_pos 9) le_rfl h

theorem isDigit_of_mem_decimal {n : Nat} {d : UInt8} (h : d ∈ decimal n) : isDigit d = true := by
  obtain ⟨c, hc, rfl⟩ := List.mem_map.mp h
  exact (toNat_toUInt8 (isDigit_of_mem_digits hc)).1

theorem decimal_ne (n : Nat) : decimal n ≠ [] := by
  rw [decimal, ne_eq, List.map_eq_nil_iff]
  exact Nat.toDigits_ne_nil

theorem length_decimal_le_iff {n d : Nat} (hd : 0 < d) : (decimal n).length ≤ d ↔ n < 10 ^ d := by
  rw [decimal, List.length_map]
  exact Nat.length_toDigits_le_iff (by decide) hd

/-- A printed number is read back. -/
theorem readNumber_decimal (n : Nat) : readNumber (decimal n) = some n := by
  have hall : (decimal n).all isDigit = true :=
    List.all_eq_true.mpr fun d hd => isDigit_of_mem_decimal hd
  have hfold : ∀ (cs : List Char) (m : Nat), (∀ c ∈ cs, c.isDigit = true) →
      (cs.map Char.toUInt8).foldl (fun n d => 10 * n + (d.toNat - 48)) m =
        Nat.ofDigitChars 10 cs m := by
    intro cs
    induction cs with
    | nil => intro m _; rfl
    | cons c cs ih =>
        intro m hcs
        rw [List.map_cons, List.foldl_cons, Nat.ofDigitChars_cons,
          (toNat_toUInt8 (hcs c (List.mem_cons_self ..))).2]
        exact ih _ fun d hd => hcs d (List.mem_cons_of_mem _ hd)
  rw [readNumber, if_pos ⟨decimal_ne n, hall⟩, decimal,
    hfold _ _ fun c hc => isDigit_of_mem_digits hc, Nat.ofDigitChars_ten_toDigits]

theorem length_decimal_le {n : Nat} (h : n < 10 ^ 13) : (decimal n).length ≤ 13 :=
  (length_decimal_le_iff (Nat.succ_pos 12)).mpr h

theorem ofList_toList (m : HeaderMap) : Std.ExtTreeMap.ofList m.toList compare = m := by
  refine Std.ExtTreeMap.ext_getElem? fun k => ?_
  cases hk : m[k]? with
  | none =>
      refine Std.ExtTreeMap.getElem?_ofList_of_contains_eq_false ?_
      rw [Std.ExtTreeMap.map_fst_toList_eq_keys]
      simpa using hk
  | some v =>
      exact Std.ExtTreeMap.getElem?_ofList_of_mem (Std.LawfulEqCmp.compare_eq_iff_eq.mpr rfl)
        Std.ExtTreeMap.distinct_keys_toList
        (Std.ExtTreeMap.mem_toList_iff_getElem?_eq_some.mpr hk)

/-! ## The text of a keep-alive response -/

variable {R : Reading} {r : HttpResponse}

/-- `HTTP/1.1 SP code SP message` -/
def statusLine (r : HttpResponse) : Bytes :=
  str "HTTP/1.1 " ++ (decimal r.statusCode.value ++ 32 :: r.statusMessage)

/-- The fields in the order in which they are written. -/
def fields (r : HttpResponse) : List (Bytes × Bytes) :=
  (str "Content-Length", decimal r.body.length) :: (str "Connection", str "Keep-Alive") ::
    r.headers.toList

/-- Header lines and the empty line that ends them. -/
def fieldLines (fs : List (Bytes × Bytes)) : Bytes := (fs.map headerLine).flatten ++ crlf

/-- What the head of a response needs to be read back: no CR of its own, and
no colon in the name of a header. -/
structure Plain (r : HttpResponse) : Prop where
  keepAlive : r.closeConnection = false
  short : r.body.length < 10 ^ 13
  message : 13 ∉ r.statusMessage
  headers : ∀ f ∈ r.headers.toList, 58 ∉ f.1 ∧ 13 ∉ f.1 ∧ 13 ∉ f.2

/-- No header has a framing name or, for this client, blanks around its value. -/
def ReadableBy (R : Reading) (r : HttpResponse) : Prop :=
  ∀ f ∈ r.headers.toList, R.framing f.1 = false ∧ Unpadded R.blank f.2

/-- What the client is to find out. -/
def reply (r : HttpResponse) : Reply := ⟨r.statusCode.value, r.statusMessage, r.headers, r.body⟩

theorem snprintf32_status (code : HttpStatusCode) :
    snprintf32 (str "HTTP/1.1 " ++ decimal code.value ++ str " ") =
      str "HTTP/1.1 " ++ decimal code.value ++ str " " := by
  cases code <;> rfl

/-- The header lines, with the strings of the callback changed. -/
theorem map_headers {f : Bytes → Bytes} (hf : ∀ p, p.length < 32 → f p = p)
    (hs : List (Bytes × Bytes)) :
    ((hs.flatMap fun h => [h.1, str ": ", h.2, crlf]).map f).flatten =
      ((hs.map (Prod.map f f)).map headerLine).flatten := by
  have hcrlf : f crlf = crlf := hf _ (by decide)
  have hcolon : f (str ": ") = str ": " := hf _ (by decide)
  induction hs with
  | nil => rfl
  | cons h hs ih =>
      simp only [List.flatMap_cons, List.map_append, List.flatten_append, ih, List.map_cons,
        List.map_nil, List.flatten_cons, List.flatten_nil, hcolon, hcrlf, headerLine,
        Prod.map_fst, Prod.map_snd, List.append_assoc, List.nil_append]

/-- The head of a response with the strings of the callback changed: neither
numbered line is cut off by its `char buf[32]`. -/
theorem map_pieces_plain (h : r.Plain) {f : Bytes → Bytes} (hf : ∀ p, p.length < 32 → f p = p) :
    (r.pieces.map f).flatten =
      { r with statusMessage := f r.statusMessage }.statusLine ++ (kCRLF ++
        (fieldLines ((str "Content-Length", decimal r.body.length) ::
          (str "Connection", str "Keep-Alive") :: r.headers.toList.map (Prod.map f f)) ++
          f r.body)) := by
  have hlength : snprintf32 (str "Content-Length: " ++ decimal r.body.length ++ crlf) =
      str "Content-Length: " ++ decimal r.body.length ++ crlf := by
    have hdec := length_decimal_le h.short
    refine List.take_of_length_le ?_
    rw [List.length_append, List.length_append]
    change 16 + _ + 2 ≤ 31
    omega
  have hline (s : Bytes) : f (snprintf32 s) = snprintf32 s :=
    hf _ ((List.length_take_le 31 s).trans_lt (by decide))
  have hcrlf : f crlf = crlf := hf _ (by decide)
  have hconn : f (str "Connection: Keep-Alive" ++ crlf) = str "Connection: Keep-Alive" ++ crlf :=
    hf _ (by decide)
  simp only [pieces, h.keepAlive, Bool.false_eq_true, if_false, List.map_append,
    List.flatten_append, map_headers hf, List.map_cons, List.map_nil, List.flatten_cons,
    List.flatten_nil, hline, hcrlf, hconn]
  rw [snprintf32_status, hlength]
  simp only [statusLine, fieldLines, List.map_cons, List.flatten_cons, headerLine,
    List.append_assoc, List.append_nil]
  rfl

theorem text_plain (h : r.Plain) :
    r.text = r.statusLine ++ (kCRLF ++ (fieldLines r.fields ++ r.body)) := by
  have hmap := map_pieces_plain h (f := id) fun _ _ => rfl
  rwa [Prod.map_id, List.map_id, List.map_id] at hmap

/-! ## Reading a response -/

theorem readStatusLine_statusLine (r : HttpResponse) :
    readStatusLine r.statusLine = some (r.statusCode.value, r.statusMessage) := by
  have hsp : 32 ∉ decimal r.statusCode.value := fun h => by
    cases isDigit_of_mem_decimal h
  have hne : (decimal r.statusCode.value).length ≠
      (decimal r.statusCode.value ++ 32 :: r.statusMessage).length := by
    rw [List.length_append, List.length_cons]
    omega
  have htake : r.statusLine.take 9 = str "HTTP/1.1 " := List.take_left' rfl
  have hdrop : r.statusLine.drop 9 = decimal r.statusCode.value ++ 32 :: r.statusMessage :=
    List.drop_left' rfl
  simp only [readStatusLine, htake, hdrop, if_true, idxOf_append_cons hsp, if_pos hne, take_cut,
    drop_cut, readNumber_decimal]
  rfl

/-- A field as the client has it. -/
def heard (R : Reading) (f : Bytes × Bytes) : Bytes × Bytes := (f.1, R.strip f.2)

/-- A header line without its CRLF. -/
def headerText (f : Bytes × Bytes) : Bytes := f.1 ++ 58 :: 32 :: f.2

theorem headerLine_eq (f : Bytes × Bytes) : headerLine f = headerText f ++ kCRLF := by
  simp only [headerLine, headerText, List.append_assoc, List.cons_append]
  rfl

theorem readField_headerText {f : Bytes × Bytes} (h : 58 ∉ f.1) :
    readField R (headerText f) = some (heard R f) := by
  have hne : f.1.length ≠ (headerText f).length := by
    rw [headerText, List.length_append, List.length_cons]
    omega
  simp only [readField, headerText, idxOf_append_cons h, take_cut, drop_cut] at hne ⊢
  rw [if_pos hne]
  rfl

/-- The fields of a head, read one line at a time. -/
theorem run_fieldLines {s : Nat × Bytes} (rest : Bytes) : ∀ (fs seen : List (Bytes × Bytes)),
    (∀ f ∈ fs, 58 ∉ f.1 ∧ 13 ∉ f.1 ∧ 13 ∉ f.2) →
      (headReader R).run ⟨some s, seen⟩ (fieldLines fs ++ rest) =
        .ok (.done, ⟨some s, seen ++ fs.map (heard R)⟩, rest)
  | [], seen, _ => by
      have hs : search kCRLF (kCRLF ++ rest) = some 0 := search_after rest List.not_mem_nil
      have hl : readHeadLine R ⟨some s, seen⟩ ((kCRLF ++ rest).take 0) =
          .ok (.done ⟨some s, seen⟩) := rfl
      rw [List.map_nil, List.append_nil]
      exact LineMachine.run_done (M := headReader R) hs hl
  | f :: fs, seen, h => by
      obtain ⟨hcolon, hname, hvalue⟩ := h f (List.mem_cons_self ..)
      have hplain : 13 ∉ headerText f := by
        simp only [headerText, List.mem_append, List.mem_cons, not_or]
        exact ⟨hname, by decide, by decide, hvalue⟩
      have hs : search kCRLF (headerText f ++ (kCRLF ++ (fieldLines fs ++ rest))) =
          some (headerText f).length := search_after _ hplain
      have hne : headerText f ≠ [] := by simp [headerText]
      have hl : readHeadLine R ⟨some s, seen⟩ (headerText f) =
          .ok (.next ⟨some s, seen ++ [heard R f]⟩) := by
        simp only [readHeadLine, if_neg hne, readField_headerText hcolon]
      have htext : fieldLines (f :: fs) ++ rest =
          headerText f ++ (kCRLF ++ (fieldLines fs ++ rest)) := by
        simp only [fieldLines, List.map_cons, List.flatten_cons, headerLine_eq, List.append_assoc]
      rw [htext]
      refine (LineMachine.run_line (M := headReader R) (s := ⟨some s, seen⟩) hs hl).trans ?_
      rw [run_fieldLines rest fs (seen ++ [heard R f]) fun g hg => h g (List.mem_cons_of_mem _ hg),
        List.map_cons, List.append_assoc]
      rfl

/-- A head with any fields, read up to the empty line. -/
theorem run_fields (hmessage : 13 ∉ r.statusMessage) {fs : List (Bytes × Bytes)}
    (hfs : ∀ f ∈ fs, 58 ∉ f.1 ∧ 13 ∉ f.1 ∧ 13 ∉ f.2) (rest : Bytes) :
    (headReader R).run ⟨none, []⟩ (r.statusLine ++ (kCRLF ++ (fieldLines fs ++ rest))) =
      .ok (.done, ⟨some (r.statusCode.value, r.statusMessage), fs.map (heard R)⟩, rest) := by
  have hcode : 13 ∉ decimal r.statusCode.value := fun hd => by
    cases isDigit_of_mem_decimal hd
  have hplain : 13 ∉ r.statusLine := by
    simp only [statusLine, List.mem_append, List.mem_cons, not_or]
    exact ⟨by decide, hcode, by decide, hmessage⟩
  have hs : search kCRLF (r.statusLine ++ (kCRLF ++ (fieldLines fs ++ rest))) =
      some r.statusLine.length := search_after _ hplain
  have hl : readHeadLine R ⟨none, []⟩ r.statusLine =
      .ok (.next ⟨some (r.statusCode.value, r.statusMessage), []⟩) := by
    simp only [readHeadLine, readStatusLine_statusLine]
  refine (LineMachine.run_line (M := headReader R) (s := ⟨none, []⟩) hs hl).trans ?_
  exact run_fieldLines rest fs [] hfs

/-- The fields of a keep-alive response, with any headers that hold no CR. -/
theorem plain_fields (n : Nat) {hs : List (Bytes × Bytes)}
    (h : ∀ f ∈ hs, 58 ∉ f.1 ∧ 13 ∉ f.1 ∧ 13 ∉ f.2) :
    ∀ f ∈ (str "Content-Length", decimal n) :: (str "Connection", str "Keep-Alive") :: hs,
      58 ∉ f.1 ∧ 13 ∉ f.1 ∧ 13 ∉ f.2 := by
  refine List.forall_mem_cons.mpr ⟨?_, List.forall_mem_cons.mpr ⟨by decide, h⟩⟩
  have hname : 58 ∉ str "Content-Length" ∧ 13 ∉ str "Content-Length" := by decide
  exact ⟨hname.1, hname.2, fun hd => by cases isDigit_of_mem_decimal hd⟩

/-- The head of a response, up to the empty line. -/
theorem run_head (h : r.Plain) (rest : Bytes) :
    (headReader R).run ⟨none, []⟩ (r.statusLine ++ (kCRLF ++ (fieldLines r.fields ++ rest))) =
      .ok (.done, ⟨some (r.statusCode.value, r.statusMessage), r.fields.map (heard R)⟩, rest) :=
  run_fields h.message (plain_fields _ h.headers) rest

theorem strip_unpadded {v : Bytes} (h : Unpadded R.blank v) : R.strip v = v := by
  have hpad := strip_pad (l := []) (r := []) nofun nofun h
  rwa [List.nil_append, List.append_nil] at hpad

theorem unpadded_decimal (R : Reading) (n : Nat) : Unpadded R.blank (decimal n) := by
  constructor <;> intro d hd
  · exact R.digit_plain d (isDigit_of_mem_decimal (List.mem_of_mem_head? hd))
  · exact R.digit_plain d (isDigit_of_mem_decimal (List.mem_of_getLast? hd))

theorem contentLength_heard (n : Nat) (fs : List (Bytes × Bytes)) :
    contentLength R (((str "Content-Length", decimal n) :: fs).map (heard R)) = some n := by
  have hfind : (((str "Content-Length", decimal n) :: fs).map (heard R)).find?
      (fun f => R.same f.1 (str "Content-Length")) =
      some (heard R (str "Content-Length", decimal n)) :=
    List.find?_cons_of_pos (R.same_refl _)
  rw [contentLength, hfind, Option.bind_some, heard, strip_unpadded (unpadded_decimal R _),
    readNumber_decimal]

/-- The header map is what is left of the fields without those that frame. -/
theorem headersOf_fields (h : r.ReadableBy R) :
    headersOf R (r.fields.map (heard R)) = r.headers := by
  have hlength : R.framing (str "Content-Length") = true := by
    rw [Reading.framing, R.same_refl, Bool.true_or]
  have hconn : R.framing (str "Connection") = true := by
    rw [Reading.framing, R.same_refl, Bool.or_true]
  have hmap : r.headers.toList.map (heard R) = r.headers.toList := by
    refine (List.map_congr_left fun f hf => ?_).trans (List.map_id _)
    exact Prod.ext rfl (strip_unpadded (h f hf).2)
  have hfilter : (r.fields.map (heard R)).filter (fun f => !R.framing f.1) =
      r.headers.toList := by
    rw [fields, List.map_cons, List.map_cons, hmap,
      List.filter_cons_of_neg (by simp [heard, hlength]),
      List.filter_cons_of_neg (by simp [heard, hconn])]
    exact List.filter_eq_self.mpr fun f hf => by rw [(h f hf).1]; rfl
  rw [headersOf, hfilter]
  exact ofList_toList r.headers

/-- **A keep-alive response delimits itself.** -/
theorem selfDelimiting_text (R : Reading) :
    SelfDelimiting text reply (readReply R) fun r => r.Plain ∧ r.ReadableBy R where
  write_ne h := by
    rw [text_plain h.1]
    exact List.cons_ne_nil _ _
  read_write := by
    rintro r ⟨h, hR⟩ rest
    have hlength : contentLength R (r.fields.map (heard R)) = some r.body.length :=
      contentLength_heard _ _
    rw [text_plain h]
    simp only [List.append_assoc]
    simp only [readReply, run_head h, hlength, Option.bind_eq_bind, Option.bind_some,
      headersOf_fields hR]
    rw [if_pos (by rw [List.length_append]; omega), List.take_left, List.drop_left]
    rfl

end HttpResponse

end Muduo
