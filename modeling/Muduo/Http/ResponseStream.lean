import Muduo.Http.ResponseReader

/-!
# Responses appended to one `Buffer`

`appendAll` appends responses one after the other to a new `Buffer`, and
`Decodes` says that a client reads back what was built. It does, for every
list of keep-alive responses and at every point of it, exactly when no string
is too long for the `int` of a `StringPiece` and a vector has room for the
text (`readAll_appendAll`): where a string is cut, the client, in step up to
that response, does not find it.
-/

namespace Muduo

open Lib Buffer CheckedBuffer

namespace HttpResponse

variable {R : Reading} {r : HttpResponse} {rs : List HttpResponse}

/-- Responses appended to one buffer, one after another. -/
def appendAll (rs : List HttpResponse) : Except BufferFault CheckedBuffer :=
  rs.foldlM (fun output r => r.appendToBuffer output) .new

/-- A client finds in the buffer what was built, with nothing left over. -/
def Decodes (R : Reading) (rs : List HttpResponse) : Prop :=
  ∃ buf, appendAll rs = .ok buf ∧ readAll (readReply R) buf.1.content = some (rs.map reply)

/-- No string is too long for a `StringPiece`, nor the text for a vector. -/
structure Fit (rs : List HttpResponse) : Prop where
  short : ∀ r ∈ rs, r.Short
  size : kCheapPrepend + (rs.map text).flatten.length ≤ maxSize

/-! ## The strings of a list -/

theorem appendAll_pieces (rs : List HttpResponse) :
    appendAll rs = (rs.flatMap pieces).foldlM CheckedBuffer.appendString .new := by
  unfold appendAll
  generalize CheckedBuffer.new = output
  induction rs generalizing output with
  | nil => rfl
  | cons r rs ih =>
      rw [List.foldlM_cons, List.flatMap_cons, List.foldlM_append, appendToBuffer_pieces]
      exact bind_congr ih

theorem flatten_pieces (rs : List HttpResponse) :
    (rs.flatMap pieces).flatten = (rs.map text).flatten := by
  induction rs with
  | nil => rfl
  | cons r rs ih =>
      rw [List.flatMap_cons, List.flatten_append, ih, List.map_cons, List.flatten_cons]
      rfl

theorem short_pieces (h : ∀ r ∈ rs, r.Short) : ∀ p ∈ rs.flatMap pieces, p.length < 2 ^ 31 := by
  intro p hp
  obtain ⟨r, hr, hp⟩ := List.mem_flatMap.mp hp
  exact h r hr p hp

/-! ## Short strings -/

/-- **What fits is read back.** -/
theorem Fit.decodes (h : Fit rs) (hrs : ∀ r ∈ rs, r.Plain ∧ r.ReadableBy R) : Decodes R rs := by
  rcases appended_new.strings_short (short_pieces h.short) with ⟨buf, hbuf, happ⟩ | ⟨-, hover⟩
  · refine ⟨buf, (appendAll_pieces rs).trans hbuf, ?_⟩
    rw [happ.content, List.nil_append, flatten_pieces]
    exact (selfDelimiting_text R).readAll_flatten hrs
  · rw [List.nil_append, flatten_pieces] at hover
    exact absurd h.size (Nat.not_le.mpr hover)

theorem Fit.take (h : Fit rs) (n : Nat) : Fit (rs.take n) where
  short r hr := h.short r (List.mem_of_mem_take hr)
  size := by
    have hsize := h.size
    rw [← List.take_append_drop n rs, List.map_append, List.flatten_append,
      List.length_append] at hsize
    omega

/-- A vector has room for what was read back. -/
theorem size_of_decodes (hshort : ∀ r ∈ rs, r.Short) (h : Decodes R rs) :
    kCheapPrepend + (rs.map text).flatten.length ≤ maxSize := by
  obtain ⟨buf, hbuf, -⟩ := h
  rw [appendAll_pieces] at hbuf
  obtain ⟨-, happ⟩ := appended_new.strings_ok hbuf
  rw [map_cut_short (short_pieces hshort), List.nil_append, flatten_pieces] at happ
  exact happ.length_le

/-! ## A string that is too long -/

/-- What a client finds in a header map was on a line of its own. -/
theorem mem_of_headersOf {fs : List (Bytes × Bytes)} {f : Bytes × Bytes}
    (h : f ∈ (headersOf R fs).toList) : f ∈ fs := by
  have hget := Std.ExtTreeMap.mem_toList_iff_getElem?_eq_some.mp h
  rw [headersOf, Std.ExtTreeMap.ofList_eq_insertMany_empty,
    Std.ExtTreeMap.getElem?_insertMany_list, Std.ExtTreeMap.getElem?_empty, Option.or_none,
    List.findSomeRev?_eq_findSome?_reverse] at hget
  obtain ⟨g, hg, hfound⟩ := List.exists_of_findSome?_eq_some hget
  obtain ⟨hkey, hvalue⟩ := Option.ite_none_right_eq_some.mp hfound
  rw [show f = g from
    Prod.ext (Std.LawfulEqCmp.compare_eq_iff_eq.mp hkey).symm (Option.some.inj hvalue).symm]
  exact List.mem_of_mem_filter (List.mem_reverse.mp hg)

/-- Stripping makes nothing longer. -/
theorem length_strip_le (v : Bytes) : (R.strip v).length ≤ v.length :=
  (List.rdropWhile_prefix _ _).length_le.trans (List.dropWhile_sublist _).length_le

/-- The lines that the client is given are short. -/
theorem short_fields (hr : r.Plain) (hcut : ∀ p ∈ r.pieces, (cut p).length < 2 ^ 31) :
    ∀ g ∈ (str "Content-Length", decimal r.body.length) :: (str "Connection", str "Keep-Alive") ::
      r.headers.toList.map (Prod.map cut cut), g.1.length < 2 ^ 31 ∧ g.2.length < 2 ^ 31 := by
  have hname : (str "Content-Length").length < 2 ^ 31 := by decide
  refine List.forall_mem_cons.mpr ⟨⟨hname, ?_⟩, List.forall_mem_cons.mpr ⟨by decide, ?_⟩⟩
  · exact (length_decimal_le hr.short).trans_lt (by decide)
  · intro g hg
    obtain ⟨h, hh, rfl⟩ := List.mem_map.mp hg
    exact ⟨hcut _ (header_mem hh).1, hcut _ (header_mem hh).2⟩

/-- A client that finds the response in what is left of its strings has all
of them. -/
theorem short_of_readReply (hr : r.Plain) (hpos : ∀ p ∈ r.pieces, p.length % intMod < 2 ^ 31)
    {rest : Bytes} (hread : readReply R (r.pieces.map cut).flatten = some (r.reply, rest)) :
    r.Short := by
  have hcut : ∀ p ∈ r.pieces, (cut p).length < 2 ^ 31 := fun p hp => by
    rw [length_cut]
    exact hpos p hp
  have hplain {c : UInt8} {s : Bytes} (h : c ∉ s) : c ∉ cut s := fun hc =>
    h (List.mem_of_mem_take hc)
  have hheaders : ∀ f ∈ r.headers.toList.map (Prod.map cut cut),
      58 ∉ f.1 ∧ 13 ∉ f.1 ∧ 13 ∉ f.2 := by
    intro f hf
    obtain ⟨h, hh, rfl⟩ := List.mem_map.mp hf
    obtain ⟨hcolon, hname, hvalue⟩ := hr.headers h hh
    exact ⟨hplain hcolon, hplain hname, hplain hvalue⟩
  have hrun := @run_fields R { r with statusMessage := cut r.statusMessage } (hplain hr.message) _
    (plain_fields r.body.length hheaders) (cut r.body)
  rw [map_pieces_plain hr fun p hp => cut_short (hp.trans (by decide))] at hread
  simp only [readReply, hrun, contentLength_heard, Option.bind_eq_bind, Option.bind_some] at hread
  split at hread
  · rename_i hbody
    have hreply := (Prod.ext_iff.mp (Option.some.inj hread)).1
    obtain ⟨-, hmessage, hmap, -⟩ := Reply.mk.inj hreply
    refine short_of ?_ ?_ ?_
    · rw [← hmessage]
      exact hcut _ r.statusMessage_mem
    · intro f hf
      rw [← hmap] at hf
      obtain ⟨g, hg, rfl⟩ := List.mem_map.mp (mem_of_headersOf hf)
      obtain ⟨hname, hvalue⟩ := short_fields hr hcut g hg
      exact ⟨hname, (length_strip_le _).trans_lt hvalue⟩
    · exact hbody.trans_lt (hcut _ r.body_mem)
  · cases hread

/-- **The first response with too long a string is not read back.** -/
theorem short_of_decodes (hrs : ∀ q ∈ rs, (q.Plain ∧ q.ReadableBy R) ∧ q.Short) (hr : r.Plain)
    (h : Decodes R (rs ++ [r])) : r.Short := by
  obtain ⟨buf, hbuf, hread⟩ := h
  rw [appendAll_pieces, List.flatMap_append, List.flatMap_singleton] at hbuf
  obtain ⟨hpos, happ⟩ := appended_new.strings_ok hbuf
  have hbefore : ((rs.flatMap pieces).map cut).flatten = (rs.map text).flatten := by
    rw [map_cut_short (short_pieces fun q hq => (hrs q hq).2), flatten_pieces]
  rw [happ.content, List.nil_append, List.map_append, List.flatten_append, hbefore,
    List.map_append] at hread
  -- in step up to this response, the client reads it from what is left of its strings
  obtain ⟨m, ys, hitems, hys⟩ :=
    (selfDelimiting_text R).readItems_append (fun q hq => (hrs q hq).1) hread
  obtain rfl := List.append_cancel_left hys
  obtain ⟨rest, hread⟩ := read_of_readItems hitems
  exact short_of_readReply hr (fun p hp => hpos p (List.mem_append_right _ hp)) hread

/-- **Up to where no string is too long** the client follows. -/
theorem short_of_prefixes (hrs : ∀ r ∈ rs, r.Plain ∧ r.ReadableBy R)
    (h : ∀ n, Decodes R (rs.take n)) : ∀ r ∈ rs, r.Short := by
  induction rs using List.reverseRecOn with
  | nil => exact fun r hr => absurd hr List.not_mem_nil
  | append_singleton rs r ih =>
      have hbefore := ih (fun q hq => hrs q (List.mem_append_left _ hq)) fun n => by
        have hn := h (min n rs.length)
        rwa [List.take_append_of_le_length (Nat.min_le_right _ _), ← List.take_take,
          List.take_length] at hn
      have hlast := h (rs ++ [r]).length
      rw [List.take_length] at hlast
      intro q hq
      rcases List.mem_append.mp hq with hq | hq
      · exact hbefore q hq
      · obtain rfl := List.mem_singleton.mp hq
        exact short_of_decodes
          (fun p hp => ⟨hrs p (List.mem_append_left _ hp), hbefore p hp⟩)
          (hrs q (List.mem_append_right _ (List.mem_singleton_self q))).1 hlast

/-! ## Exactly when -/

theorem decodes_iff (hrs : ∀ r ∈ rs, r.Plain ∧ r.ReadableBy R) :
    (∀ n, Decodes R (rs.take n)) ↔ Fit rs := by
  refine ⟨fun h => ?_, fun h n => (h.take n).decodes fun r hr => hrs r (List.mem_of_mem_take hr)⟩
  have hshort := short_of_prefixes hrs h
  have hlast := h rs.length
  rw [List.take_length] at hlast
  exact ⟨hshort, size_of_decodes hshort hlast⟩

/-- A client that takes header values as they are written makes out all but
the framing names. -/
theorem readableBy_exact (h : ∀ f ∈ r.headers.toList,
    f.1 ≠ str "Content-Length" ∧ f.1 ≠ str "Connection") : r.ReadableBy .exact := by
  refine fun f hf => ⟨?_, fun _ _ => rfl, fun _ _ => rfl⟩
  obtain ⟨hlength, hconn⟩ := h f hf
  simp only [Reading.framing, Reading.exact, hlength, hconn, decide_false, Bool.or_false]

/-- **Keep-alive responses decode to what was built** at every point of a list,
with nothing left over, exactly when no string of theirs has a length beyond an
`int` and a vector has room for the text: for a client that takes header
values as they are written, and for any client that cannot tell the
difference. -/
theorem readAll_appendAll (rs : List HttpResponse) (h : ∀ r ∈ rs, r.Plain)
    (hnames : ∀ r ∈ rs, ∀ f ∈ r.headers.toList,
      f.1 ≠ str "Content-Length" ∧ f.1 ≠ str "Connection") :
    ((∀ n, Decodes .exact (rs.take n)) ↔ Fit rs) ∧
      ∀ R : Reading, (∀ r ∈ rs, r.ReadableBy R) → ((∀ n, Decodes R (rs.take n)) ↔ Fit rs) :=
  ⟨decodes_iff fun r hr => ⟨h r hr, readableBy_exact (hnames r hr)⟩,
    fun _ hR => decodes_iff fun r hr => ⟨h r hr, hR r hr⟩⟩

/-- A body that looks like a response, and one that is empty. -/
theorem readAll_two :
    let rs : List HttpResponse :=
      [⟨.ofList [(str "Server", str "Muduo")] compare, .k200Ok, str "OK", false,
        str "HTTP/1.1 404 Not Found\r\nContent-Length: 9\r\n\r\n"⟩,
        ⟨∅, .k301MovedPermanently, str "Moved", false, []⟩]
    Decodes .exact rs ∧ Decodes .lenient rs := by
  intro rs
  have hplain : ∀ r ∈ rs, r.Plain := by
    intro r hr
    obtain rfl | rfl := by simpa [rs] using hr
    · exact ⟨rfl, by decide, by decide, by decide +kernel⟩
    · exact ⟨rfl, by decide, by decide, by decide +kernel⟩
  have hfit : Fit rs := ⟨by decide +kernel, by decide +kernel⟩
  have h := readAll_appendAll rs hplain (by decide +kernel)
  exact ⟨h.1.mpr hfit 2, (h.2 .lenient (by unfold ReadableBy; decide +kernel)).mpr hfit 2⟩

/-- A response with a body of `2 ^ 31` bytes does not come to be in the buffer. -/
theorem not_decodes_two_gib :
    ¬∀ rs : List HttpResponse, (∀ r ∈ rs, r.Plain) →
      (∀ r ∈ rs, ∀ f ∈ r.headers.toList,
        f.1 ≠ str "Content-Length" ∧ f.1 ≠ str "Connection") → Decodes .exact rs := by
  intro hall
  let r : HttpResponse := ⟨∅, .k200Ok, str "OK", false, List.replicate (2 ^ 31) 97⟩
  have hlen : r.body.length = 2 ^ 31 := List.length_replicate
  have hr : r.Plain := ⟨rfl, by rw [hlen]; decide, by decide, fun _ hf => by cases hf⟩
  have hdecodes : Decodes .exact ([] ++ [r]) := hall [r] (List.forall_mem_singleton.mpr hr)
    (List.forall_mem_singleton.mpr fun _ hf => by cases hf)
  have hshort : r.Short := short_of_decodes (fun _ hq => absurd hq List.not_mem_nil) hr hdecodes
  exact absurd (hshort _ r.body_mem) (by rw [hlen]; exact Nat.lt_irrefl _)

end HttpResponse

end Muduo
