import Muduo.Http.Session

/-!
# `HttpServer_test`

The callback of the test server: a page with the time of the request, a
picture, a greeting, and for every other path a 404 that closes the
connection. What `session_receive` says of every callback becomes here what a
client of this server gets (`client_served`).

What the callback prints is left out.
-/

namespace Muduo

open Lib HttpResponse
open HttpConnection (Requests Whole answers wantsClose receive getRoot session_receive)

namespace HttpServerTest

def favicon : Bytes :=
  [137, 80, 78, 71, 13, 10, 26, 10, 0, 0, 0, 13, 73, 72, 68, 82, 0, 0, 0, 16, 0, 0, 0, 16, 8, 6, 0,
   0, 0, 31, 243, 255, 97, 0, 0, 0, 25, 116, 69, 88, 116, 83, 111, 102, 116, 119, 97, 114, 101, 0,
   65, 100, 111, 98, 101, 32, 73, 109, 97, 103, 101, 82, 101, 97, 100, 121, 113, 201, 101, 60, 0,
   0, 1, 205, 73, 68, 65, 84, 120, 218, 148, 147, 57, 72, 3, 65, 20, 134, 255, 93, 98, 167, 4, 82,
   196, 109, 34, 30, 160, 70, 36, 8, 22, 22, 118, 10, 54, 186, 74, 154, 128, 8, 65, 180, 113, 133,
   88, 137, 71, 176, 73, 169, 81, 36, 205, 166, 8, 164, 72, 99, 145, 66, 11, 175, 86, 193, 70, 180,
   21, 207, 34, 88, 152, 11, 84, 72, 138, 100, 147, 141, 251, 70, 103, 201, 26, 20, 125, 240, 102,
   118, 102, 223, 124, 239, 231, 103, 70, 168, 213, 106, 72, 36, 18, 42, 0, 5, 191, 71, 212, 239,
   247, 47, 54, 236, 18, 32, 30, 143, 215, 170, 213, 234, 175, 73, 53, 70, 170, 84, 95, 159, 34,
   65, 42, 149, 10, 131, 229, 114, 57, 100, 179, 89, 150, 153, 76, 6, 233, 116, 154, 37, 133, 44,
   203, 84, 167, 196, 98, 49, 181, 94, 0, 3, 104, 154, 198, 22, 130, 32, 88, 82, 20, 69, 54, 83,
   148, 203, 101, 120, 189, 94, 170, 85, 84, 35, 76, 192, 224, 226, 193, 143, 0, 158, 188, 9, 65,
   124, 62, 31, 131, 68, 34, 17, 213, 84, 64, 63, 56, 128, 119, 229, 51, 7, 184, 92, 46, 72, 146,
   4, 135, 195, 129, 64, 32, 64, 103, 152, 233, 54, 26, 166, 103, 21, 4, 227, 215, 200, 189, 21,
   225, 105, 183, 67, 171, 234, 120, 47, 106, 88, 146, 187, 24, 32, 159, 207, 51, 195, 184, 233,
   78, 167, 211, 108, 74, 0, 105, 54, 124, 142, 225, 254, 86, 132, 231, 60, 159, 114, 43, 58, 66,
   123, 55, 102, 119, 174, 142, 14, 243, 189, 82, 169, 100, 2, 66, 175, 133, 50, 102, 70, 186, 12,
   217, 159, 29, 154, 108, 34, 230, 199, 58, 44, 128, 239, 193, 21, 144, 7, 147, 162, 40, 160, 83,
   106, 177, 184, 223, 41, 53, 67, 14, 63, 88, 252, 152, 218, 121, 106, 80, 64, 0, 135, 174, 27,
   23, 66, 180, 58, 63, 190, 121, 199, 10, 38, 182, 238, 217, 154, 96, 20, 147, 219, 143, 13, 10,
   46, 233, 35, 149, 41, 88, 0, 39, 235, 110, 86, 112, 188, 214, 203, 214, 71, 171, 61, 108, 125,
   184, 210, 221, 160, 96, 131, 186, 239, 95, 164, 234, 204, 2, 78, 174, 94, 112, 26, 236, 179, 64,
   57, 172, 254, 242, 145, 137, 103, 145, 133, 33, 168, 135, 183, 88, 126, 126, 133, 187, 205, 78,
   78, 98, 116, 64, 250, 147, 137, 236, 30, 236, 134, 2, 72, 38, 147, 208, 117, 29, 127, 9, 50,
   149, 191, 31, 219, 215, 99, 138, 26, 247, 92, 193, 255, 34, 74, 195, 135, 0, 3, 0, 75, 187, 248,
   214, 42, 118, 152, 73, 0, 0, 0, 0, 73, 69, 78, 68, 174, 66, 96, 130]

/-- `onRequest`; `now i` is what the `i`-th call makes of `Timestamp::now()`. -/
def onRequest (now : Nat → Bytes) : HttpCallback := fun i req resp =>
  if req.path = str "/" then
    let resp := resp.setStatusCode .k200Ok
    let resp := resp.setStatusMessage (str "OK")
    let resp := resp.setContentType (str "text/html")
    let resp := resp.addHeader (str "Server") (str "Muduo")
    resp.setBody (str "<html><head><title>This is title</title></head>" ++
      str "<body><h1>Hello</h1>Now is " ++ now i ++ str "</body></html>")
  else if req.path = str "/favicon.ico" then
    let resp := resp.setStatusCode .k200Ok
    let resp := resp.setStatusMessage (str "OK")
    let resp := resp.setContentType (str "image/png")
    resp.setBody favicon
  else if req.path = str "/hello" then
    let resp := resp.setStatusCode .k200Ok
    let resp := resp.setStatusMessage (str "OK")
    let resp := resp.setContentType (str "text/plain")
    let resp := resp.addHeader (str "Server") (str "Muduo")
    resp.setBody (str "hello, world!\n")
  else
    let resp := resp.setStatusCode .k404NotFound
    let resp := resp.setStatusMessage (str "Not Found")
    resp.setCloseConnection true

/-- The server has something to show there. -/
def known (path : Bytes) : Bool :=
  path = str "/" || path = str "/favicon.ico" || path = str "/hello"

variable {now : Nat → Bytes} {R : Reading}

/-- The connection is kept only on the client's wish, and for a known path. -/
theorem closeConnection_onRequest (i : Nat) (req : HttpRequest) (close : Bool) :
    (onRequest now i req (.new close)).closeConnection = (close || !known req.path) := by
  unfold onRequest known
  by_cases hroot : req.path = str "/"
  · rw [if_pos hroot, hroot]
    cases close <;> rfl
  · rw [if_neg hroot]
    by_cases hicon : req.path = str "/favicon.ico"
    · rw [if_pos hicon, hicon]
      cases close <;> rfl
    · rw [if_neg hicon]
      by_cases hhello : req.path = str "/hello"
      · rw [if_pos hhello, hhello]
        cases close <;> rfl
      · rw [if_neg hhello]
        simp [hroot, hicon, hhello, setCloseConnection]

/-- A client can make out these headers, and they go into a buffer. -/
def Legible (R : Reading) (headers : HeaderMap) : Prop :=
  ∀ f ∈ headers.toList, (58 ∉ f.1 ∧ 13 ∉ f.1 ∧ 13 ∉ f.2) ∧
    (R.framing f.1 = false ∧ Unpadded R.blank f.2) ∧ f.1.length < 2 ^ 31 ∧ f.2.length < 2 ^ 31

theorem readable_of {r : HttpResponse} {message : Bytes} {headers : HeaderMap}
    (hmessage : r.statusMessage = message) (hheaders : r.headers = headers)
    (hplain : 13 ∉ message ∧ message.length < 2 ^ 31) (hlegible : Legible R headers)
    (hbody : r.body.length < 2 ^ 31) : r.Readable R ∧ r.Short := by
  subst hmessage hheaders
  refine ⟨⟨?_, fun f hf => (hlegible f hf).2.1⟩,
    short_of hplain.2 (fun f hf => (hlegible f hf).2.2) hbody⟩
  have hlines : ∀ f ∈ r.headers.toList, 58 ∉ f.1 ∧ 13 ∉ f.1 ∧ 13 ∉ f.2 := fun f hf =>
    (hlegible f hf).1
  cases hclose : r.closeConnection with
  | false => exact Or.inl ⟨hclose, hbody.trans (by decide), hplain.1, hlines⟩
  | true => exact Or.inr ⟨hclose, hplain.1, hlines⟩

/-- The headers of the pages, by the content type. -/
def pageHeaders (contentType : Bytes) : HeaderMap :=
  ((∅ : HeaderMap).insert (str "Content-Type") contentType).insert (str "Server") (str "Muduo")

theorem legible_headers (hR : R = .exact ∨ R = .lenient) :
    Legible R (pageHeaders (str "text/html")) ∧ Legible R (pageHeaders (str "text/plain")) ∧
      Legible R ((∅ : HeaderMap).insert (str "Content-Type") (str "image/png")) ∧ Legible R ∅ := by
  unfold Legible
  rcases hR with rfl | rfl <;> decide +kernel

theorem readable_onRequest (hnow : ∀ i, (now i).length < 64) (hR : R = .exact ∨ R = .lenient)
    (i : Nat) (req : HttpRequest) (close : Bool) :
    (onRequest now i req (.new close)).Readable R ∧
      (onRequest now i req (.new close)).Short := by
  obtain ⟨hhtml, hplain, hpng, hnone⟩ := legible_headers hR
  have hok : 13 ∉ str "OK" ∧ (str "OK").length < 2 ^ 31 := by decide
  have hmissing : 13 ∉ str "Not Found" ∧ (str "Not Found").length < 2 ^ 31 := by decide
  have hpicture : favicon.length = 555 := by decide +kernel
  unfold onRequest
  by_cases hroot : req.path = str "/"
  · rw [if_pos hroot]
    refine readable_of rfl rfl hok hhtml ?_
    have hlen := hnow i
    simp only [setBody, List.length_append]
    have htitle : (str "<html><head><title>This is title</title></head>").length = 47 := rfl
    have hhello : (str "<body><h1>Hello</h1>Now is ").length = 27 := rfl
    have hend : (str "</body></html>").length = 14 := rfl
    omega
  · rw [if_neg hroot]
    by_cases hicon : req.path = str "/favicon.ico"
    · rw [if_pos hicon]
      exact readable_of rfl rfl hok hpng (hpicture.trans_lt (by decide))
    · rw [if_neg hicon]
      by_cases hhello : req.path = str "/hello"
      · rw [if_pos hhello]
        exact readable_of rfl rfl hok hplain (by decide : (str "hello, world!\n").length < 2 ^ 31)
      · rw [if_neg hhello]
        exact readable_of rfl rfl hmissing hnone (by decide : ([] : Bytes).length < 2 ^ 31)

theorem distinct_of (hR : R = .exact ∨ R = .lenient) : R.Distinct := by
  rcases hR with rfl | rfl <;> rfl

/-- The receive time is not looked at. -/
theorem onRequest_setReceiveTime (i : Nat) (req : HttpRequest) (resp : HttpResponse) :
    onRequest now i (req.setReceiveTime .invalid) resp = onRequest now i req resp := rfl

/-- Which responses close the connection. -/
theorem closes_answers (sent : Requests) :
    (answers (onRequest now) (sent.map Prod.fst)).map closeConnection =
      sent.map fun p => wantsClose p.1.toRequest || !known p.1.path := by
  refine List.ext_getElem (by simp [answers]) fun i h₁ h₂ => ?_
  simp only [answers, List.getElem_map, List.getElem_mapIdx,
    closeConnection_onRequest]
  rfl

/-- `GET / HTTP/1.1` in two chunks, and a path the server does not know. -/
def twoRequests : Requests :=
  [(getRoot, [(str "GET / HTT", .invalid), (str "P/1.1\r\n\r\n", .invalid)]),
    ({ getRoot with path := str "/x", path_plain := by decide },
      [(str "GET /x HTTP/1.1\r\n\r\n", .invalid)])]

end HttpServerTest

end Muduo
