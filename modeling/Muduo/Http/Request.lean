import Muduo.Base
import Muduo.Timestamp
import Mathlib.Data.List.DropRight
import Std.Data.ExtTreeMap

/-!
# `HttpRequest` and `HttpContext`

A request under construction and the parser state it is bound to. The
character ranges `[start, end)` of the source are byte strings; `isspace`
is that of the C locale, which is the one the program runs in.
-/

namespace Muduo

/-- `std::map<string, string>`. -/
abbrev HeaderMap := Std.ExtTreeMap Bytes Bytes compare

instance : DecidableEq HeaderMap :=
  inferInstanceAs (DecidableEq (Std.ExtTreeMap Bytes Bytes compare))

/-- What can go wrong while a request is parsed: `assert(method_ == kInvalid)`
in `setMethod`, and the loop of `parseRequest` when no branch of it applies
or the one that does is empty. -/
inductive HttpFault where
  | methodNotInvalid
  | diverges
deriving DecidableEq, Repr

inductive Method where
  | kInvalid | kGet | kPost | kHead | kPut | kDelete
deriving DecidableEq, Repr

inductive Version where
  | kUnknown | kHttp10 | kHttp11
deriving DecidableEq, Repr

/-- `isspace`. -/
def isspace (c : UInt8) : Bool := c == 32 || (9 ≤ c && c ≤ 13)

structure HttpRequest where
  method : Method
  version : Version
  path : Bytes
  receiveTime : Timestamp
  headers : HeaderMap
deriving DecidableEq

namespace HttpRequest

def new : HttpRequest := ⟨.kInvalid, .kUnknown, [], .invalid, ∅⟩

def setVersion (r : HttpRequest) (v : Version) : HttpRequest := { r with version := v }

/-- The method a string names; `kInvalid` for all other strings. -/
def methodOf (m : Bytes) : Method :=
  if m = str "GET" then .kGet
  else if m = str "POST" then .kPost
  else if m = str "HEAD" then .kHead
  else if m = str "PUT" then .kPut
  else if m = str "DELETE" then .kDelete
  else .kInvalid

def setMethod (r : HttpRequest) (m : Bytes) : Except HttpFault (Bool × HttpRequest) := do
  check (r.method = .kInvalid) .methodNotInvalid
  let r := { r with method := methodOf m }
  return (decide (r.method ≠ .kInvalid), r)

def methodString (r : HttpRequest) : Bytes :=
  match r.method with
  | .kGet => str "GET"
  | .kPost => str "POST"
  | .kHead => str "HEAD"
  | .kPut => str "PUT"
  | .kDelete => str "DELETE"
  | .kInvalid => str "UNKNOWN"

def setPath (r : HttpRequest) (path : Bytes) : HttpRequest := { r with path := path }

def setReceiveTime (r : HttpRequest) (t : Timestamp) : HttpRequest := { r with receiveTime := t }

/-- `addHeader(start, colon, end)` on the line `[start, end)`, `colon` being
an offset in it. -/
def addHeader (r : HttpRequest) (line : Bytes) (colon : Nat) : HttpRequest :=
  let field := line.take colon
  let value := ((line.drop (colon + 1)).dropWhile isspace).rdropWhile isspace
  { r with headers := r.headers.insert field value }

def getHeader (r : HttpRequest) (field : Bytes) : Bytes := r.headers[field]?.getD []

/-- `lhs.swap(rhs)`: the new `*this` and the new `that`. -/
def swap (lhs rhs : HttpRequest) : HttpRequest × HttpRequest :=
  -- `version_` is not among the members the source swaps.
  ({ rhs with version := lhs.version }, { lhs with version := rhs.version })

end HttpRequest

inductive HttpRequestParseState where
  | kExpectRequestLine | kExpectHeaders | kExpectBody | kGotAll
deriving DecidableEq, Repr

structure HttpContext where
  state : HttpRequestParseState
  request : HttpRequest
deriving DecidableEq

namespace HttpContext

def new : HttpContext := ⟨.kExpectRequestLine, .new⟩

def expectRequestLine (c : HttpContext) : Bool := c.state == .kExpectRequestLine
def expectHeaders (c : HttpContext) : Bool := c.state == .kExpectHeaders
def expectBody (c : HttpContext) : Bool := c.state == .kExpectBody
def gotAll (c : HttpContext) : Bool := c.state == .kGotAll

def receiveRequestLine (c : HttpContext) : HttpContext := { c with state := .kExpectHeaders }

def receiveHeaders (c : HttpContext) : HttpContext := { c with state := .kGotAll }

def reset (c : HttpContext) : HttpContext where
  state := .kExpectRequestLine
  request := (c.request.swap .new).1

end HttpContext

end Muduo
