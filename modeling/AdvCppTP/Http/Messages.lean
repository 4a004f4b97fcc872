import AdvCppTP.Http.Strings

/-! The messages of `HttpFramework` (`http_structures`): the request line, the header map, the
request and the response. -/

namespace AdvCppTP.Http

structure QueryLine where
  method : RequestMethod
  version : HttpVersion
  path : Bytes
  deriving DecidableEq, Repr

def QueryLine.parse (line : Bytes) : Except StdError QueryLine := do
  let (method, sstream) := extract line
  let (path, sstream) := extract sstream
  let (version, _) := extract sstream
  let method := toLowercase method
  -- a version without a separator is compared whole: `npos + 1` is 0
  let versionView ← removePrefix version (plus (Lib.find versionSep version 0) 1)
  return {
    method :=
      if method = ascii "get" then .get
      else if method = ascii "post" then .post
      else .unsupported
    version :=
      if versionView = ascii "1.0" then .v1_0
      else if versionView = ascii "1.1" then .v1_1
      else .unsupported
    path }

/-- One turn of the loop of `HeadersMap::HeadersMap`: the pair that it stores and the view that
it leaves. -/
def HeadersMap.line (headersView : Bytes) : Except StdError ((Bytes × Bytes) × Bytes) := do
  let linesize := Lib.find endline headersView 0
  let line := upTo headersView linesize
  let headerSize := Lib.find separator line 0
  let header := toLowercase (rtrim (upTo line headerSize))
  let value ← substrFrom line (findFirstNotOf whitespaces line (plus headerSize 1))
  let rest ← removePrefix headersView (plus linesize 2)
  return ((header, value), rest)

/-- The loop of `HeadersMap::HeadersMap`, whose turns are at most as many as there are bytes. -/
def HeadersMap.loop : Nat → Bytes → StringMap → Except StdError StringMap
  | _, [], data => .ok data
  | 0, _ :: _, _ => .error .undefined
  | fuel + 1, c :: view, data => do
    let ((header, value), rest) ← HeadersMap.line (c :: view)
    HeadersMap.loop fuel rest (Lib.emplace header value data)

def HeadersMap.parse (headersView : Bytes) : Except StdError StringMap :=
  HeadersMap.loop headersView.length headersView ∅

structure HttpRequest where
  firstLine : QueryLine
  headers : StringMap
  params : StringMap
  body : Bytes

def makeParams (firstLine : QueryLine) : Except StdError StringMap :=
  match Lib.find questionMark firstLine.path 0 with
  | none => .ok ∅
  | some pos => do parseQueryString (← substrFrom firstLine.path (some (pos + 1))) ∅

def HttpRequest.make (firstLine : QueryLine) (headers : StringMap) (body : Bytes) :
    Except StdError HttpRequest := do
  return { firstLine, headers, params := ← makeParams firstLine, body }

/-- The condition on which `EpollManager::clientRoutine` serves another request. -/
def HttpRequest.keepAlive (request : HttpRequest) : Bool :=
  request.headers.lookup (ascii "connection") = some (ascii "Keep-Alive")

structure HttpResponse where
  version : HttpVersion
  statusCode : Nat
  headers : StringMap
  body : Bytes

def HttpResponse.new (version : HttpVersion) (statusCode : Nat) : HttpResponse :=
  { version, statusCode, headers := ∅, body := [] }

def HttpResponse.setStatus (response : HttpResponse) (statusCode : Nat) : HttpResponse :=
  { response with statusCode }

def HttpResponse.setHeader (response : HttpResponse) (header value : Bytes) :
    HttpResponse × Bool :=
  ({ response with headers := Lib.emplace header value response.headers },
    header ∉ response.headers)

def toDecimal (n : Nat) : Bytes := (Nat.toDigits 10 n).map fun c => UInt8.ofNat c.toNat

def HttpResponse.setBody (response : HttpResponse) (body : Bytes) : HttpResponse :=
  ({ response with body }.setHeader (ascii "Content-Length") (toDecimal body.length)).1

def statusInfo : Nat → Option Bytes
  | 200 => some (ascii "OK")
  | 400 => some (ascii "Bad Request")
  | 404 => some (ascii "Not Found")
  | 500 => some (ascii "Internal Server Error")
  | 501 => some (ascii "Not Implemented")
  | _ => none

/-- The order in which an unordered map is walked. -/
structure HashOrder where
  entries : StringMap → List (Bytes × Bytes)
  perm : ∀ m, (entries m).Perm (m.entries.map fun e => (e.1, e.2))

def HashOrder.stored : HashOrder := ⟨fun m => m.entries.map fun e => (e.1, e.2), fun _ => .refl _⟩

/-- The message that `HttpResponse::send` sends; `none` when `g_status_info.at` throws. -/
def HttpResponse.message (hash : HashOrder) (response : HttpResponse) : Option Bytes :=
  (statusInfo response.statusCode).map fun info =>
    response.version.toBytes ++ ascii " " ++ toDecimal response.statusCode ++ ascii " " ++ info ++
      endline ++
      ((hash.entries response.headers).flatMap fun e => e.1 ++ ascii ": " ++ e.2 ++ endline) ++
      endline ++ response.body ++ endline ++ endline

end AdvCppTP.Http
