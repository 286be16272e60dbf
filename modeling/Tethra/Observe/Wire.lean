import Tethra.Gateway.EnvLink
import Tethra.Gateway.HeadRead
import Tethra.Gateway.WireHead

set_option autoImplicit false

/-! # Heads seen by the observing proxy (`observe/src/wire.rs`)

The proxy forwards a head as it is and takes from it what it needs to relay the body: the first field
of a name, a substring test for the coding, and a number that Rust's parser reads.

The far end follows the standard: it combines the fields of a name, looks at the last coding, and takes
no length that is not a plain number. The two agree on the body exactly for the heads of
`RequestFramed` and `ResponseFramed` (`interception_framing`). -/

namespace Tethra.Interception

open Gateway Observe

abbrev Header := Str × Bytes

def headerCi (headers : List Header) (name : String) : Option Bytes :=
  (headers.find? fun h => eqIgnoreAsciiCase h.1 name.toList).map Prod.snd

def headerStr (headers : List Header) (name : String) : Option Str :=
  (headerCi headers name).bind fun v => (fromUtf8 v).map Text.trim

/-- `str::contains`. -/
def contains (t : Str) (part : String) : Bool := decide (part.toList <:+: t)

def isChunked (headers : List Header) : Bool :=
  ((headerCi headers "transfer-encoding").bind fromUtf8).any fun v => contains (asciiLower v) "chunked"

def connectionClose (headers : List Header) (version : HttpVersion) : Bool :=
  match (headerCi headers "connection").bind fromUtf8 with
  | some v =>
      if contains (asciiLower v) "close" then true
      else if contains (asciiLower v) "keep-alive" then false
      else version = .http10
  | none => version = .http10

/-- `u64::from_str`: a sign `+` is allowed. -/
def u64FromStr (t : Str) : Option Nat :=
  let digits := match t with
    | '+' :: rest => rest
    | _ => t
  if digits = [] || !digits.all isAsciiDigit then none else parseU64 digits

/-- The first `Content-Length` field, as a number. -/
def firstContentLength (headers : List Header) : Option Nat :=
  (headerStr headers "content-length").bind u64FromStr

def HttpVersion.fromHttparse (version : Option Nat) : HttpVersion :=
  if version = some 0 then .http10 else .http11

structure RequestHead where
  method : Str
  target : Str
  version : HttpVersion
  host : Option Str
  contentLength : Option Nat
  chunked : Bool
  connectionClose : Bool
  hadAuthorization : Bool
  contentType : Option Str
  upgrade : Option Str
  proxyAuthorization : Option Str
  deriving DecidableEq, Repr

/-- The framing of a message with this length, or the one of a message without. -/
def framingOfLength (length : Option Nat) (otherwise : BodyFraming) : BodyFraming :=
  match length with
  | some n => .contentLength n
  | none => otherwise

def RequestHead.bodyFraming (head : RequestHead) : BodyFraming :=
  if eqIgnoreAsciiCase head.method "CONNECT".toList then .none
  else if head.chunked then .chunked
  else framingOfLength head.contentLength .none

structure ResponseHead where
  status : Nat
  version : HttpVersion
  contentLength : Option Nat
  chunked : Bool
  connectionClose : Bool
  contentType : Option Str
  deriving DecidableEq, Repr

/-- Responses of these kinds have no body. -/
def bodyless (status : Nat) : Bool := (100 ≤ status && status ≤ 199) || status = 204 || status = 304

def ResponseHead.bodyFraming (head : ResponseHead) (requestMethod : Str) : BodyFraming :=
  if eqIgnoreAsciiCase requestMethod "HEAD".toList || bodyless head.status then .none
  else if head.chunked then .chunked
  else framingOfLength head.contentLength .untilClose

/-- The head that `read_head_inner` builds of a complete parse. -/
def requestFrom (method path : Option Str) (version : Option Nat) (headers : List Header) :
    RequestHead :=
  { method := method.getD []
    target := path.getD []
    version := HttpVersion.fromHttparse version
    host := headerStr headers "host"
    contentLength := firstContentLength headers
    chunked := isChunked headers
    connectionClose := connectionClose headers (HttpVersion.fromHttparse version)
    hadAuthorization := (headerCi headers "authorization").isSome || (headerCi headers "x-api-key").isSome
      || (headerCi headers "x-goog-api-key").isSome || (headerCi headers "api-key").isSome
    contentType := headerStr headers "content-type"
    upgrade := headerStr headers "upgrade"
    proxyAuthorization := headerStr headers "proxy-authorization" }

/-- The head that `read_response_head` builds of a complete parse. -/
def responseFrom (code version : Option Nat) (headers : List Header) : ResponseHead :=
  { status := code.getD 0
    version := HttpVersion.fromHttparse version
    contentLength := firstContentLength headers
    chunked := isChunked headers
    connectionClose := connectionClose headers (HttpVersion.fromHttparse version)
    contentType := headerStr headers "content-type" }

/-- A head, its bytes as they are forwarded, and the bytes behind it. -/
structure HeadParts (H : Type) where
  head : H
  raw : Bytes
  leftover : Bytes
  deriving DecidableEq, Repr

/-- One look at the buffer of `read_head_inner`. -/
def acceptRequest (httparse : Bytes → ParseStatus) (buf : Bytes) :
    Except CoreError (Option (HeadParts RequestHead)) :=
  match httparse buf with
  | .complete n method path version headers =>
      .ok (some ⟨requestFrom method path version headers, buf.take n, buf.drop n⟩)
  | .incomplete => .ok none
  | .invalid => .error (.invalidInput "malformed request head".toList)

/-- One look at the buffer of `read_response_head`. -/
def acceptResponse (httparse : Bytes → ResponseStatus) (buf : Bytes) :
    Except CoreError (Option (HeadParts ResponseHead)) :=
  match httparse buf with
  | .complete n code _ version headers =>
      .ok (some ⟨responseFrom code version headers, buf.take n, buf.drop n⟩)
  | .incomplete => .ok none
  | .invalid => .error (.invalidInput "malformed response head".toList)

/-! ## The standard -/

def comma : UInt8 := 0x2c

/-- The members of a comma-separated value; empty ones do not count. -/
def members (value : Bytes) : List Bytes := ((value.splitOn comma).map trimBlanks).filter (· ≠ [])

def hasField (headers : List Header) (name : String) : Bool :=
  headers.any fun h => eqIgnoreAsciiCase h.1 name.toList

/-- The members of all fields with the name, in order. -/
def fieldMembers (headers : List Header) (name : String) : List Bytes :=
  (headers.filter fun h => eqIgnoreAsciiCase h.1 name.toList).flatMap fun h => members h.2

/-- `chunked` is the final coding. -/
def chunkedFinal (headers : List Header) : Bool :=
  (fieldMembers headers "transfer-encoding").getLast?.any fun coding =>
    (fromUtf8 coding).map asciiLower = some "chunked".toList

/-- The length, when all members of the length fields are one valid number. -/
def lengthOf (headers : List Header) : Option Nat :=
  match (fieldMembers headers "content-length").mapM decimal with
  | some (n :: rest) => if rest.all (· = n) then some n else none
  | _ => none

/-- Of a request; a framing that is invalid is none. -/
def requestFraming (headers : List Header) : Option BodyFraming :=
  if hasField headers "transfer-encoding" then if chunkedFinal headers then some .chunked else none
  else if hasField headers "content-length" then (lengthOf headers).map .contentLength
  else some .none

/-- Of a response. Behind a success of `CONNECT` there is a tunnel and no body. -/
def responseFraming (requestMethod : Str) (status : Nat) (headers : List Header) : Option BodyFraming :=
  if requestMethod = "HEAD".toList || bodyless status then some .none
  else if requestMethod = "CONNECT".toList && (200 ≤ status && status ≤ 299) then some .none
  else if hasField headers "transfer-encoding" then
    some (if chunkedFinal headers then .chunked else .untilClose)
  else if hasField headers "content-length" then (lengthOf headers).map .contentLength
  else some .untilClose

/-- A body of length zero is none. -/
def normalized : BodyFraming → BodyFraming
  | .contentLength 0 => .none
  | framing => framing

/-- The relay ends the body where the far end does. -/
def Agrees (relayed : BodyFraming) (standard : Option BodyFraming) : Prop :=
  standard.map normalized = some (normalized relayed)

/-! ## The heads on which they agree -/

/-- A request of a method other than `CONNECT` has either a final coding `chunked` that the first field
    shows, or lengths that all say what the first field says. -/
def RequestFramed (method : Str) (headers : List Header) : Prop :=
  if hasField headers "transfer-encoding" then
    eqIgnoreAsciiCase method "CONNECT".toList = false ∧ chunkedFinal headers = true ∧
      isChunked headers = true
  else if hasField headers "content-length" then
    ∃ n, lengthOf headers = some n ∧
      if eqIgnoreAsciiCase method "CONNECT".toList then n = 0 else (firstContentLength headers).getD 0 = n
  else True

/-- Where the response has a body by its status and method, it has either a coding that the first field
    shows exactly when it is final, or lengths that all say what the first field says. -/
def ResponseFramed (requestMethod : Str) (status : Nat) (headers : List Header) : Prop :=
  if requestMethod = "HEAD".toList || bodyless status then True
  else if eqIgnoreAsciiCase requestMethod "HEAD".toList then
    hasField headers "transfer-encoding" = false ∧ lengthOf headers = some 0
  else if requestMethod = "CONNECT".toList && (200 ≤ status && status ≤ 299) then
    isChunked headers = false ∧ firstContentLength headers = some 0
  else if hasField headers "transfer-encoding" then
    chunkedFinal headers = isChunked headers ∧
      (isChunked headers = false → firstContentLength headers = none)
  else if hasField headers "content-length" then
    ∃ n, lengthOf headers = some n ∧ firstContentLength headers = some n
  else True

section

variable {headers : List Header} {method path : Option Str} {version code : Option Nat}

theorem headerCi_eq_none {name : String} : headerCi headers name = none ↔ hasField headers name = false := by
  simp [headerCi, hasField, List.find?_eq_none]

theorem isChunked_of_absent (h : hasField headers "transfer-encoding" = false) :
    isChunked headers = false := by
  simp [isChunked, headerCi_eq_none.2 h]

theorem firstContentLength_of_absent (h : hasField headers "content-length" = false) :
    firstContentLength headers = none := by
  simp [firstContentLength, headerStr, headerCi_eq_none.2 h]

theorem lengthOf_of_absent (h : hasField headers "content-length" = false) : lengthOf headers = none := by
  have hnone : headers.filter (fun h => eqIgnoreAsciiCase h.1 "content-length".toList) = [] := by
    simpa [hasField, List.filter_eq_nil_iff] using h
  rw [lengthOf, fieldMembers, hnone]
  rfl

@[simp] theorem normalized_none : normalized .none = .none := rfl

@[simp] theorem normalized_chunked : normalized .chunked = .chunked := rfl

@[simp] theorem normalized_untilClose : normalized .untilClose = .untilClose := rfl

theorem normalized_contentLength (n : Nat) :
    normalized (.contentLength n) = if n = 0 then .none else .contentLength n := by
  cases n <;> rfl

@[simp] theorem agrees_none {relayed : BodyFraming} : ¬Agrees relayed none := by
  simp [Agrees]

@[simp] theorem agrees_some {relayed standard : BodyFraming} :
    Agrees relayed (some standard) ↔ normalized standard = normalized relayed := by
  simp [Agrees]

@[simp] theorem agrees_length {relayed : BodyFraming} {length : Option Nat} :
    Agrees relayed (length.map .contentLength)
      ↔ ∃ n, length = some n ∧ normalized (.contentLength n) = normalized relayed := by
  cases length <;> simp

/-- The decisions about a request, over what they look at. -/
theorem request_decision {connect te final chunked cl : Bool} {first length : Option Nat}
    (hte : te = false → chunked = false) (hcl : cl = false → first = none) :
    Agrees
        (if connect then .none else if chunked then .chunked else framingOfLength first .none)
        (if te then if final then some .chunked else none
          else if cl then length.map .contentLength else some .none) ↔
      if te then connect = false ∧ final = true ∧ chunked = true
      else if cl then ∃ n, length = some n ∧ if connect then n = 0 else first.getD 0 = n
      else True := by
  cases te with
  | true =>
      cases connect <;> cases final <;> cases chunked <;> cases first <;>
        simp [framingOfLength, normalized_contentLength] <;> grind
  | false =>
      obtain rfl := hte rfl
      cases cl with
      | true =>
          cases connect <;> cases first <;> simp [framingOfLength, normalized_contentLength] <;> grind
      | false =>
          obtain rfl := hcl rfl
          cases connect <;> simp [framingOfLength]

theorem request_agrees :
    Agrees (requestFrom method path version headers).bodyFraming (requestFraming headers)
      ↔ RequestFramed (method.getD []) headers :=
  request_decision isChunked_of_absent firstContentLength_of_absent

/-- The decisions about a response, over what they look at. -/
theorem response_decision {head headCi connect status te final chunked cl : Bool}
    {first length : Option Nat} (hhead : head = true → headCi = true)
    (hconnect : headCi = true → connect = false) (hte : te = false → chunked = false)
    (hcl : cl = false → first = none ∧ length = none) :
    Agrees
        (if headCi || status then .none else if chunked then .chunked
          else framingOfLength first .untilClose)
        (if head || status then some .none else if connect then some .none
          else if te then some (if final then .chunked else .untilClose)
          else if cl then length.map .contentLength else some .untilClose) ↔
      if head || status then True
      else if headCi then te = false ∧ length = some 0
      else if connect then chunked = false ∧ first = some 0
      else if te then final = chunked ∧ (chunked = false → first = none)
      else if cl then ∃ n, length = some n ∧ first = some n
      else True := by
  by_cases hnone : (head || status) = true
  · have hnone' : (headCi || status) = true := by
      rcases Bool.or_eq_true_iff.1 hnone with h | h
      · rw [hhead h, Bool.true_or]
      · rw [h, Bool.or_true]
    simp [hnone, hnone']
  obtain ⟨rfl, rfl⟩ : head = false ∧ status = false := by simpa using hnone
  cases headCi with
  | true =>
      obtain rfl := hconnect rfl
      cases te with
      | true => cases final <;> simp
      | false =>
          cases cl with
          | true => simp [normalized_contentLength]
          | false =>
              obtain ⟨-, rfl⟩ := hcl rfl
              simp
  | false =>
      cases connect with
      | true =>
          cases chunked <;> cases first <;> simp [framingOfLength, normalized_contentLength]
      | false =>
          cases te with
          | true =>
              cases final <;> cases chunked <;> cases first <;>
                simp [framingOfLength, normalized_contentLength] <;> grind
          | false =>
              obtain rfl := hte rfl
              cases cl with
              | true => cases first <;> simp [framingOfLength, normalized_contentLength] <;> grind
              | false =>
                  obtain ⟨rfl, -⟩ := hcl rfl
                  simp [framingOfLength]

/-- No method is both, in whatever case. -/
theorem head_ne_connect {requestMethod : Str} (h : eqIgnoreAsciiCase requestMethod "HEAD".toList = true) :
    decide (requestMethod = "CONNECT".toList) = false := by
  rw [decide_eq_false_iff_not]
  rintro rfl
  exact absurd h (by decide)

theorem response_agrees (requestMethod : Str) :
    Agrees ((responseFrom code version headers).bodyFraming requestMethod)
        (responseFraming requestMethod (code.getD 0) headers)
      ↔ ResponseFramed requestMethod (code.getD 0) headers := by
  refine response_decision ?_ ?_ isChunked_of_absent
    fun h => ⟨firstContentLength_of_absent h, lengthOf_of_absent h⟩
  · intro h
    rw [of_decide_eq_true h]
    decide
  · intro h
    rw [head_ne_connect h, Bool.false_and]

/-- A head that the proxy accepts goes out as it came in, and the framing for its body is the standard's
    exactly for the heads of `RequestFramed` and `ResponseFramed`. -/
theorem interception_framing (parseRequest : Bytes → ParseStatus) (parseResponse : Bytes → ResponseStatus)
    (buf : Bytes) (requestMethod : Str) :
    (∀ n method path version headers, parseRequest buf = .complete n method path version headers →
      ∃ parts, acceptRequest parseRequest buf = .ok (some parts) ∧ parts.raw = buf.take n ∧
        (Agrees parts.head.bodyFraming (requestFraming headers)
          ↔ RequestFramed (method.getD []) headers)) ∧
    ∀ n code reason version headers, parseResponse buf = .complete n code reason version headers →
      ∃ parts, acceptResponse parseResponse buf = .ok (some parts) ∧ parts.raw = buf.take n ∧
        (Agrees (parts.head.bodyFraming requestMethod)
            (responseFraming requestMethod (code.getD 0) headers)
          ↔ ResponseFramed requestMethod (code.getD 0) headers) := by
  refine ⟨?_, ?_⟩
  · intro n method path version headers hparse
    refine ⟨⟨requestFrom method path version headers, buf.take n, buf.drop n⟩, ?_, rfl, request_agrees⟩
    simp [acceptRequest, hparse]
  · intro n code reason version headers hparse
    refine ⟨⟨responseFrom code version headers, buf.take n, buf.drop n⟩, ?_, rfl,
      response_agrees requestMethod⟩
    simp [acceptResponse, hparse]

/-- A `POST` with the length fields `5` and `6`. -/
def twoLengths : Bytes :=
  wire "POST /v1 HTTP/1.1\r\nHost: h\r\nContent-Length: 5\r\nContent-Length: 6\r\n\r\n"

def twoLengthsHeaders : List Header :=
  [("Host".toList, wire "h"), ("Content-Length".toList, wire "5"), ("Content-Length".toList, wire "6")]

/-- The proxy forwards it and relays five bytes; the standard has no length for it. -/
theorem two_lengths_forwarded :
    ∃ (httparse : Bytes → ParseStatus) (parts : HeadParts RequestHead),
      httparse twoLengths = .complete twoLengths.length (some "POST".toList) (some "/v1".toList) (some 1)
        twoLengthsHeaders ∧
      acceptRequest httparse twoLengths = .ok (some parts) ∧
      parts.raw = twoLengths ∧ parts.head.bodyFraming = .contentLength 5 ∧
      ¬Agrees parts.head.bodyFraming (requestFraming twoLengthsHeaders) := by
  refine ⟨fun buf => .complete buf.length (some "POST".toList) (some "/v1".toList) (some 1)
    twoLengthsHeaders, _, rfl, rfl, List.take_length, by decide, ?_⟩
  have hnone : requestFraming twoLengthsHeaders = none := by decide
  rw [hnone]
  exact agrees_none

example : Agrees (.contentLength 5) (requestFraming [("content-length".toList, wire "5, 5")]) := by
  unfold Agrees
  decide

example : requestFraming [("Transfer-Encoding".toList, wire "gzip"),
    ("Transfer-Encoding".toList, wire "Chunked")] = some .chunked := by
  decide

end

end Tethra.Interception
