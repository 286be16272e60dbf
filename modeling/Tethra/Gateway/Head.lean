import Tethra.Gateway.WireText

set_option autoImplicit false

/-! # Message heads (`gateway/src/head.rs`)

A request head is accepted only with strict line ends, token names, clean values and unambiguous
framing; the head for the upstream is rebuilt from the parsed fields. `httparse` is a parameter. -/

namespace Tethra.Gateway

open Observe (asciiLower ofDigits)

def maxHeaders : Nat := 100

def maxTarget : Nat := 8 * 1024

inductive HttpVersion where
  | http10
  | http11
  deriving DecidableEq, Repr

/-- The framing of a body (`Framing`). -/
inductive BodyFraming where
  | none
  | contentLength (n : Nat)
  | chunked
  /-- Of a response: the body runs until the connection closes. -/
  | untilClose
  deriving DecidableEq, Repr

/-- Hop-by-hop headers that are never forwarded. -/
def hopByHop : List Str :=
  ["connection".toList, "keep-alive".toList, "proxy-authenticate".toList,
    "proxy-authorization".toList, "proxy-connection".toList, "te".toList, "trailer".toList,
    "transfer-encoding".toList, "upgrade".toList]

/-! ## The raw head -/

def malformedHead {α : Type} (what : String) : Except CoreError α :=
  .error (.invalidInput ("malformed head: ".toList ++ what.toList))

/-- No bare LF, bare CR or NUL; `prev` is the byte before. -/
def checkLineEnds : Option UInt8 → Bytes → Except CoreError Unit
  | _, [] => .ok ()
  | prev, b :: rest =>
      if b = lf ∧ prev ≠ some cr then malformedHead "bare LF"
      else if b = cr ∧ rest.head? ≠ some lf then malformedHead "bare CR"
      else if b = 0 then malformedHead "NUL byte"
      else checkLineEnds (some b) rest

def isBlank (b : UInt8) : Bool := b = 32 || b = 9

/-- No line after a CRLF begins with a space or a tab. -/
def checkFolding : Bytes → Except CoreError Unit
  | [] => .ok ()
  | b :: rest =>
      if b = cr ∧ rest.head? = some lf ∧ rest.tail.head?.any isBlank then
        malformedHead "obsolete line folding"
      else checkFolding rest

def validateRawHead (raw : Bytes) : Except CoreError Unit := do
  checkLineEnds none raw
  checkFolding raw

/-! ## Fields -/

def separators : Bytes := utf8 "()<>@,;:\\\"/[]?=\x7b\x7d \t".toList

/-- Visible ASCII. -/
def isVisible (b : UInt8) : Bool := 0x21 ≤ b && b < 0x7f

def isTokenByte (b : UInt8) : Bool := isVisible b && !separators.contains b

def validateToken (s : Str) (what : String) : Except CoreError Unit :=
  if s = [] ∨ 256 < (utf8 s).length ∨ !(utf8 s).all isTokenByte then
    .error (.invalidInput ("invalid ".toList ++ what.toList))
  else .ok ()

def validateTargetCharset (target : Str) : Except CoreError Unit :=
  if target = [] then .error (.invalidInput "empty request target".toList)
  else if !(utf8 target).all isVisible then
    .error (.invalidInput "request target contains an invalid character".toList)
  else .ok ()

/-- A byte that would end a line, or NUL. -/
def isBreak (b : UInt8) : Bool := b = cr || b = lf || b = 0

/-- A header field: only one that was validated can be built. -/
structure HeaderField where
  name : Str
  value : Bytes
  token : validateToken name "header name" = .ok ()
  clean : value.any isBreak = false
  deriving DecidableEq

def HeaderField.lower (f : HeaderField) : Str := asciiLower f.name

/-- The value, if it is valid UTF-8. -/
def HeaderField.valueStr (f : HeaderField) : Option Str := fromUtf8 f.value

/-- The field of a parsed header; a header without a name is skipped. -/
def collectHeader (h : Str × Bytes) : Except CoreError (Option HeaderField) :=
  if h.1 = [] then .ok none
  else
    match htoken : validateToken h.1 "header name" with
    | .error e => .error e
    | .ok () =>
        if hclean : h.2.any isBreak = false then .ok (some ⟨h.1, h.2, htoken, hclean⟩)
        else .error (.invalidInput "header value contains a control character".toList)

def collectHeaders (headers : List (Str × Bytes)) : Except CoreError (List HeaderField) := do
  let fields ← headers.mapM collectHeader
  let out := fields.reduceOption
  if maxHeaders < out.length then .error (.invalidInput "too many header fields".toList)
  else .ok out

/-! ## Framing -/

structure FramingSeen where
  contentLength : Option Nat
  seenCl : Bool
  chunked : Bool

/-- `u64::from_str` of digits. -/
def parseU64 (digits : Str) : Option Nat :=
  if ofDigits 10 digits < 2 ^ 64 then some (ofDigits 10 digits) else none

def contentLengthOf (f : HeaderField) : Except CoreError Nat :=
  match f.valueStr with
  | none => .error (.invalidInput "non-utf8 Content-Length".toList)
  | some t =>
      let v := Text.trim t
      if v = [] ∨ !v.all isAsciiDigit then .error (.invalidInput "invalid Content-Length".toList)
      else
        match parseU64 v with
        | none => .error (.invalidInput "invalid Content-Length".toList)
        | some n => .ok n

def checkTransferEncoding (f : HeaderField) : Except CoreError Unit :=
  match f.valueStr with
  | none => .error (.invalidInput "non-utf8 Transfer-Encoding".toList)
  | some t =>
      if asciiLower (Text.trim t) ≠ "chunked".toList then
        .error (.invalidInput "unsupported Transfer-Encoding".toList)
      else .ok ()

def FramingSeen.see (s : FramingSeen) (f : HeaderField) : Except CoreError FramingSeen :=
  if f.lower = "content-length".toList then
    if s.seenCl then .error (.invalidInput "duplicate Content-Length".toList)
    else do
      let n ← contentLengthOf f
      return { s with contentLength := some n, seenCl := true }
  else if f.lower = "transfer-encoding".toList then
    if s.chunked then .error (.invalidInput "multiple Transfer-Encoding fields".toList)
    else do
      checkTransferEncoding f
      return { s with chunked := true }
  else .ok s

def framingHeaders (fields : List HeaderField) : Except CoreError FramingSeen :=
  fields.foldlM FramingSeen.see ⟨none, false, false⟩

def validateRequestFraming (fields : List HeaderField) : Except CoreError BodyFraming := do
  let seen ← framingHeaders fields
  match seen.contentLength, seen.chunked with
  | some _, true =>
      .error (.invalidInput "both Content-Length and Transfer-Encoding present".toList)
  | some n, false => .ok (.contentLength n)
  | none, true => .ok .chunked
  | none, false => .ok .none

def commaTokens (v : Str) : List Str := (v.splitOn ',').map fun t => asciiLower (Text.trim t)

def wantsClose (version : HttpVersion) : List HeaderField → Bool
  | [] => version = .http10
  | f :: fields =>
      match (if f.lower = "connection".toList then f.valueStr else none) with
      | some v =>
          if (commaTokens v).contains "close".toList then true
          else if (commaTokens v).contains "keep-alive".toList then false
          else wantsClose version fields
      | none => wantsClose version fields

/-! ## The request head -/

/-- A request head that was accepted. -/
structure RequestHead where
  method : Str
  target : Str
  version : HttpVersion
  headers : List HeaderField
  framing : BodyFraming
  methodToken : validateToken method "method" = .ok ()
  targetVisible : validateTargetCharset target = .ok ()
  framed : validateRequestFraming headers = .ok framing
  deriving DecidableEq

def RequestHead.expectsContinue (head : RequestHead) : Bool :=
  head.headers.any fun f =>
    f.lower = "expect".toList &&
      f.valueStr.any fun v => asciiLower (Text.trim v) = "100-continue".toList

/-- What `httparse` says about the bytes so far. -/
inductive ParseStatus where
  | complete (n : Nat) (method path : Option Str) (version : Option Nat)
      (headers : List (Str × Bytes))
  | incomplete
  | invalid

/-- One look at the buffer of `read_request_head`: a head with the bytes behind it, or none yet. -/
def acceptRequestHead (httparse : Bytes → ParseStatus) (buf : Bytes) :
    Except CoreError (Option (RequestHead × Bytes)) :=
  match httparse buf with
  | .invalid => .error (.invalidInput "malformed request head".toList)
  | .incomplete => .ok none
  | .complete n method path version headers => do
      validateRawHead (buf.take n)
      let target := path.getD []
      if maxTarget < (utf8 target).length then
        .error (.invalidInput "request target too long".toList)
      else
        match hmethod : validateToken (method.getD []) "method", htarget : validateTargetCharset target with
        | .error e, _ => .error e
        | .ok (), .error e => .error e
        | .ok (), .ok () => do
            let fields ← collectHeaders headers
            match hframed : validateRequestFraming fields with
            | .error e => .error e
            | .ok framing =>
                return some
                  ({ method := method.getD []
                     target
                     version := if version = some 0 then .http10 else .http11
                     headers := fields
                     framing
                     methodToken := hmethod
                     targetVisible := htarget
                     framed := hframed }, buf.drop n)

/-! ## The head for the upstream -/

/-- Header tokens named by a `Connection:` field are hop-by-hop too. -/
def connectionNamed (fields : List HeaderField) : List Str :=
  fields.flatMap fun f =>
    if f.lower = "connection".toList then
      match f.valueStr with
      | some v => (commaTokens v).filter (· ≠ [])
      | none => []
    else []

def wire (s : String) : Bytes := utf8 s.toList

def fieldLine (name value : Bytes) : Bytes := name ++ wire ": " ++ value ++ crlf

/-- The field is not copied to the upstream's head. -/
def dropsField (named : List Str) (forceIdentityEncoding : Bool) (f : HeaderField) : Bool :=
  f.lower = "host".toList || f.lower = "cookie".toList || f.lower = "content-length".toList ||
    hopByHop.contains f.lower || named.contains f.lower ||
    (forceIdentityEncoding && f.lower = "accept-encoding".toList)

def buildUpstreamHead (head : RequestHead) (upstreamTarget upstreamHost : Str)
    (keepAlive forceIdentityEncoding : Bool) : Bytes :=
  let named := connectionNamed head.headers
  utf8 head.method ++ wire " " ++ utf8 upstreamTarget ++ wire " HTTP/1.1" ++ crlf ++
    fieldLine (wire "Host") (utf8 upstreamHost) ++
    (head.headers.flatMap fun f =>
      if dropsField named forceIdentityEncoding f then [] else fieldLine (utf8 f.name) f.value) ++
    (if forceIdentityEncoding then fieldLine (wire "Accept-Encoding") (wire "identity") else []) ++
    (match head.framing with
      | .contentLength n => fieldLine (wire "Content-Length") (wire (toString n))
      | .chunked => fieldLine (wire "Transfer-Encoding") (wire "chunked")
      | .none | .untilClose => []) ++
    fieldLine (wire "Connection") (wire (if keepAlive then "keep-alive" else "close")) ++ crlf

end Tethra.Gateway
