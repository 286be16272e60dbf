import Tethra.Core.Error

set_option autoImplicit false

/-! # The destination policy (`observe/src/policy.rs`)

What a host and a port may name: an address is classified by its value, however it is spelled, and a
name must be a well-formed public host name. -/

namespace Tethra.Observe

inductive DenyReason where
  | loopback
  | private_
  | linkLocal
  | cgnat
  | multicast
  | broadcast
  | unspecified
  | reserved
  | documentation
  | cloudMetadata
  | badHostname
  | badPort
  deriving DecidableEq, Repr

inductive Verdict where
  | allow
  | deny (reason : DenyReason)
  deriving DecidableEq, Repr

def Verdict.isAllowed : Verdict → Bool
  | .allow => true
  | .deny _ => false

/-- The `(host, port)` pairs that bypass the denial of private ranges, lowercase. -/
abbrev AllowList := List (Str × Nat)

def asciiLower (t : Str) : Str := t.map Char.toLower

def AllowList.has (allow : AllowList) (host : Str) (port : Nat) : Bool :=
  allow.contains (asciiLower host, port)

def defaultAllowedPorts : List Nat := [80, 443]

def metadataHosts : List Str :=
  ["metadata.google.internal".toList, "metadata.goog".toList, "metadata".toList,
    "instance-data".toList, "instance-data.ec2.internal".toList]

/-! ## Addresses -/

structure Ipv4Addr where
  a : Nat
  b : Nat
  c : Nat
  d : Nat
  deriving DecidableEq, Repr

/-- The eight segments of an address. -/
structure Ipv6Addr where
  s0 : Nat
  s1 : Nat
  s2 : Nat
  s3 : Nat
  s4 : Nat
  s5 : Nat
  s6 : Nat
  s7 : Nat
  deriving DecidableEq, Repr

inductive IpAddr where
  | v4 (ip : Ipv4Addr)
  | v6 (ip : Ipv6Addr)
  deriving DecidableEq, Repr

def classifyV4 (ip : Ipv4Addr) : Verdict :=
  if ip = ⟨0, 0, 0, 0⟩ then .deny .unspecified
  else if ip.a = 127 then .deny .loopback
  else if ip = ⟨255, 255, 255, 255⟩ then .deny .broadcast
  else if ip.a = 10 || ip.a = 172 && 16 ≤ ip.b && ip.b ≤ 31 || ip.a = 192 && ip.b = 168 then
    .deny .private_
  else if ip.a = 169 && ip.b = 254 then .deny .linkLocal
  else if 224 ≤ ip.a && ip.a ≤ 239 then .deny .multicast
  else if (ip.a, ip.b, ip.c) ∈ [(192, 0, 2), (198, 51, 100), (203, 0, 113)] then
    .deny .documentation
  else if ip.a = 0 then .deny .unspecified
  else if ip.a = 100 && 64 ≤ ip.b && ip.b ≤ 127 then .deny .cgnat
  else if ip.a = 192 && ip.b = 0 && ip.c = 0 then .deny .reserved
  else if ip.a = 198 && (ip.b = 18 || ip.b = 19) then .deny .reserved
  else if 240 ≤ ip.a then .deny .reserved
  else .allow

/-- Two segments as the address that they embed. -/
def embeddedV4 (hi lo : Nat) : Ipv4Addr := ⟨hi >>> 8, hi &&& 0xff, lo >>> 8, lo &&& 0xff⟩

def classifyV6 (ip : Ipv6Addr) : Verdict :=
  if ip = ⟨0, 0, 0, 0, 0, 0, 0, 0⟩ then .deny .unspecified
  else if ip = ⟨0, 0, 0, 0, 0, 0, 0, 1⟩ then .deny .loopback
  else if ip.s0 &&& 0xff00 = 0xff00 then .deny .multicast
  else if ip.s0 &&& 0xfe00 = 0xfc00 then .deny .private_
  else if ip.s0 &&& 0xffc0 = 0xfe80 then .deny .linkLocal
  else if ip.s0 = 0x2001 && ip.s1 = 0x0db8 then .deny .documentation
  else if [ip.s0, ip.s1, ip.s2, ip.s3, ip.s4, ip.s5].all (· = 0) && !(ip.s6 = 0 && ip.s7 = 0) then
    classifyV4 (embeddedV4 ip.s6 ip.s7)
  else if ip.s0 = 0x0064 && ip.s1 = 0xff9b then classifyV4 (embeddedV4 ip.s6 ip.s7)
  else if ip.s0 = 0x2002 then classifyV4 (embeddedV4 ip.s1 ip.s2)
  else .allow

/-- The address inside `::ffff:a.b.c.d`. -/
def Ipv6Addr.toIpv4Mapped (ip : Ipv6Addr) : Option Ipv4Addr :=
  if [ip.s0, ip.s1, ip.s2, ip.s3, ip.s4] = [0, 0, 0, 0, 0] && ip.s5 = 0xffff then
    some (embeddedV4 ip.s6 ip.s7)
  else none

def classifyIp : IpAddr → Verdict
  | .v4 ip => classifyV4 ip
  | .v6 ip =>
      match ip.toIpv4Mapped with
      | some v4 => classifyV4 v4
      | none => classifyV6 ip

/-! ## Address literals -/

/-- `char::to_digit`. -/
def digit? (radix : Nat) (c : Char) : Option Nat :=
  let v := if '0' ≤ c ∧ c ≤ '9' then c.toNat - '0'.toNat
    else if 'a' ≤ c ∧ c ≤ 'z' then c.toNat - 'a'.toNat + 10
    else if 'A' ≤ c ∧ c ≤ 'Z' then c.toNat - 'A'.toNat + 10
    else radix
  if v < radix then some v else none

def isDigit (radix : Nat) (c : Char) : Bool := (digit? radix c).isSome

/-- The number that digits spell. -/
def ofDigits (radix : Nat) (digits : Str) : Nat :=
  digits.foldl (fun n c => n * radix + (digit? radix c).getD 0) 0

/-- `Parser::read_number` of the standard library. -/
def readNumber (radix maxDigits bound : Nat) (zeroPrefix : Bool) (t : Str) : Option (Nat × Str) :=
  let digits := t.takeWhile (isDigit radix)
  if digits = [] || maxDigits < digits.length then none
  else if !zeroPrefix && digits.head? = some '0' && 1 < digits.length then none
  else if ofDigits radix digits < bound then some (ofDigits radix digits, t.dropWhile (isDigit radix))
  else none

def readGivenChar (c : Char) : Str → Option Str
  | d :: t => if d = c then some t else none
  | [] => none

def readIpv4 (t : Str) : Option (Ipv4Addr × Str) := do
  let (a, t) ← readNumber 10 3 256 false t
  let t ← readGivenChar '.' t
  let (b, t) ← readNumber 10 3 256 false t
  let t ← readGivenChar '.' t
  let (c, t) ← readNumber 10 3 256 false t
  let t ← readGivenChar '.' t
  let (d, t) ← readNumber 10 3 256 false t
  some (⟨a, b, c, d⟩, t)

/-- Up to `limit` groups, each after a colon but the first; an embedded IPv4 address takes two and
    ends them. -/
def readGroups : Nat → Bool → Str → List Nat × Bool × Str
  | 0, _, t => ([], false, t)
  | limit + 1, first, t =>
      let body := if first then some t else readGivenChar ':' t
      match (if 1 ≤ limit then body.bind readIpv4 else none) with
      | some (ip, rest) => ([ip.a * 256 + ip.b, ip.c * 256 + ip.d], true, rest)
      | none =>
          match body.bind (readNumber 16 4 65536 true) with
          | some (group, rest) =>
              let (groups, v4, rest) := readGroups limit false rest
              (group :: groups, v4, rest)
          | none => ([], false, t)

def ipv6OfGroups : List Nat → Option Ipv6Addr
  | [s0, s1, s2, s3, s4, s5, s6, s7] => some ⟨s0, s1, s2, s3, s4, s5, s6, s7⟩
  | _ => none

def readIpv6 (t : Str) : Option (Ipv6Addr × Str) := do
  let (head, v4, t) := readGroups 8 true t
  if head.length = 8 then
    return (← ipv6OfGroups head, t)
  if v4 then none
  let t ← readGivenChar ':' t
  let t ← readGivenChar ':' t
  let (tail, _, t) := readGroups (8 - (head.length + 1)) true t
  return (← ipv6OfGroups (head ++ List.replicate (8 - head.length - tail.length) 0 ++ tail), t)

/-- `IpAddr::from_str`. -/
def parseIpAddr (t : Str) : Option IpAddr :=
  match readIpv4 t with
  | some (ip, []) => some (.v4 ip)
  | some _ => none
  | none =>
      match readIpv6 t with
      | some (ip, []) => some (.v6 ip)
      | _ => none

/-- One part of an `inet_aton` address: hexadecimal, octal or decimal. -/
def parseInetPart (part : Str) : Option Nat :=
  let (radix, digits) :=
    match part with
    | '0' :: 'x' :: hex => (16, hex)
    | '0' :: 'X' :: hex => (16, hex)
    | '0' :: c :: oct => (8, c :: oct)
    | _ => (10, part)
  if digits = [] || !digits.all (isDigit radix) then none
  else if ofDigits radix digits < 2 ^ 32 then some (ofDigits radix digits) else none

/-- The last part fills the octets that the leading parts leave. -/
def parseIpv4Shorthand (host : Str) : Option Ipv4Addr := do
  let values ← (host.splitOn '.').mapM parseInetPart
  if 4 < values.length then none
  let tail ← values.getLast?
  let leading := values.dropLast
  if leading.any (0xff < ·) then none
  if 256 ^ (4 - leading.length) ≤ tail then none
  let addr := (leading.zipIdx.map fun (v, i) => v * 256 ^ (3 - i)).sum + tail
  some ⟨addr / 256 ^ 3 % 256, addr / 256 ^ 2 % 256, addr / 256 % 256, addr % 256⟩

/-- How an authority spelled an address. -/
inductive IpLiteral where
  | canonical (ip : IpAddr)
  | shorthand (ip : Ipv4Addr)
  deriving DecidableEq, Repr

/-- The inside of brackets, if there are both. -/
def stripBrackets (host : Str) : Str :=
  match host with
  | '[' :: rest => if rest.getLast? = some ']' then rest.dropLast else host
  | _ => host

def parseIpLiteral (host : Str) : Option IpLiteral :=
  match parseIpAddr (stripBrackets host) with
  | some ip => some (.canonical ip)
  | none => (parseIpv4Shorthand (stripBrackets host)).map .shorthand

/-! ## Names -/

/-- The length of a string in bytes. -/
def byteLen (t : Str) : Nat := (t.map Char.utf8Size).sum

def isValidLabel (label : Str) : Bool :=
  label ≠ [] && byteLen label ≤ 63 && label.head? ≠ some '-' && label.getLast? ≠ some '-'
    && label.all fun c => Text.isAsciiAlphanumeric c || c = '-'

def isValidHostname (host : Str) : Bool :=
  let host := if host.getLast? = some '.' then host.dropLast else host
  host ≠ [] && byteLen host ≤ 253 && (host.splitOn '.').all isValidLabel

/-- The verdict on a DNS name: its addresses are checked when it is resolved. -/
def checkHostname (host : Str) (allowlisted : Bool) : Verdict :=
  if !isValidHostname host then .deny .badHostname
  else if (".local".toList.isSuffixOf host || !host.contains '.') && !allowlisted then .deny .private_
  else .allow

/-- Validate the literal authority before DNS. -/
def checkAuthority (host : Str) (port : Nat) (allow : AllowList) : Verdict :=
  let host := (asciiLower (Text.trim host)).rdropWhile (· == '.')
  if host = [] then .deny .badHostname
  else if !defaultAllowedPorts.contains port && !allow.has host port then .deny .badPort
  else if metadataHosts.contains host then .deny .cloudMetadata
  else
    match parseIpLiteral host with
    | some (.canonical ip) => if allow.has host port then .allow else classifyIp ip
    | some (.shorthand ip) =>
        if allow.has host port then .allow
        else if !(classifyV4 ip).isAllowed then classifyV4 ip
        else checkHostname host (allow.has host port)
    | none => checkHostname host (allow.has host port)

end Tethra.Observe
