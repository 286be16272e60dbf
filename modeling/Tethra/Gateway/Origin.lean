import Tethra.Lib.Framing
import Tethra.Observe.Policy

set_option autoImplicit false

/-! # Origins and the route MAC (`gateway/src/routes.rs`)

What a route prefix and an origin have to look like, and the bytes under the MAC of a custom origin.
Unicode lowercasing is a parameter; the errors are the texts of `CoreError::InvalidInput`. -/

namespace Tethra.Gateway

open Observe Framing

def reservedPrefixes : List Str := ["p".toList, "_tethra".toList]

def maxPrefixLen : Nat := 32

def isAsciiLowercase (c : Char) : Bool := 'a' ≤ c && c ≤ 'z'

def isAsciiDigit (c : Char) : Bool := '0' ≤ c && c ≤ '9'

def quoted (before text after : Str) : Str := before ++ '\'' :: text ++ '\'' :: after

def validateRoutePrefix (prefix_ : Str) : Except Str Unit :=
  if prefix_ = [] || maxPrefixLen < byteLen prefix_ then
    .error "route prefix must be 1..=32 characters".toList
  else if !prefix_.head?.any isAsciiLowercase then
    .error "route prefix must start with a lowercase letter".toList
  else if !prefix_.all fun c => isAsciiLowercase c || isAsciiDigit c || c = '-' then
    .error (quoted "route prefix ".toList prefix_
      " may only contain lowercase letters, digits, and '-'".toList)
  else if reservedPrefixes.contains prefix_ then
    .error (quoted "route prefix ".toList prefix_ " is reserved".toList)
  else .ok ()

/-- `u16::from_str`. -/
def parseU16 (t : Str) : Option Nat :=
  let digits := match t with
    | '+' :: rest => rest
    | _ => t
  if digits = [] || !digits.all isAsciiDigit then none
  else if ofDigits 10 digits < 65536 then some (ofDigits 10 digits) else none

/-- Split at the first `]:`. -/
def splitBracketPort : Str → Option (Str × Str)
  | ']' :: ':' :: rest => some ([], rest)
  | c :: rest => (splitBracketPort rest).map fun (h, p) => (c :: h, p)
  | [] => none

/-- Split at the last colon. -/
def rsplitColon (t : Str) : Option (Str × Str) :=
  (Text.splitOnce ':' t.reverse).map fun (p, h) => (h.reverse, p.reverse)

/-- The host and the port of an authority; a port that is no number is none. -/
def hostPort (rest : Str) : Str × Option Nat :=
  if rest.head? = some '[' then
    match splitBracketPort rest with
    | some (h, p) => (h ++ [']'], parseU16 p)
    | none => (rest, some 443)
  else
    match rsplitColon rest with
    | some (h, p) => (h, parseU16 p)
    | none => (rest, some 443)

/-- Validate an origin: https, a bare authority, port 443, and a host that the policy allows. -/
def validateOrigin (lowercase : Str → Str) (origin : Str) : Except Str (Str × Nat) :=
  let err := fun message : Str => Except.error (quoted "origin ".toList origin message)
  match Text.stripPrefix "https://".toList origin with
  | none => err " must be https".toList
  | some rest =>
      if rest.any (['/', '?', '#'].contains ·) then
        err " must be a bare authority (no path, query, or fragment)".toList
      else if rest.contains '@' then err " must not carry userinfo".toList
      else
        match hostPort rest with
        | (_, none) => err ": bad port".toList
        | (host, some port) =>
            if port ≠ 443 then err " must use port 443".toList
            else if host = [] then .error "origin has an empty host".toList
            else if !(checkAuthority (lowercase host) port []).isAllowed then
              err (" is denied by the destination policy (loopback, private, " ++
                "link-local, and cloud-metadata targets are never routable)").toList
            else .ok (lowercase host, port)

/-- A valid origin has port 443 and a host that the destination policy allows. -/
theorem validateOrigin_ok {lowercase : Str → Str} {origin host : Str} {port : Nat}
    (h : validateOrigin lowercase origin = .ok (host, port)) :
    port = 443 ∧ checkAuthority host 443 [] = .allow := by
  unfold validateOrigin at h
  simp only at h
  split at h
  · cases h
  · split_ifs at h
    split at h
    · cases h
    · split_ifs at h with hport hhost hpolicy
      obtain ⟨rfl, rfl⟩ := Prod.mk.inj (Except.ok.inj h)
      have hport' : _ = 443 := not_not.1 hport
      refine ⟨hport', ?_⟩
      rw [← hport']
      revert hpolicy
      cases checkAuthority _ _ [] with
      | allow => exact fun _ => rfl
      | deny reason => exact fun hdeny => absurd rfl hdeny

/-! ## The MAC -/

/-- The UTF-8 bytes of a string. -/
def utf8 (t : Str) : List UInt8 := (String.ofList t).toByteArray.data.toList

theorem utf8_inj {t u : Str} (h : utf8 t = utf8 u) : t = u := by
  have hbytes : (String.ofList t).toByteArray = (String.ofList u).toByteArray :=
    ByteArray.ext (Array.toList_inj.1 h)
  exact String.ofList_injective (String.toByteArray_inj.1 hbytes)

/-- What the MAC of a custom origin binds. -/
structure MacFields where
  vaultId : Str
  routePrefix : Str
  providerId : Str
  originHost : Str
  port : Nat
  consentTs : Str
  deriving DecidableEq, Repr

/-- The string fields, in the order in which they are hashed. -/
def MacFields.texts (t : MacFields) : List Str :=
  [t.vaultId, t.routePrefix, t.providerId, t.originHost, t.consentTs]

/-- The lengths are those of strings in memory, and the port is one. -/
structure MacFields.Fits (t : MacFields) : Prop where
  texts : ∀ field ∈ t.texts, Framing.Fits (utf8 field)
  port : t.port < 65536

/-- The bytes that `route_mac` hashes. -/
def macMessage (t : MacFields) : List UInt8 :=
  utf8 "tethra:gateway-route-mac:v2".toList ++ (frames (t.texts.map utf8) ++ leBytes 2 t.port)

/-- No two identities have one MAC input. -/
theorem macMessage_inj {t u : MacFields} (ht : t.Fits) (hu : u.Fits)
    (h : macMessage t = macMessage u) : t = u := by
  unfold macMessage at h
  have hfits : ∀ v : MacFields, v.Fits → ∀ b ∈ v.texts.map utf8, Framing.Fits b := by
    intro v hv b hb
    obtain ⟨field, hfield, rfl⟩ := List.mem_map.1 hb
    exact hv.texts field hfield
  have hlen : (t.texts.map utf8).length = (u.texts.map utf8).length := rfl
  obtain ⟨htexts, hport⟩ :=
    frames_append_inj hlen (hfits t ht) (hfits u hu) (List.append_cancel_left h)
  have hport' : t.port = u.port := leBytes_inj (n := 2) ht.port hu.port hport
  obtain ⟨h1, h2, h3, h4, h5⟩ : t.vaultId = u.vaultId ∧ t.routePrefix = u.routePrefix ∧
      t.providerId = u.providerId ∧ t.originHost = u.originHost ∧ t.consentTs = u.consentTs := by
    have hlists := (List.map_injective_iff.2 fun _ _ => utf8_inj) htexts
    simpa [MacFields.texts] using hlists
  cases t
  cases u
  simp_all

/-- `route_mac`: the key must have 32 bytes. -/
def routeMac (keyedHash : List UInt8 → List UInt8 → List UInt8) (macKey : List UInt8)
    (t : MacFields) : Except CoreError (List UInt8) :=
  if macKey.length = 32 then .ok (keyedHash macKey (macMessage t))
  else .error (.crypto "gateway MAC key length")

end Tethra.Gateway
