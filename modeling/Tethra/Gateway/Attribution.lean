import Tethra.Core.Error

set_option autoImplicit false

/-! # Attribution (`gateway/src/attribution.rs`)

The scoped matcher table, and how the digest of a presented credential is resolved against it. -/

namespace Tethra.Gateway

structure FingerprintEntry where
  credentialId : Str
  fingerprint : List UInt8
  retainedVersion : Option Int
  revoked : Bool
  deriving DecidableEq, Repr

structure CredentialDigest where
  candidates : List (List UInt8)
  deriving DecidableEq, Repr

inductive Attribution where
  | matched (credentialId : Str) (revoked : Bool)
  | matchedOldVersion (credentialId : Str) (version : Int)
  | ambiguousDuplicate (credentialIds : List Str)
  | unmatched
  | noCredentialPresent
  | unsupportedForm
  | unavailableNoKey
  deriving DecidableEq, Repr

inductive AttributionInput where
  | digested
  | noCredentialPresent
  | unsupportedForm
  | unavailableNoKey
  deriving DecidableEq, Repr

structure Matcher where
  entries : List FingerprintEntry
  deriving DecidableEq, Repr

/-- The attribution by the entries that one candidate hits. -/
def resolveHits : List FingerprintEntry → Attribution
  | [] => .unmatched
  | hit :: hits =>
      let ids := (((hit :: hits).map FingerprintEntry.credentialId).insertionSort (· ≤ ·)).dedup
      if 1 < ids.length then .ambiguousDuplicate ids
      else
        match hit.retainedVersion with
        | some version => .matchedOldVersion hit.credentialId version
        | none => .matched hit.credentialId hit.revoked

/-- `Matcher::resolve`: the first candidate that hits an entry decides. -/
def Matcher.resolve (matcher : Matcher) (digest : CredentialDigest) : Attribution :=
  match digest.candidates.findSome? fun candidate =>
      match matcher.entries.filter fun e =>
        e.fingerprint.length = 32 && e.fingerprint = candidate with
      | [] => none
      | hits => some (resolveHits hits) with
  | some attribution => attribution
  | none => .unmatched

end Tethra.Gateway
