import Tethra.Gateway.Attribution
import Tethra.Gateway.EnvLink
import Tethra.Gateway.Head

set_option autoImplicit false

/-! # The digest of a request's credentials (`gateway/src/attribution.rs`)

The values of the recognized headers are stripped of their scheme and digested under the matching key. A
scheme is found by slicing off as many bytes as it has, and a slice that ends within a character panics:
`digest_request` returns exactly for the heads whose values can be sliced (`digestRequest_returns`). -/

namespace Tethra.Gateway

/-! ## Slices -/

/-- `&t[..n]` and `&t[n..]`; none when they panic. -/
def sliceAt (n : Nat) : Str → Option (Str × Str)
  | [] => if n = 0 then some ([], []) else none
  | c :: t =>
      if n = 0 then some ([], c :: t)
      else if c.utf8Size ≤ n then (sliceAt (n - c.utf8Size) t).map fun (a, b) => (c :: a, b)
      else none

/-- A character begins at byte `n`, or the text ends there. -/
def IsCharBoundary (n : Nat) (t : Str) : Prop := ∃ a b, t = a ++ b ∧ (utf8 a).length = n

theorem length_utf8_cons (c : Char) (t : Str) : (utf8 (c :: t)).length = c.utf8Size + (utf8 t).length := by
  rw [utf8_eq_flatMap, utf8_eq_flatMap, List.flatMap_cons, List.length_append,
    String.length_utf8EncodeChar]

theorem sliceAt_eq_some {n : Nat} {t a b : Str} :
    sliceAt n t = some (a, b) ↔ t = a ++ b ∧ (utf8 a).length = n := by
  induction t generalizing n a with
  | nil =>
      unfold sliceAt
      split_ifs with h
      · subst h
        simp only [Option.some.injEq, Prod.mk.injEq, List.nil_eq_append_iff]
        constructor
        · rintro ⟨rfl, rfl⟩
          exact ⟨⟨rfl, rfl⟩, by simp⟩
        · rintro ⟨⟨rfl, rfl⟩, -⟩
          exact ⟨rfl, rfl⟩
      · simp only [reduceCtorEq, List.nil_eq_append_iff, false_iff, not_and]
        rintro ⟨rfl, -⟩ hlen
        exact h (by simpa using hlen.symm)
  | cons c t ih =>
      have hpos := c.utf8Size_pos
      cases a with
      | nil =>
          unfold sliceAt
          split_ifs with h hsize
          · simp [h, eq_comm]
          · simp [Ne.symm h]
          · simp [Ne.symm h]
      | cons d a =>
          rw [List.cons_append, List.cons.injEq, length_utf8_cons]
          unfold sliceAt
          split_ifs with h hsize
          · simp only [Option.some.injEq, Prod.mk.injEq, reduceCtorEq, false_and, false_iff, not_and]
            rintro ⟨rfl, -⟩ hlen
            omega
          · simp only [Option.map_eq_some_iff, Prod.exists, Prod.mk.injEq, List.cons.injEq]
            constructor
            · rintro ⟨a', b', hslice, ⟨rfl, rfl⟩, rfl⟩
              obtain ⟨rfl, hlen⟩ := ih.1 hslice
              exact ⟨⟨rfl, rfl⟩, by omega⟩
            · rintro ⟨⟨rfl, rfl⟩, hlen⟩
              exact ⟨a, b, ih.2 ⟨rfl, by omega⟩, ⟨rfl, rfl⟩, rfl⟩
          · simp only [reduceCtorEq, false_iff, not_and]
            rintro ⟨rfl, -⟩ hlen
            omega

theorem sliceAt_isSome {n : Nat} {t : Str} : (sliceAt n t).isSome = true ↔ IsCharBoundary n t := by
  rw [Option.isSome_iff_exists]
  constructor
  · rintro ⟨⟨a, b⟩, hslice⟩
    exact ⟨a, b, sliceAt_eq_some.1 hslice⟩
  · rintro ⟨a, b, hab⟩
    exact ⟨(a, b), sliceAt_eq_some.2 hab⟩

/-! ## The digest -/

/-- `CREDENTIAL_HEADERS`. -/
def credentialHeaders : List Str :=
  ["authorization".toList, "x-api-key".toList, "api-key".toList, "x-goog-api-key".toList]

/-- `STRIPPABLE_SCHEMES`. -/
def strippableSchemes : List Str := ["bearer".toList, "token".toList]

/-- `KNOWN_SCHEMES`. -/
def knownSchemes : List Str :=
  ["bearer".toList, "token".toList, "basic".toList, "digest".toList, "negotiate".toList, "ntlm".toList,
    "hoba".toList, "mutual".toList, "aws4-hmac-sha256".toList]

/-- `MAX_CREDENTIAL_LEN`. -/
def maxCredentialLen : Nat := 8 * 1024

/-- `u8::is_ascii_whitespace`. -/
def isAsciiWhitespaceByte (b : UInt8) : Bool := b = 32 || b = 9 || b = 10 || b = 12 || b = 13

/-- What one scheme adds to the candidates. -/
def stripScheme (trimmed scheme : Str) : Option (Option Str) :=
  let n := (utf8 scheme).length
  if (utf8 trimmed).length ≤ n then some none
  else
    (sliceAt n trimmed).map fun (head, tail) =>
      if eqIgnoreAsciiCase head scheme && (utf8 trimmed)[n]?.any isAsciiWhitespaceByte then
        if Text.trim tail = [] then none else some (Text.trim tail)
      else none

/-- `candidates`: the values without a scheme, and the whole value. -/
def candidates (value : Str) : Option (List Str) :=
  (strippableSchemes.mapM (stripScheme (Text.trim value))).map fun stripped =>
    stripped.reduceOption ++ [Text.trim value]

/-- `split_once(char::is_whitespace)`. -/
def splitAtWhitespace (t : Str) : Option (Str × Str) :=
  match t.dropWhile (!Text.isWhitespace ·) with
  | [] => none
  | _ :: rest => some (t.takeWhile (!Text.isWhitespace ·), rest)

def isUnsupportedScheme (value : Str) : Bool :=
  match splitAtWhitespace (Text.trim value) with
  | none => knownSchemes.any (eqIgnoreAsciiCase (Text.trim value))
  | some (scheme, rest) =>
      if Text.trim rest = [] then true else !strippableSchemes.any (eqIgnoreAsciiCase scheme)

/-- The field's value is not digested. -/
def HeaderField.unsupported (field : HeaderField) (value : Str) : Bool :=
  Text.trim value = [] || maxCredentialLen < (utf8 value).length ||
    (field.lower = "authorization".toList && isUnsupportedScheme value)

/-- The candidates of a field; none when its form is not supported. -/
def HeaderField.candidates (field : HeaderField) : Option (Option (List Str)) :=
  match field.valueStr with
  | none => some none
  | some value =>
      if field.unsupported value then some none else (Gateway.candidates value).map some

def RequestHead.credentialFields (head : RequestHead) : List HeaderField :=
  head.headers.filter fun h => credentialHeaders.contains h.lower

/-- `digest_request`; none when it panics. -/
def digestRequest (keyedHash : Bytes → Bytes → Bytes) (key : Option Bytes) (head : RequestHead) :
    Option (AttributionInput × Option CredentialDigest) :=
  if head.credentialFields = [] then some (.noCredentialPresent, none)
  else
    match key with
    | none => some (.unavailableNoKey, none)
    | some key =>
        if key.length ≠ 32 then some (.unavailableNoKey, none)
        else
          (head.credentialFields.mapM HeaderField.candidates).map fun read =>
            let digests :=
              (read.reduceOption.flatten.map fun c => keyedHash key (utf8 (Text.trim c))).eraseDups
            if digests = [] then
              (if read.any Option.isNone then .unsupportedForm else .noCredentialPresent, none)
            else (.digested, some ⟨digests⟩)

/-! ## When it returns -/

/-- At the length of each scheme that is shorter than it, the trimmed value can be cut. -/
def Sliceable (value : Str) : Prop :=
  ∀ scheme ∈ strippableSchemes, (utf8 scheme).length < (utf8 (Text.trim value)).length →
    IsCharBoundary (utf8 scheme).length (Text.trim value)

theorem isSome_mapM {α β : Type} {f : α → Option β} {l : List α} :
    (l.mapM f).isSome = true ↔ ∀ a ∈ l, (f a).isSome = true := by
  induction l with
  | nil => simp
  | cons a l ih =>
      rw [List.mapM_cons, List.forall_mem_cons, ← ih]
      cases f a with
      | none => simp
      | some b => cases l.mapM f <;> simp

theorem stripScheme_isSome {trimmed scheme : Str} :
    (stripScheme trimmed scheme).isSome = true ↔
      ((utf8 scheme).length < (utf8 trimmed).length → IsCharBoundary (utf8 scheme).length trimmed) := by
  unfold stripScheme
  dsimp only
  split_ifs with h
  · simp [Nat.not_lt.2 h]
  · rw [Option.isSome_map, sliceAt_isSome]
    simp [Nat.not_le.1 h]

theorem candidates_isSome {value : Str} : (candidates value).isSome = true ↔ Sliceable value := by
  unfold candidates Sliceable
  rw [Option.isSome_map, isSome_mapM]
  exact forall₂_congr fun scheme _ => stripScheme_isSome

theorem HeaderField.candidates_isSome {field : HeaderField} :
    field.candidates.isSome = true ↔
      ∀ value, field.valueStr = some value → field.unsupported value = false → Sliceable value := by
  unfold HeaderField.candidates
  cases field.valueStr with
  | none => simp
  | some value =>
      by_cases h : field.unsupported value = true
      · simp [h]
      · simp [h, Gateway.candidates_isSome]

/-- The digest is returned exactly when there is no key to digest with, or every value that is digested
    can be cut where a scheme would end. -/
theorem digestRequest_returns (keyedHash : Bytes → Bytes → Bytes) (key : Option Bytes) (head : RequestHead) :
    (digestRequest keyedHash key head).isSome = true ↔
      (∃ k, key = some k ∧ k.length = 32) →
        ∀ field ∈ head.headers, field.lower ∈ credentialHeaders → ∀ value, field.valueStr = some value →
          field.unsupported value = false → Sliceable value := by
  have hfields : (∀ field ∈ head.credentialFields, field.candidates.isSome = true) ↔
      ∀ field ∈ head.headers, field.lower ∈ credentialHeaders → ∀ value, field.valueStr = some value →
        field.unsupported value = false → Sliceable value := by
    simp only [RequestHead.credentialFields, List.mem_filter, List.contains_iff_mem, and_imp,
      HeaderField.candidates_isSome]
  unfold digestRequest
  split_ifs with hnone
  · rw [hnone] at hfields
    simp only [Option.isSome_some, true_iff]
    intro _
    exact hfields.1 (by simp)
  · cases key with
    | none => simp
    | some key =>
        dsimp only
        split_ifs with hlen
        · simp only [Option.isSome_some, true_iff]
          rintro ⟨k, hk, hk32⟩
          exact absurd (Option.some.inj hk ▸ hk32) hlen
        · rw [Option.isSome_map, isSome_mapM, hfields]
          exact ⟨fun h _ => h, fun h => h ⟨key, rfl, not_not.1 hlen⟩⟩

/-- Five letters and a letter of two bytes. -/
def naiveKey : HeaderField where
  name := "X-Api-Key".toList
  value := utf8 "naiveé".toList
  token := by decide
  clean := by decide

def naiveHead : RequestHead where
  method := "GET".toList
  target := "/openai/v1/models".toList
  version := .http11
  headers := [naiveKey]
  framing := .none
  methodToken := by decide
  targetVisible := by decide
  framed := by decide

/-- The sixth byte lies within the last letter. -/
theorem digest_panics :
    ∃ keyedHash : Bytes → Bytes → Bytes,
      digestRequest keyedHash (some (List.replicate 32 7)) naiveHead = none := by
  have hcandidates : naiveKey.candidates = none := by decide
  have hfields : naiveHead.credentialFields = [naiveKey] := by decide
  exact ⟨fun _ bytes => bytes, by simp [digestRequest, hfields, hcandidates]⟩

end Tethra.Gateway
