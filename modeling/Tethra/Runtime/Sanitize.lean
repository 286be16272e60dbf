import Tethra.Lib.ClassRuns
import Tethra.Lib.Segments
import Tethra.Core.Error

set_option autoImplicit false

/-! # Path templates (`core/src/runtime/sanitize.rs`)

The only thing that turns a request target into a stored string: query and fragment are cut off, and
each segment of the path is kept or replaced by a placeholder. A Rust string is its UTF-8 bytes; every
cut is at an ASCII byte, so the functions are stated for all byte strings. No output has a forbidden
byte or run (`sanitizePath_clean`): a run cannot cross a slash, and every piece between two slashes is
a placeholder or passed the checks. -/

namespace Tethra.Runtime

open ClassRuns

abbrev Bytes := List UInt8

/-- The bytes of an ASCII literal. -/
def ascii (s : String) : Bytes := s.toList.map fun c => UInt8.ofNat c.toNat

/-- `providers::Confidence`. -/
inductive Confidence where
  | low
  | medium
  | high
  deriving DecidableEq, Repr

def Confidence.min : Confidence → Confidence → Confidence
  | .high, c => c
  | c, .high => c
  | .medium, .medium => .medium
  | _, _ => .low

/-- Maximum bytes of path we template; longer paths are truncated. -/
def maxLen : Nat := 512

/-- Maximum number of `/`-separated parts we template. -/
def maxParts : Nat := 20

def slash : UInt8 := 0x2f

/-! ## Classes of bytes -/

def isDigit (b : UInt8) : Bool := 0x30 ≤ b && b ≤ 0x39

def isLower (b : UInt8) : Bool := 0x61 ≤ b && b ≤ 0x7a

def isUpper (b : UInt8) : Bool := 0x41 ≤ b && b ≤ 0x5a

def isAlphabetic (b : UInt8) : Bool := isLower b || isUpper b

def isAlphanumeric (b : UInt8) : Bool := isAlphabetic b || isDigit b

def isHexByte (b : UInt8) : Bool :=
  isDigit b || (0x61 ≤ b && b ≤ 0x66) || (0x41 ≤ b && b ≤ 0x46)

def isVowel (b : UInt8) : Bool := (ascii "aeiouAEIOU").contains b

def isConsonant (b : UInt8) : Bool := isAlphabetic b && !isVowel b

def isControl (b : UInt8) : Bool := b < 0x20 || b = 0x7f

/-! ## Classes of segments -/

def isUuidBytes (b : Bytes) : Bool :=
  b.length = 36 && b.zipIdx.all fun (c, i) =>
    if [8, 13, 18, 23].contains i then c = 0x2d else isHexByte c

def isAllDigits (s : Bytes) : Bool := s ≠ [] && s.all isDigit

def isLongHex (s : Bytes) : Bool := 16 ≤ s.length && s.all isHexByte

/-- `split_once`. -/
def splitOnce (sep : UInt8) (s : Bytes) : Option (Bytes × Bytes) :=
  if s.contains sep then some (s.takeWhile (· ≠ sep), (s.dropWhile (· ≠ sep)).tail) else none

/-- `rsplit_once`. -/
def rsplitOnce (sep : UInt8) (s : Bytes) : Option (Bytes × Bytes) :=
  (splitOnce sep s.reverse).map fun (after, before) => (before.reverse, after.reverse)

def isEmail (s : Bytes) : Bool :=
  match splitOnce 0x40 s with
  | some (local_, domain) => local_ ≠ [] && domain.contains 0x2e && domain.head? ≠ some 0x2e
  | none => false

/-- Known credential and token prefixes. -/
def credentialPrefixes : List Bytes :=
  ["sk-", "sk_", "pk_live", "pk_test", "rk_live", "rk_test", "whsec_", "ghp_", "gho_", "ghu_", "ghs_",
    "ghr_", "github_pat_", "xoxb-", "xoxp-", "xoxa-", "xoxr-", "xoxs-", "AKIA", "ASIA", "AIza",
    "ya29.", "glpat-", "shpat_", "shpss_", "shpca_", "Bearer", "eyJ"].map ascii

def isCredentialShaped (s : Bytes) : Bool :=
  credentialPrefixes.any (·.isPrefixOf s) && 8 ≤ s.length

def isBase64urlCharset (s : Bytes) : Bool :=
  s ≠ [] && s.all fun b => isAlphanumeric b || b = 0x2d || b = 0x5f || b = 0x3d

def isJwt (s : Bytes) : Bool :=
  let parts := s.splitOn 0x2e
  parts.length = 3 && parts.head?.any ((ascii "eyJ").isPrefixOf ·) &&
    parts.all fun p => 8 ≤ p.length && isBase64urlCharset p

/-- `vowel_ratio(s) < 0.20`: the quotient is 0 without letters, and no quotient of two lengths rounds
    to the other side of one fifth. -/
def hasFewVowels (s : Bytes) : Bool :=
  s.countP isAlphabetic = 0 || 5 * s.countP isVowel < s.countP isAlphabetic

/-- Character-class diversity and length heuristic for opaque tokens. -/
def isHighEntropy (s : Bytes) : Bool :=
  let n := s.length
  let lower := s.any isLower
  let upper := s.any isUpper
  let digit := s.any isDigit
  let other := s.any fun b => !isAlphanumeric b
  let classes := [lower, upper, digit, other].count true
  if n < 16 then false
  else if 3 ≤ classes then true
  else if isBase64urlCharset s && digit && (lower || upper) && 20 ≤ n then true
  else if classes = 1 && (lower || upper) && 16 ≤ n &&
      (24 ≤ n || hasFewVowels s || 6 ≤ maxRun isConsonant s) then true
  else classes = 2 && lower && upper && !digit && !other && 20 ≤ n

/-- `char::to_digit(16)`. -/
def hexDigit? (b : UInt8) : Option Nat :=
  if isDigit b then some (b.toNat - 0x30)
  else if 0x61 ≤ b && b ≤ 0x66 then some (b.toNat - 0x61 + 10)
  else if 0x41 ≤ b && b ≤ 0x46 then some (b.toNat - 0x41 + 10)
  else none

/-- A percent-encoded control byte. -/
def hasEncodedControl : Bytes → Bool
  | a :: b :: c :: rest =>
      (a = 0x25 && match hexDigit? b, hexDigit? c with
        | some h, some l => h * 16 + l < 0x20 || h * 16 + l = 0x7f
        | _, _ => false) || hasEncodedControl (b :: c :: rest)
  | _ => false

def maxDigitRun (s : Bytes) : Nat := maxRun isDigit s

def maxHexRun (s : Bytes) : Nat := maxRun isHexByte s

/-- Some window of 36 bytes is a UUID. -/
def containsUuidSubstring (b : Bytes) : Bool :=
  36 ≤ b.length && (List.range (b.length - 36 + 1)).any fun i => isUuidBytes ((b.drop i).take 36)

/-- A segment that still embeds an identifier-shaped run and must not be kept. -/
def hasEmbeddedSensitive (s : Bytes) : Bool :=
  s.contains 0x40 || 5 ≤ maxDigitRun s || 16 ≤ maxHexRun s || containsUuidSubstring s

def looksLikeFilename (s : Bytes) : Bool :=
  match rsplitOnce 0x2e s with
  | some (stem, ext) => stem ≠ [] && 1 ≤ ext.length && ext.length ≤ 5 && ext.all isAlphanumeric
  | none => false

def hasUnprintable (s : Bytes) : Bool := s.any isControl

/-- Classify one non-empty path segment: the first rule that matches wins. -/
def classifySegment (seg : Bytes) : Bytes × Confidence :=
  if isUuidBytes seg then (ascii ":uuid", .high)
  else if isJwt seg then (ascii ":jwt", .high)
  else if isEmail seg then (ascii ":email", .high)
  else if isCredentialShaped seg then (ascii ":token", .high)
  else if isAllDigits seg && 2 ≤ seg.length then (ascii ":id", .high)
  else if isLongHex seg then (ascii ":hash", .high)
  else if looksLikeFilename seg && hasEmbeddedSensitive seg then (ascii ":file", .medium)
  else if isHighEntropy seg then (ascii ":token", .medium)
  else if hasEmbeddedSensitive seg then (ascii ":redacted", .low)
  else if 40 < seg.length || hasUnprintable seg || hasEncodedControl seg then (ascii ":redacted", .low)
  else (seg, .high)

/-! ## The template -/

def truncatedMark : Bytes := ascii ":truncated"

/-- The loop over the segments: the output, the confidence and whether the path was truncated. -/
def templateLoop : List Bytes → Bool → Bytes → Nat → Confidence → Bytes × Confidence × Bool
  | [], _, out, _, confidence => (out, confidence, false)
  | seg :: segs, first, out, parts, confidence =>
      let out := if first then out else out ++ [slash]
      if maxParts ≤ parts || maxLen ≤ out.length then (out ++ truncatedMark, confidence, true)
      else if seg = [] then templateLoop segs false out parts confidence
      else
        let (rendered, segConf) := classifySegment seg
        templateLoop segs false (out ++ rendered) (parts + 1) (confidence.min segConf)

def severed (raw : Bytes) : Bytes := raw.takeWhile fun b => b ≠ 0x3f && b ≠ 0x23

/-- Sanitize a raw request target into a path template and a confidence. -/
def sanitizePath (raw : Bytes) : Bytes × Confidence :=
  let cut := severed raw
  if cut = ascii "*" then (ascii "*", .high)
  else if cut.head? ≠ some slash then (ascii "/:redacted", .low)
  else
    let (out, confidence, truncated) := templateLoop (cut.splitOn slash) true [] 0 .high
    (if out = [] then [slash] else out, if truncated then .low else confidence)

/-! ## What no output has -/

/-- A byte of a query, a fragment or a userinfo part, or a control byte. -/
def isForbidden (b : UInt8) : Bool := b = 0x3f || b = 0x23 || b = 0x40 || isControl b

/-- No forbidden byte, no run of five digits or of sixteen hexadecimal digits, and no UUID. -/
structure Clean (out : Bytes) : Prop where
  plain : ∀ b ∈ out, isForbidden b = false
  digits : ∀ run, run <:+: out → run.all isDigit = true → run.length < 5
  hex : ∀ run, run <:+: out → run.all isHexByte = true → run.length < 16
  uuid : ∀ run, run <:+: out → isUuidBytes run = false

theorem mem_of_isUuidBytes {run : Bytes} (h : isUuidBytes run = true) {b : UInt8} (hb : b ∈ run) :
    b = 0x2d ∨ isHexByte b = true := by
  unfold isUuidBytes at h
  rw [Bool.and_eq_true, List.all_eq_true] at h
  obtain ⟨i, hi, rfl⟩ := List.mem_iff_getElem.1 hb
  have hat := h.2 (run[i], i) (by simp [List.mem_zipIdx_iff_getElem?, hi])
  simp only at hat
  split at hat
  · exact Or.inl (by simpa using hat)
  · exact Or.inr hat

theorem slash_notMem_of_isUuidBytes {run : Bytes} (h : isUuidBytes run = true) : slash ∉ run := by
  intro hmem
  rcases mem_of_isUuidBytes h hmem with heq | hhex
  · exact absurd heq (by decide)
  · exact absurd hhex (by decide)

theorem slash_notMem_of_all {p : UInt8 → Bool} (hp : p slash = false) {run : Bytes}
    (h : run.all p = true) : slash ∉ run := by
  intro hmem
  have := List.all_eq_true.1 h slash hmem
  rw [hp] at this
  cases this

/-- Two clean strings with a slash between them are clean. -/
theorem Clean.join {x y : Bytes} (hx : Clean x) (hy : Clean y) : Clean (x ++ slash :: y) where
  plain b hb := by
    rcases List.mem_append.1 hb with hb | hb
    · exact hx.plain b hb
    · rcases List.mem_cons.1 hb with rfl | hb
      · decide
      · exact hy.plain b hb
  digits run hrun hall := by
    rcases infix_of_infix_append_cons hrun (slash_notMem_of_all (by decide) hall) with hin | hin
    · exact hx.digits run hin hall
    · exact hy.digits run hin hall
  hex run hrun hall := by
    rcases infix_of_infix_append_cons hrun (slash_notMem_of_all (by decide) hall) with hin | hin
    · exact hx.hex run hin hall
    · exact hy.hex run hin hall
  uuid run hrun := by
    by_contra huuid
    rw [Bool.not_eq_false] at huuid
    rcases infix_of_infix_append_cons hrun (slash_notMem_of_isUuidBytes huuid) with hin | hin
    · exact absurd huuid (by simp [hx.uuid run hin])
    · exact absurd huuid (by simp [hy.uuid run hin])

/-- A string without forbidden bytes that embeds nothing sensitive is clean. -/
theorem clean_of_checks {s : Bytes} (hplain : s.all (!isForbidden ·) = true)
    (hsensitive : hasEmbeddedSensitive s = false) : Clean s := by
  simp only [hasEmbeddedSensitive, maxDigitRun, maxHexRun, Bool.or_eq_false_iff] at hsensitive
  obtain ⟨⟨⟨-, hdigits⟩, hhex⟩, huuid⟩ := hsensitive
  have hdigits := not_le.1 (of_decide_eq_false hdigits)
  have hhex := not_le.1 (of_decide_eq_false hhex)
  refine ⟨fun b hb => ?_, fun run hrun hall => ?_, fun run hrun hall => ?_, fun run hrun => ?_⟩
  · simpa using List.all_eq_true.1 hplain b hb
  · exact (length_le_maxRun hrun hall).trans_lt hdigits
  · exact (length_le_maxRun hrun hall).trans_lt hhex
  · by_contra hrunUuid
    rw [Bool.not_eq_false] at hrunUuid
    obtain ⟨before, after, rfl⟩ := hrun
    have hlen : run.length = 36 := by
      have := hrunUuid
      unfold isUuidBytes at this
      simpa using (Bool.and_eq_true_iff.1 this).1
    have hat : isUuidBytes (((before ++ run ++ after).drop before.length).take 36) = true := by
      rw [List.append_assoc, List.drop_left, ← hlen, List.take_left]
      exact hrunUuid
    refine absurd huuid (Bool.not_eq_false _ ▸ ?_)
    unfold containsUuidSubstring
    rw [Bool.and_eq_true, List.any_eq_true]
    refine ⟨by simp; omega, before.length, ?_, hat⟩
    rw [List.mem_range]
    simp only [List.length_append]
    omega

/-! ## The pieces -/

/-- What a segment is replaced by. -/
def placeholders : List Bytes :=
  [":uuid", ":jwt", ":email", ":token", ":id", ":hash", ":file", ":redacted"].map ascii

/-- What a segment becomes: a placeholder, or itself when it embeds nothing sensitive. -/
def Settles (seg : Bytes) (r : Bytes × Confidence) : Prop :=
  r.1 ∈ placeholders ∨
    (r.1 = seg ∧ hasEmbeddedSensitive seg = false ∧ hasUnprintable seg = false ∧ seg.length ≤ 40)

theorem Settles.replaced {seg : Bytes} {c : Prop} [Decidable c] {name : Bytes} {confidence : Confidence}
    {rest : Bytes × Confidence} (hname : name ∈ placeholders) (hrest : ¬c → Settles seg rest) :
    Settles seg (if c then (name, confidence) else rest) :=
  iteInduction (fun _ => .inl hname) hrest

theorem ascii_mem {name : String}
    (h : name ∈ [":uuid", ":jwt", ":email", ":token", ":id", ":hash", ":file", ":redacted"]) :
    ascii name ∈ placeholders := List.mem_map_of_mem h

/-- A segment is replaced, or it is kept and embeds nothing sensitive. -/
theorem classifySegment_cases (seg : Bytes) : Settles seg (classifySegment seg) := by
  refine .replaced (ascii_mem (by simp)) fun _ => .replaced (ascii_mem (by simp)) fun _ =>
    .replaced (ascii_mem (by simp)) fun _ => .replaced (ascii_mem (by simp)) fun _ =>
    .replaced (ascii_mem (by simp)) fun _ => .replaced (ascii_mem (by simp)) fun _ =>
    .replaced (ascii_mem (by simp)) fun _ => .replaced (ascii_mem (by simp)) fun _ =>
    .replaced (ascii_mem (by simp)) fun hsensitive => .replaced (ascii_mem (by simp)) fun hlong => ?_
  simp only [Bool.or_eq_true, decide_eq_true_eq, not_or, not_lt, Bool.not_eq_true] at hlong
  exact .inr ⟨rfl, by simpa using hsensitive, hlong.1.2, hlong.1.1⟩

theorem clean_placeholder : ∀ p ∈ placeholders, Clean p := by
  have hchecks : ∀ p ∈ placeholders, p.all (!isForbidden ·) = true ∧ hasEmbeddedSensitive p = false := by
    decide
  intro p hp
  exact clean_of_checks (hchecks p hp).1 (hchecks p hp).2

/-- Every segment of the cut path becomes clean. -/
theorem clean_classifySegment {seg : Bytes} (hquery : 0x3f ∉ seg) (hfragment : 0x23 ∉ seg) :
    Clean (classifySegment seg).1 := by
  rcases classifySegment_cases seg with hmem | ⟨heq, hsensitive, hprintable, -⟩
  · exact clean_placeholder _ hmem
  · rw [heq]
    refine clean_of_checks (List.all_eq_true.2 fun b hb => ?_) hsensitive
    have hat : b ≠ 0x40 := by
      rintro rfl
      simp [hasEmbeddedSensitive, hb] at hsensitive
    have hcontrol : isControl b = false := by
      have := List.any_eq_false.1 hprintable b hb
      simpa using this
    have hquery' : b ≠ 0x3f := fun h => hquery (h ▸ hb)
    have hfragment' : b ≠ 0x23 := fun h => hfragment (h ▸ hb)
    simp [isForbidden, hat, hcontrol, hquery', hfragment']

theorem clean_nil : Clean [] := clean_of_checks rfl (by decide)

theorem clean_truncatedMark : Clean truncatedMark := clean_of_checks (by decide) (by decide)

/-- The loop keeps the output clean: it ends in a slash, or is empty, whenever a piece is added. -/
theorem clean_templateLoop {segs : List Bytes}
    (hsegs : ∀ seg ∈ segs, 0x3f ∉ seg ∧ 0x23 ∉ seg) {first : Bool} {out : Bytes} (hout : Clean out)
    (hfirst : first = true → out = []) (parts : Nat) (confidence : Confidence) :
    Clean (templateLoop segs first out parts confidence).1 := by
  induction segs generalizing first out parts confidence with
  | nil => exact hout
  | cons seg segs ih =>
      obtain ⟨⟨hquery, hfragment⟩, hrest⟩ := List.forall_mem_cons.1 hsegs
      have hadd : ∀ piece, Clean piece → Clean ((if first then out else out ++ [slash]) ++ piece) := by
        intro piece hpiece
        cases first with
        | true =>
            rw [hfirst rfl]
            exact hpiece
        | false =>
            have hjoin := hout.join hpiece
            simpa using hjoin
      unfold templateLoop
      dsimp only
      generalize (if first = true then out else out ++ [slash]) = out' at hadd ⊢
      have hout' : Clean out' := by simpa using hadd [] clean_nil
      split
      · exact hadd _ clean_truncatedMark
      split
      · exact @ih hrest false _ hout' nofun _ _
      · exact @ih hrest false _ (hadd _ (clean_classifySegment hquery hfragment)) nofun _ _

/-- No template has a query, fragment or userinfo byte, a control byte, a run of five digits or of
    sixteen hexadecimal digits, or a UUID. -/
theorem sanitizePath_clean (raw : Bytes) : Clean (sanitizePath raw).1 := by
  have hsevered : ∀ b ∈ severed raw, b ≠ 0x3f ∧ b ≠ 0x23 := by
    intro b hb
    simpa using List.mem_takeWhile_imp hb
  have hsegs : ∀ seg ∈ (severed raw).splitOn slash, 0x3f ∉ seg ∧ 0x23 ∉ seg := by
    intro seg hseg
    exact ⟨fun hb => (hsevered _ (Segments.mem_of_mem_part hseg hb)).1 rfl,
      fun hb => (hsevered _ (Segments.mem_of_mem_part hseg hb)).2 rfl⟩
  unfold sanitizePath
  dsimp only
  split
  · exact clean_of_checks (by decide) (by decide)
  split
  · exact clean_of_checks (by decide) (by decide)
  dsimp only
  split
  · exact clean_of_checks (by decide) (by decide)
  · exact clean_templateLoop hsegs clean_nil (fun _ => rfl) 0 .high

end Tethra.Runtime
