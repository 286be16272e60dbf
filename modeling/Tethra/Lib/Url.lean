import Tethra.Lib.Text

set_option autoImplicit false

/-! # The host of a URL

What stands between the scheme and the path of a URL names its destination. `rfcHost` reads it by the
generic syntax of RFC 3986, `whatwgHost` by the parser of the URL standard. They differ: the standard drops
tabs and line ends, and a backslash ends the authority when the scheme is special. How the standard reads
the host itself (its punycode and its numbers) is a parameter. -/

namespace Url

open Text

/-! ## Scheme, authority, port -/

def isSchemeChar (c : Char) : Bool := isAsciiAlphanumeric c || ['+', '-', '.'].contains c

def isScheme (t : List Char) : Bool := t.head?.any isAsciiAlphabetic && t.all isSchemeChar

/-- The scheme, and what follows its colon. -/
def splitScheme (t : List Char) : Option (List Char × List Char) :=
  (splitOnce ':' t).filter fun r => isScheme r.1

def isDelimiter (c : Char) : Bool := ['/', '?', '#'].contains c

/-- What follows the last `@` of an authority. -/
def afterUserinfo (authority : List Char) : List Char := authority.rtakeWhile (· != '@')

/-- The host, and what follows the colon of a port. A colon in brackets belongs to the host. -/
def splitPort : Bool → List Char → List Char × Option (List Char)
  | _, [] => ([], none)
  | inside, c :: cs =>
      if c = ':' ∧ inside = false then ([], some cs)
      else
        let r := splitPort (c == '[' || inside && c != ']') cs
        (c :: r.1, r.2)

theorem splitScheme_append {scheme : List Char} (h : isScheme scheme = true) (rest : List Char) :
    splitScheme (scheme ++ ':' :: rest) = some (scheme, rest) := by
  have hcolon : ':' ∉ scheme := by
    intro hmem
    have hchar := List.all_eq_true.1 (Bool.and_eq_true_iff.1 h).2 _ hmem
    exact absurd hchar (by decide)
  rw [splitScheme, splitOnce_append hcolon]
  simp [h]

theorem splitScheme_of_not_mem {t : List Char} (h : ':' ∉ t) : splitScheme t = none := by
  have hnone : splitOnce ':' t = none := by
    induction t with
    | nil => rfl
    | cons c t ih =>
        simp only [List.mem_cons, not_or] at h
        simp [splitOnce, Ne.symm h.1, ih h.2]
  rw [splitScheme, hnone, Option.filter_none]

theorem splitScheme_cons_none {c : Char} (h : isAsciiAlphabetic c = false) (t : List Char) :
    splitScheme (c :: t) = none := by
  rw [splitScheme, splitOnce]
  split_ifs with hc
  · rfl
  · cases splitOnce ':' t with
    | none => rfl
    | some r => simp [isScheme, h]

theorem takeWhile_append_of_stop {p : Char → Bool} {a b : List Char} (ha : ∀ c ∈ a, p c = true)
    (hb : ∀ c ∈ b.head?, p c = false) : (a ++ b).takeWhile p = a := by
  rw [List.takeWhile_append_of_pos ha]
  cases b with
  | nil => simp
  | cons c b => simp [hb c rfl]

theorem rdropWhile_append_of_stop {p : Char → Bool} {a : List Char} (ha : ∀ c ∈ a.getLast?, p c = false)
    (b : List Char) : (a ++ b).rdropWhile p = a ++ b.rdropWhile p := by
  induction b using List.reverseRecOn with
  | nil =>
      rw [List.append_nil, List.rdropWhile_nil, List.append_nil, List.rdropWhile_eq_self_iff]
      intro h
      simp [ha _ (List.getLast?_eq_some_getLast h)]
  | append_singleton b c ih =>
      rw [← List.append_assoc]
      cases hc : p c with
      | true => rw [List.rdropWhile_concat_pos p _ c hc, List.rdropWhile_concat_pos p _ c hc, ih]
      | false =>
          rw [List.rdropWhile_concat_neg p _ c (by simp [hc]),
            List.rdropWhile_concat_neg p _ c (by simp [hc]), List.append_assoc]

theorem afterUserinfo_of_not_mem {t : List Char} (h : '@' ∉ t) : afterUserinfo t = t := by
  rw [afterUserinfo, List.rtakeWhile_eq_self_iff]
  intro c hc
  simpa using fun hat : c = '@' => h (hat ▸ hc)

theorem afterUserinfo_append {host : List Char} (h : '@' ∉ host) (user : List Char) :
    afterUserinfo (user ++ '@' :: host) = host := by
  unfold afterUserinfo List.rtakeWhile
  rw [List.reverse_append, List.reverse_cons, List.append_assoc,
    takeWhile_append_of_stop _ (by simp), List.reverse_reverse]
  intro c hc
  simpa using fun hat : c = '@' => h (hat ▸ List.mem_reverse.1 hc)

/-- An authority is its host and port, or they follow an `@`. -/
theorem exists_eq_append_afterUserinfo (authority : List Char) :
    ∃ user, authority = user ++ afterUserinfo authority ∧ (user = [] ∨ user.getLast? = some '@') := by
  refine ⟨authority.rdropWhile (· != '@'), List.rdropWhile_append_rtakeWhile.symm, ?_⟩
  refine or_iff_not_imp_left.2 fun hne => ?_
  have hlast := List.rdropWhile_last_not _ _ hne
  rw [List.getLast?_eq_some_getLast hne]
  simpa using hlast

theorem splitPort_of_not_mem {t : List Char} (h : ':' ∉ t) (inside : Bool) :
    splitPort inside t = (t, none) := by
  induction t generalizing inside with
  | nil => rfl
  | cons c t ih =>
      simp only [List.mem_cons, not_or] at h
      rw [splitPort, if_neg fun hc => h.1 hc.1.symm, ih h.2]

theorem splitPort_append {host : List Char} (hcolon : ':' ∉ host) (hbracket : '[' ∉ host)
    (port : List Char) : splitPort false (host ++ ':' :: port) = (host, some port) := by
  induction host with
  | nil => simp [splitPort]
  | cons c host ih =>
      simp only [List.mem_cons, not_or] at hcolon hbracket
      have hinside : (c == '[' || false && c != ']') = false := by simpa using Ne.symm hbracket.1
      rw [List.cons_append, splitPort, if_neg fun hc => hcolon.1 hc.1.symm, hinside,
        ih hcolon.2 hbracket.2]

/-! ## Lower case -/

theorem toNat_toLower (c : Char) :
    c.toLower.toNat = if 65 ≤ c.toNat ∧ c.toNat ≤ 90 then c.toNat + 32 else c.toNat := by
  by_cases h : c.isUpper
  · have hrange : 65 ≤ c.toNat ∧ c.toNat ≤ 90 := by
      simpa [Char.isUpper, UInt32.le_iff_toNat_le] using h
    have hvalid : (c.toNat + 32).isValidChar := .inl (by omega)
    rw [Char.toLower_eq_of_isUpper h, if_pos hrange, Char.toNat_ofNat, if_pos hvalid]
  · have hrange : ¬(65 ≤ c.toNat ∧ c.toNat ≤ 90) := by
      simpa [Char.isUpper, UInt32.le_iff_toNat_le] using h
    rw [Char.toLower_eq_of_not_isUpper h, if_neg hrange]

theorem isAsciiAlphabetic_toLower (c : Char) : isAsciiAlphabetic c.toLower = isAsciiAlphabetic c := by
  rw [Bool.eq_iff_iff]
  simp only [isAsciiAlphabetic, toNat_toLower, Bool.or_eq_true, Bool.and_eq_true, decide_eq_true_eq]
  split_ifs <;> omega

/-- Only letters become letters. -/
theorem eq_of_toLower_eq {c d : Char} (h : c.toLower = d) (hd : isAsciiAlphabetic d = false) : c = d := by
  subst h
  rw [isAsciiAlphabetic_toLower] at hd
  refine (Char.toLower_eq_of_not_isUpper fun hupper => ?_).symm
  have hrange : 65 ≤ c.toNat ∧ c.toNat ≤ 90 := by
    simpa [Char.isUpper, UInt32.le_iff_toNat_le] using hupper
  simp only [isAsciiAlphabetic, Bool.or_eq_false_iff, Bool.and_eq_false_imp, decide_eq_true_eq,
    decide_eq_false_iff_not] at hd
  exact hd.1 hrange.1 hrange.2

theorem isSchemeChar_of_toLower {c : Char} (h : isSchemeChar c.toLower = true) : isSchemeChar c = true := by
  cases halpha : isAsciiAlphabetic c with
  | true => simp [isSchemeChar, isAsciiAlphanumeric, halpha]
  | false => rwa [← eq_of_toLower_eq rfl (by rwa [isAsciiAlphabetic_toLower])] at h

theorem isScheme_of_toLower {t : List Char} (h : isScheme (t.map Char.toLower) = true) :
    isScheme t = true := by
  obtain ⟨hhead, hall⟩ := Bool.and_eq_true_iff.1 h
  refine Bool.and_eq_true_iff.2 ⟨?_, List.all_eq_true.2 fun c hc => ?_⟩
  · cases t with
    | nil => simp at hhead
    | cons c t => simpa [isAsciiAlphabetic_toLower] using hhead
  · exact isSchemeChar_of_toLower (List.all_eq_true.1 hall _ (List.mem_map_of_mem hc))

/-! ## The generic syntax -/

def isRegNameChar (c : Char) : Bool :=
  isAsciiAlphanumeric c || "-._~!$&'()*+,;=%".toList.contains c

def isUserinfoChar (c : Char) : Bool := isRegNameChar c || c == ':'

def isIpLiteral (t : List Char) : Bool :=
  t.head? == some '[' && t.getLast? == some ']' && (t.drop 1).dropLast.all isUserinfoChar

/-- The host of a URI, in lower case. -/
def rfcHost (t : List Char) : Option (List Char) :=
  (splitScheme t).bind fun (_, rest) =>
    (stripPrefix ['/', '/'] rest).bind fun rest =>
      let authority := rest.takeWhile fun c => !isDelimiter c
      let r := splitPort false (afterUserinfo authority)
      if (authority.rdropWhile (· != '@')).dropLast.all isUserinfoChar &&
          (r.1.all isRegNameChar || isIpLiteral r.1) && r.2.all (·.all Char.isDigit) then
        some (r.1.map Char.toLower)
      else none

/-- The host is the one that the port is split from. -/
theorem rfcHost_eq {scheme authority rest host : List Char} {port : Option (List Char)}
    (hscheme : isScheme scheme = true) (hauthority : ∀ c ∈ authority, isDelimiter c = false)
    (hrest : ∀ c ∈ rest.head?, isDelimiter c = true)
    (hport : splitPort false (afterUserinfo authority) = (host, port)) {x : List Char}
    (h : rfcHost (scheme ++ ':' :: '/' :: '/' :: (authority ++ rest)) = some x) :
    x = host.map Char.toLower := by
  have htake : ((authority ++ rest).takeWhile fun c => !isDelimiter c) = authority :=
    takeWhile_append_of_stop (fun c hc => by simp [hauthority c hc]) fun c hc => by simp [hrest c hc]
  rw [rfcHost, splitScheme_append hscheme] at h
  simp only [Option.bind_some, stripPrefix, if_true, htake, hport] at h
  split_ifs at h
  exact (Option.some.inj h).symm

/-! ## The parser of the URL standard -/

def isC0OrSpace (c : Char) : Bool := c.toNat ≤ 0x20

def isTabOrNewline (c : Char) : Bool := ['\t', '\n', '\r'].contains c

/-- The input without control characters and spaces at its ends, and without tabs and line ends. -/
def cleaned (t : List Char) : List Char :=
  ((t.dropWhile isC0OrSpace).rdropWhile isC0OrSpace).filter (!isTabOrNewline ·)

theorem mem_of_mem_cleaned {c : Char} {t : List Char} (h : c ∈ cleaned t) : c ∈ t :=
  (List.dropWhile_suffix _).subset ((List.rdropWhile_prefix _ _).subset (List.mem_filter.1 h).1)

/-- The special schemes but `file`. -/
def specialSchemes : List (List Char) :=
  ["http".toList, "https".toList, "ws".toList, "wss".toList, "ftp".toList]

def isSlash (c : Char) : Bool := ['/', '\\'].contains c

/-- What ends an authority; the backslash does for the special schemes. -/
def endsAuthority (special : Bool) (c : Char) : Bool := isDelimiter c || special && c == '\\'

def portNumber (t : List Char) : Nat := t.foldl (fun n c => 10 * n + (c.toNat - 48)) 0

def isPort (t : List Char) : Bool := t.all Char.isDigit && portNumber t ≤ 65535

/-- A letter and a colon or a bar: a drive of Windows. -/
def isDriveLetter : List Char → Bool
  | [c, d] => isAsciiAlphabetic c && (d == ':' || d == '|')
  | _ => false

theorem isDriveLetter_eq_false {t : List Char} (h : 3 ≤ t.length) : isDriveLetter t = false := by
  match t, h with
  | _ :: _ :: _ :: _, _ => rfl

section

-- The host parser of the standard; the flag is set for an opaque host, of a scheme that is not special.
variable (hostParser : Bool → List Char → Option (List Char))

/-- The host, from what follows the slashes. -/
def authorityHost (special : Bool) (t : List Char) : Option (List Char) :=
  let authority := t.takeWhile fun c => !endsAuthority special c
  let r := splitPort false (afterUserinfo authority)
  if r.1 = [] && (special || r.2.isSome || authority.contains '@') then none
  else if r.2.all isPort then hostParser (!special) r.1
  else none

/-- The host of a `file` URL, from what follows the scheme. A drive letter and `localhost` are no host. -/
def fileHost : List Char → Option (List Char)
  | c :: d :: t =>
      if isSlash c && isSlash d then
        let host := t.takeWhile fun c => !endsAuthority true c
        if host = [] || isDriveLetter host then some []
        else (hostParser false host).map fun x => if x = "localhost".toList then [] else x
      else some []
  | _ => some []

/-- The host of a URL without a base; none when there is none, or when the parser fails. -/
def whatwgHost (t : List Char) : Option (List Char) :=
  (splitScheme (cleaned t)).bind fun (scheme, rest) =>
    let scheme := scheme.map Char.toLower
    if specialSchemes.contains scheme then authorityHost hostParser true (rest.dropWhile isSlash)
    else if scheme = "file".toList then fileHost hostParser rest
    else (stripPrefix ['/', '/'] rest).bind (authorityHost hostParser false)

end

/-! ## White space around a URL -/

theorem exists_eq_append_trim (t : List Char) :
    ∃ l r, t = l ++ trim t ++ r ∧ (∀ c ∈ l, isWhitespace c = true) ∧ ∀ c ∈ r, isWhitespace c = true := by
  refine ⟨t.takeWhile isWhitespace, (trimStart t).rtakeWhile isWhitespace, ?_,
    fun c hc => List.mem_takeWhile_imp hc, fun c hc => List.mem_rtakeWhile_imp hc⟩
  rw [List.append_assoc, trim, trimEnd, List.rdropWhile_append_rtakeWhile, trimStart,
    List.takeWhile_append_dropWhile]

theorem isAsciiAlphabetic_of_isWhitespace {c : Char} (h : isWhitespace c = true) :
    isAsciiAlphabetic c = false := by
  by_contra halpha
  simp only [isAsciiAlphabetic, Bool.not_eq_false, Bool.or_eq_true, Bool.and_eq_true,
    decide_eq_true_eq] at halpha
  simp only [isWhitespace, Bool.or_eq_true, Bool.and_eq_true, decide_eq_true_eq, beq_iff_eq] at h
  omega

theorem isC0OrSpace_of_isSchemeChar {c : Char} (h : isSchemeChar c = true) : isC0OrSpace c = false := by
  by_contra hc
  have hle : c.toNat ≤ 0x20 := by simpa [isC0OrSpace] using hc
  simp only [isSchemeChar, isAsciiAlphanumeric, isAsciiAlphabetic, Bool.or_eq_true, Bool.and_eq_true,
    decide_eq_true_eq, List.contains_iff_mem, List.mem_cons, List.not_mem_nil, or_false] at h
  obtain ((h | h) | h) | h := h
  · omega
  · omega
  · omega
  · obtain rfl | rfl | rfl := h <;> exact absurd hle (by decide)

theorem isWhitespace_of_isSchemeChar {c : Char} (h : isSchemeChar c = true) : isWhitespace c = false := by
  by_contra hc
  simp only [isWhitespace, Bool.not_eq_false, Bool.or_eq_true, Bool.and_eq_true, decide_eq_true_eq,
    beq_iff_eq] at hc
  simp only [isSchemeChar, isAsciiAlphanumeric, isAsciiAlphabetic, Bool.or_eq_true, Bool.and_eq_true,
    decide_eq_true_eq, List.contains_iff_mem, List.mem_cons, List.not_mem_nil, or_false] at h
  obtain ((h | h) | h) | h := h
  · omega
  · omega
  · omega
  · obtain rfl | rfl | rfl := h <;> exact absurd hc (by decide)

theorem isC0OrSpace_of_isTabOrNewline {c : Char} (h : isTabOrNewline c = true) : isC0OrSpace c = true := by
  simp only [isTabOrNewline, List.contains_iff_mem, List.mem_cons, List.not_mem_nil, or_false] at h
  obtain rfl | rfl | rfl := h <;> decide

/-- White space that the standard does not strip leaves a text without a scheme. The rest of what follows
the scheme keeps its order; the standard strips its end and drops the tabs and line ends in it. -/
theorem splitScheme_cleaned {t scheme rest : List Char} (hscheme : isScheme scheme = true)
    (ht : trim t = scheme ++ ':' :: rest) :
    splitScheme (cleaned t) = none ∨
      ∃ w, (∀ c ∈ w, isWhitespace c = true) ∧
        splitScheme (cleaned t) =
          some (scheme, ((rest ++ w).rdropWhile isC0OrSpace).filter (!isTabOrNewline ·)) := by
  obtain ⟨l, w, heq, hl, hw⟩ := exists_eq_append_trim t
  obtain ⟨hhead, hall⟩ := Bool.and_eq_true_iff.1 hscheme
  have hchars : ∀ c ∈ scheme ++ [':'], isC0OrSpace c = false := by
    intro c hc
    obtain hc | hc := List.mem_append.1 hc
    · exact isC0OrSpace_of_isSchemeChar (List.all_eq_true.1 hall c hc)
    · rw [List.mem_singleton.1 hc]
      decide
  cases hdrop : l.dropWhile isC0OrSpace with
  | nil =>
      refine .inr ⟨w, hw, ?_⟩
      have hstart : t.dropWhile isC0OrSpace = (scheme ++ [':']) ++ (rest ++ w) := by
        have hassoc : t = l ++ ((scheme ++ [':']) ++ (rest ++ w)) := by
          rw [heq, ht]
          simp
        rw [hassoc, List.dropWhile_append, hdrop]
        cases scheme with
        | nil => simp at hhead
        | cons c scheme => simp [hchars c (by simp)]
      rw [cleaned, hstart, rdropWhile_append_of_stop
        (fun c hc => hchars c (List.mem_of_getLast? hc)), List.filter_append,
        List.filter_eq_self.2, List.append_assoc, List.singleton_append, splitScheme_append hscheme]
      intro c hc
      have hkeep := mt (isC0OrSpace_of_isTabOrNewline (c := c)) (by simp [hchars c hc])
      simpa using hkeep
  | cons c l' =>
      left
      have hmem : c ∈ l.dropWhile isC0OrSpace := by simp [hdrop]
      have hc : isWhitespace c = true := hl c ((List.dropWhile_suffix _).subset hmem)
      have hnot : isC0OrSpace c = false := by
        have := List.head_dropWhile_not isC0OrSpace (l := l) (by simp [hdrop])
        simpa [hdrop] using this
      have htab : isTabOrNewline c = false := by
        by_contra htab
        exact absurd (isC0OrSpace_of_isTabOrNewline (by simpa using htab)) (by simp [hnot])
      rw [cleaned, heq, List.append_assoc, List.dropWhile_append, hdrop]
      rw [if_neg (by simp), ← List.singleton_append, List.append_assoc,
        rdropWhile_append_of_stop (by simpa using hnot), List.filter_append,
        List.filter_cons_of_pos (by simp [htab])]
      exact splitScheme_cons_none (isAsciiAlphabetic_of_isWhitespace hc) _

/-- What may follow an authority in a cleaned text: a delimiter, or white space that is not stripped. -/
def Trails (t : List Char) : Prop :=
  (∀ c ∈ t.head?, isDelimiter c = true) ∨ ∀ c ∈ t, isWhitespace c = true

theorem trails_cleaned {tail w : List Char} (htail : ∀ c ∈ tail.head?, isDelimiter c = true)
    (hw : ∀ c ∈ w, isWhitespace c = true) :
    Trails (((tail ++ w).rdropWhile isC0OrSpace).filter (!isTabOrNewline ·)) := by
  cases tail with
  | nil =>
      exact .inr fun c hc =>
        hw c ((List.rdropWhile_prefix isC0OrSpace _).subset (List.mem_filter.1 hc).1)
  | cons d tail =>
      have hd : d = '/' ∨ d = '?' ∨ d = '#' := by simpa [isDelimiter] using htail d rfl
      have hnot : isC0OrSpace d = false ∧ isTabOrNewline d = false := by
        obtain rfl | rfl | rfl := hd <;> decide
      rw [List.cons_append, ← List.singleton_append,
        rdropWhile_append_of_stop (by simpa using hnot.1), List.filter_append,
        List.filter_cons_of_pos (by simp [hnot.2])]
      exact .inl fun c hc => Option.some.inj hc ▸ htail d rfl

/-- What the standard splits from a text with `//`: the authority without tabs and line ends. -/
theorem splitScheme_cleaned_authority {t scheme authority tail : List Char}
    (hscheme : isScheme scheme = true)
    (ht : trim t = scheme ++ ':' :: '/' :: '/' :: (authority ++ tail))
    (hlast : ∀ c ∈ authority.getLast?, isC0OrSpace c = false) (hne : authority ≠ [])
    (htail : ∀ c ∈ tail.head?, isDelimiter c = true) :
    splitScheme (cleaned t) = none ∨
      ∃ x, Trails x ∧ splitScheme (cleaned t) =
        some (scheme, '/' :: '/' :: (authority.filter (!isTabOrNewline ·) ++ x)) := by
  refine (splitScheme_cleaned hscheme ht).imp_right fun ⟨w, hw, h⟩ => ⟨_, trails_cleaned htail hw, ?_⟩
  have hassoc : '/' :: '/' :: (authority ++ tail) ++ w = '/' :: '/' :: authority ++ (tail ++ w) := by simp
  rw [h, hassoc, rdropWhile_append_of_stop]
  · simp [isTabOrNewline]
  · obtain ⟨c, authority, rfl⟩ := List.exists_cons_of_ne_nil hne
    simpa using hlast

theorem eq_of_endsAuthority {c : Char} {special : Bool} (h : endsAuthority special c = true) :
    c = '/' ∨ c = '?' ∨ c = '#' ∨ c = '\\' := by
  simp only [endsAuthority, isDelimiter, Bool.or_eq_true, Bool.and_eq_true, List.contains_iff_mem,
    List.mem_cons, List.not_mem_nil, or_false, beq_iff_eq] at h
  tauto

theorem endsAuthority_of_special {c : Char} (h : endsAuthority true c = false) (special : Bool) :
    endsAuthority special c = false := by
  simp only [endsAuthority, Bool.true_and, Bool.or_eq_false_iff] at h
  simp [endsAuthority, h]

theorem isSlash_of_endsAuthority {c : Char} (h : endsAuthority true c = false) : isSlash c = false := by
  simp [endsAuthority, isDelimiter] at h
  simp [isSlash, h]

theorem endsAuthority_of_isWhitespace {c : Char} (h : isWhitespace c = true) (special : Bool) :
    endsAuthority special c = false := by
  by_contra hends
  obtain rfl | rfl | rfl | rfl := eq_of_endsAuthority (Bool.not_eq_false _ |>.mp hends) <;>
    exact absurd h (by decide)

/-- The authority that is read is followed by nothing but white space. -/
theorem takeWhile_trails {authority x : List Char} {special : Bool}
    (ha : ∀ c ∈ authority, endsAuthority special c = false) (hx : Trails x) :
    ∃ w, ((authority ++ x).takeWhile fun c => !endsAuthority special c) = authority ++ w ∧
      ∀ c ∈ w, isWhitespace c = true := by
  have ha' : ∀ c ∈ authority, (!endsAuthority special c) = true := fun c hc => by simp [ha c hc]
  obtain hx | hx := hx
  · refine ⟨[], ?_, by simp⟩
    rw [List.append_nil]
    exact takeWhile_append_of_stop ha' fun c hc => by simp [endsAuthority, hx c hc]
  · refine ⟨x, List.takeWhile_eq_self_iff.2 fun c hc => ?_, hx⟩
    obtain hc | hc := List.mem_append.1 hc
    · exact ha' c hc
    · simp [endsAuthority_of_isWhitespace (hx c hc)]

/-! ## Authorities that are a plain name -/

section

variable {hostParser : Bool → List Char → Option (List Char)}

theorem endsAuthority_of_isSchemeChar {c : Char} (h : isSchemeChar c = true) (special : Bool) :
    endsAuthority special c = false := by
  by_contra hends
  obtain rfl | rfl | rfl | rfl := eq_of_endsAuthority (Bool.not_eq_false _ |>.mp hends) <;>
    exact absurd h (by decide)

/-- The standard reads an authority of letters, digits, hyphens and dots as a host, or it fails. -/
theorem whatwgHost_of_name {t scheme name tail host : List Char}
    (hspace : ∀ x, (∃ c ∈ x, isWhitespace c = true) → hostParser false x = none)
    (hspecial : specialSchemes.contains (scheme.map Char.toLower) = true)
    (hscheme : isScheme scheme = true) (ht : trim t = scheme ++ ':' :: '/' :: '/' :: (name ++ tail))
    (hname : ∀ c ∈ name, isSchemeChar c = true) (hne : name ≠ [])
    (htail : ∀ c ∈ tail.head?, isDelimiter c = true) (h : whatwgHost hostParser t = some host) :
    hostParser false name = some host := by
  have hlast : ∀ c ∈ name.getLast?, isC0OrSpace c = false := fun c hc =>
    isC0OrSpace_of_isSchemeChar (hname c (List.mem_of_getLast? hc))
  obtain hnone | ⟨x, hx, hsplit⟩ := splitScheme_cleaned_authority hscheme ht hlast hne htail
  · rw [whatwgHost, hnone] at h
    cases h
  have hfilter : name.filter (!isTabOrNewline ·) = name := by
    refine List.filter_eq_self.2 fun c hc => ?_
    have hkeep := mt (isC0OrSpace_of_isTabOrNewline (c := c))
      (by simp [isC0OrSpace_of_isSchemeChar (hname c hc)])
    simpa using hkeep
  have hdrop : ('/' :: '/' :: (name ++ x)).dropWhile isSlash = name ++ x := by
    obtain ⟨c, name, rfl⟩ := List.exists_cons_of_ne_nil hne
    have hc := isSlash_of_endsAuthority (endsAuthority_of_isSchemeChar (hname c (by simp)) true)
    have hslash : isSlash '/' = true := by decide
    simp [hc, hslash]
  rw [whatwgHost, hsplit, hfilter] at h
  simp only [Option.bind_some, hspecial, if_true, hdrop] at h
  obtain ⟨w, htake, hw⟩ := takeWhile_trails
    (fun c hc => endsAuthority_of_isSchemeChar (hname c hc) true) hx
  have hlacks : ∀ d : Char, isSchemeChar d = false → isWhitespace d = false → d ∉ name ++ w := by
    intro d hd hspaceless hmem
    obtain hmem | hmem := List.mem_append.1 hmem
    · exact absurd (hname d hmem) (by simp [hd])
    · exact absurd (hw d hmem) (by simp [hspaceless])
  have hat : '@' ∉ name ++ w := hlacks _ (by decide) (by decide)
  have hcolon : ':' ∉ name ++ w := hlacks _ (by decide) (by decide)
  rw [authorityHost] at h
  simp only [htake, afterUserinfo_of_not_mem hat, splitPort_of_not_mem hcolon] at h
  rw [if_neg (by simp [hne])] at h
  simp only [Option.all_none, if_true, Bool.not_true] at h
  obtain rfl : w = [] := by
    by_contra hw'
    obtain ⟨c, w, rfl⟩ := List.exists_cons_of_ne_nil hw'
    rw [hspace _ ⟨c, by simp, hw c (by simp)⟩] at h
    cases h
  simpa using h

/-- So it does with userinfo before the host and a port behind it, when no backslash comes before them. -/
theorem whatwgHost_of_port {t scheme authority tail host port x : List Char}
    (hcolon : ∀ y, ':' ∈ y → y.getLast? ≠ some ']' → hostParser false y = none)
    (hscheme : isScheme scheme = true)
    (ht : trim t = scheme ++ ':' :: '/' :: '/' :: (authority ++ tail))
    (hauthority : ∀ c ∈ authority, endsAuthority true c = false)
    (htail : ∀ c ∈ tail.head?, isDelimiter c = true)
    (hsplit : afterUserinfo authority = host ++ ':' :: port)
    (hhost : ∀ c ∈ host, isSchemeChar c = true) (hport : ∀ c ∈ port, isSchemeChar c = true)
    (hhostne : host ≠ []) (hportne : port ≠ []) (h : whatwgHost hostParser t = some x) :
    ∃ isOpaque, hostParser isOpaque host = some x := by
  have hplain : ∀ c ∈ host ++ ':' :: port, isC0OrSpace c = false := by
    intro c hc
    simp only [List.mem_append, List.mem_cons] at hc
    obtain hc | rfl | hc := hc
    · exact isC0OrSpace_of_isSchemeChar (hhost c hc)
    · decide
    · exact isC0OrSpace_of_isSchemeChar (hport c hc)
  have hkeep : (host ++ ':' :: port).filter (!isTabOrNewline ·) = host ++ ':' :: port := by
    refine List.filter_eq_self.2 fun c hc => ?_
    have := mt (isC0OrSpace_of_isTabOrNewline (c := c)) (by simp [hplain c hc])
    simpa using this
  obtain ⟨user, huser, hat⟩ := exists_eq_append_afterUserinfo authority
  rw [hsplit] at huser
  have hlast : ∀ c ∈ authority.getLast?, isC0OrSpace c = false := by
    intro c hc
    rw [huser, List.getLast?_append_of_ne_nil _ (by simp)] at hc
    exact hplain c (List.mem_of_getLast? hc)
  obtain hnone | ⟨rest, hrest, hcleaned⟩ := splitScheme_cleaned_authority hscheme ht hlast
    (by simp [huser]) htail
  · rw [whatwgHost, hnone] at h
    cases h
  -- The authority without its tabs and line ends has the same host and port.
  obtain ⟨kept, hkept⟩ : ∃ kept, kept = authority.filter (!isTabOrNewline ·) := ⟨_, rfl⟩
  rw [← hkept] at hcleaned
  have hkeptauthority : ∀ c ∈ kept, endsAuthority true c = false := fun c hc =>
    hauthority c (List.mem_filter.1 (hkept ▸ hc)).1
  have hkeptsplit : ∀ w, (∀ c ∈ w, isWhitespace c = true) →
      afterUserinfo (kept ++ w) = host ++ ':' :: (port ++ w) := by
    intro w hw
    have hnot : '@' ∉ host ++ ':' :: (port ++ w) := by
      intro hmem
      simp only [List.mem_append, List.mem_cons] at hmem
      obtain hmem | hmem | hmem | hmem := hmem
      · exact absurd (hhost _ hmem) (by decide)
      · exact absurd hmem (by decide)
      · exact absurd (hport _ hmem) (by decide)
      · exact absurd (hw _ hmem) (by decide)
    rw [hkept, huser, List.filter_append, hkeep]
    obtain rfl | hat := hat
    · simpa using afterUserinfo_of_not_mem hnot
    · obtain ⟨user', rfl⟩ := List.getLast?_eq_some_iff.1 hat
      have hsingle : ['@'].filter (!isTabOrNewline ·) = ['@'] := by decide
      rw [List.filter_append, hsingle]
      simpa using afterUserinfo_append hnot (user'.filter (!isTabOrNewline ·))
  obtain ⟨user', huser', _⟩ := exists_eq_append_afterUserinfo kept
  have hkeptport : kept = user' ++ (host ++ ':' :: port) := by
    have hnil := hkeptsplit [] (by simp)
    rw [List.append_nil, List.append_nil] at hnil
    rw [hnil] at huser'
    exact huser'
  have hread : ∀ special, authorityHost hostParser special (kept ++ rest) = some x →
      ∃ isOpaque, hostParser isOpaque host = some x := by
    intro special hx
    have hlacks : ∀ d : Char, isSchemeChar d = false → d ∉ host := fun d hd hmem =>
      absurd (hhost d hmem) (by simp [hd])
    obtain ⟨w, htake, hw⟩ := takeWhile_trails
      (fun c hc => endsAuthority_of_special (hkeptauthority c hc) special) hrest
    rw [authorityHost] at hx
    simp only [htake, hkeptsplit w hw, splitPort_append (hlacks ':' (by decide)) (hlacks '[' (by decide))]
      at hx
    rw [if_neg (by simp [hhostne])] at hx
    split_ifs at hx
    exact ⟨_, hx⟩
  rw [whatwgHost, hcleaned] at h
  simp only [Option.bind_some] at h
  split_ifs at h with hspecial hfile
  · have hdrop : ('/' :: '/' :: (kept ++ rest)).dropWhile isSlash = kept ++ rest := by
      cases kept with
      | nil => simp at hkeptport
      | cons c kept =>
          have hc := isSlash_of_endsAuthority (hkeptauthority c (by simp))
          have hslash : isSlash '/' = true := by decide
          simp [hc, hslash]
    rw [hdrop] at h
    exact hread true h
  · -- In a `file` URL the colon belongs to the host, and is forbidden there.
    exfalso
    obtain ⟨w, htake, hw⟩ := takeWhile_trails hkeptauthority hrest
    have hslash : (isSlash '/' && isSlash '/') = true := by decide
    rw [fileHost, hslash, if_pos rfl] at h
    simp only [htake] at h
    have hnone : hostParser false (kept ++ w) = none := by
      refine hcolon _ (by simp [hkeptport]) fun hbracket => ?_
      have hmem : ∀ c ∈ (port ++ w).getLast?, isSchemeChar c = true ∨ isWhitespace c = true := by
        intro c hc
        exact (List.mem_append.1 (List.mem_of_getLast? hc)).imp (hport c) (hw c)
      have hlast' : (kept ++ w).getLast? = (port ++ w).getLast? := by
        have hassoc : kept ++ w = (user' ++ host ++ [':']) ++ (port ++ w) := by simp [hkeptport]
        rw [hassoc, List.getLast?_append_of_ne_nil _ (by simp [hportne])]
      exact absurd (hmem _ (hlast' ▸ hbracket)) (by decide)
    have hdrive : isDriveLetter (kept ++ w) = false := by
      obtain ⟨c, host, rfl⟩ := List.exists_cons_of_ne_nil hhostne
      obtain ⟨d, port, rfl⟩ := List.exists_cons_of_ne_nil hportne
      refine isDriveLetter_eq_false ?_
      simp only [hkeptport, List.length_append, List.length_cons]
      omega
    rw [hdrive, if_neg (by simp [hkeptport]), hnone] at h
    cases h
  · have hstrip : stripPrefix ['/', '/'] ('/' :: '/' :: (kept ++ rest)) = some (kept ++ rest) :=
      stripPrefix_append ['/', '/'] _
    rw [hstrip] at h
    exact hread false h

end

end Url
