import Tethra.Gateway.UpstreamHead
import Tethra.Lib.Segments
import Tethra.Lib.Url

set_option autoImplicit false

/-! # The host of an accepted origin (`gateway/src/routes.rs`, `observe/src/policy.rs`)

`validate_origin` returns the host as it was written, in lower case. `check_authority` judges what is
left of it without surrounding whitespace and final dots. What it judges is a host name or an address
literal (`bare_policyHost`); the host that is returned is one when nothing was stripped. -/

namespace Tethra.Gateway

open Observe

/-- What `check_authority` judges of a host. -/
def policyHost (host : Str) : Str := (asciiLower (Text.trim host)).rdropWhile (· == '.')

/-- A host name, or an address with or without brackets. -/
def IsBareHost (host : Str) : Prop :=
  isValidHostname host = true ∨ (parseIpAddr (stripBrackets host)).isSome = true

/-- A character of a host name or of an address literal. -/
def isHostChar (c : Char) : Bool :=
  Text.isAsciiAlphanumeric c || c = '-' || c = '.' || c = ':' || c = '[' || c = ']'

/-- A host that stands in the Host field as it was judged. -/
structure CanonicalHost (host : Str) : Prop where
  bare : IsBareHost host
  chars : ∀ c ∈ host, isHostChar c = true
  line : (hostField host).Plain
  judged : policyHost host = host

/-- The host part of an origin. -/
def hostPart (origin : Str) : Str := (hostPort (origin.drop 8)).1

/-- Nothing at the ends that the policy strips. -/
structure Tidy (t : Str) : Prop where
  leading : Text.NoLeadingWs t
  trailing : Text.NoTrailingWs t
  dot : t.getLast? ≠ some '.'

/-- What `str::to_lowercase` does: ASCII letters are lowered, and whitespace and dots at the ends are
    left alone, neither made nor lost. -/
structure Lowercases (lowercase : Str → Str) : Prop where
  ascii : ∀ t, asciiLower (lowercase t) = lowercase t
  ends : ∀ t, Tidy (lowercase t) ↔ Tidy t

/-! ## Literals -/

/-- A character of an address. -/
def IsAddressChar (c : Char) : Prop := isDigit 16 c = true ∨ c = '.' ∨ c = ':'

/-- What was read of a text has characters of an address only. -/
def Reads (t rest : Str) : Prop := ∃ used, t = used ++ rest ∧ ∀ c ∈ used, IsAddressChar c

theorem Reads.refl (t : Str) : Reads t t := ⟨[], rfl, nofun⟩

theorem Reads.trans {t u v : Str} (h : Reads t u) (h' : Reads u v) : Reads t v := by
  obtain ⟨used, rfl, hused⟩ := h
  obtain ⟨more, rfl, hmore⟩ := h'
  refine ⟨used ++ more, (List.append_assoc _ _ _).symm, fun c hc => ?_⟩
  exact (List.mem_append.1 hc).elim (hused c) (hmore c)

theorem Reads.all {t : Str} (h : Reads t []) : ∀ c ∈ t, IsAddressChar c := by
  obtain ⟨used, rfl, hused⟩ := h
  rwa [List.append_nil]

theorem isDigit_mono {c : Char} {radix : Nat} (h : isDigit radix c = true) (hradix : radix ≤ 16) :
    isDigit 16 c = true := by
  have hsome : ∀ v r : Nat, (if v < r then some v else none).isSome = true ↔ v < r := by
    intro v r
    split_ifs with hlt <;> simp [hlt]
  unfold isDigit digit? at h ⊢
  simp only [hsome] at h ⊢
  split_ifs at h ⊢ with hdecimal
  · have hle : c.toNat ≤ 57 := UInt32.le_iff_toNat_le.1 hdecimal.2
    have hzero : '0'.toNat = 48 := rfl
    omega
  all_goals omega

theorem reads_number {radix maxDigits bound n : Nat} {zeroPrefix : Bool} {t rest : Str}
    (hradix : radix ≤ 16) (h : readNumber radix maxDigits bound zeroPrefix t = some (n, rest)) :
    Reads t rest := by
  unfold readNumber at h
  simp only at h
  split_ifs at h
  obtain ⟨-, rfl⟩ := Prod.mk.inj (Option.some.inj h)
  refine ⟨t.takeWhile (isDigit radix), List.takeWhile_append_dropWhile.symm, fun c hc => ?_⟩
  exact Or.inl (isDigit_mono (List.mem_takeWhile_imp hc) hradix)

theorem reads_givenChar {c : Char} (hc : IsAddressChar c) {t rest : Str}
    (h : readGivenChar c t = some rest) : Reads t rest := by
  unfold readGivenChar at h
  split at h
  · split_ifs at h with heq
    obtain rfl := Option.some.inj h
    obtain rfl := heq
    exact ⟨[_], rfl, List.forall_mem_singleton.2 hc⟩
  · cases h

theorem reads_dot {t rest : Str} (h : readGivenChar '.' t = some rest) : Reads t rest :=
  reads_givenChar (Or.inr (Or.inl rfl)) h

theorem reads_colon {t rest : Str} (h : readGivenChar ':' t = some rest) : Reads t rest :=
  reads_givenChar (Or.inr (Or.inr rfl)) h

theorem reads_ipv4 {t rest : Str} {ip : Ipv4Addr} (h : readIpv4 t = some (ip, rest)) :
    Reads t rest := by
  unfold readIpv4 at h
  obtain ⟨⟨a, t₁⟩, h₁, h⟩ := Option.bind_eq_some_iff.1 h
  obtain ⟨t₂, h₂, h⟩ := Option.bind_eq_some_iff.1 h
  obtain ⟨⟨b, t₃⟩, h₃, h⟩ := Option.bind_eq_some_iff.1 h
  obtain ⟨t₄, h₄, h⟩ := Option.bind_eq_some_iff.1 h
  obtain ⟨⟨c, t₅⟩, h₅, h⟩ := Option.bind_eq_some_iff.1 h
  obtain ⟨t₆, h₆, h⟩ := Option.bind_eq_some_iff.1 h
  obtain ⟨⟨d, t₇⟩, h₇, h⟩ := Option.bind_eq_some_iff.1 h
  obtain ⟨-, rfl⟩ := Prod.mk.inj (Option.some.inj h)
  have hten : 10 ≤ 16 := by decide
  exact (reads_number hten h₁).trans <| (reads_dot h₂).trans <| (reads_number hten h₃).trans <|
    (reads_dot h₄).trans <| (reads_number hten h₅).trans <| (reads_dot h₆).trans <|
    reads_number hten h₇

theorem reads_groups (limit : Nat) (first : Bool) (t : Str) :
    Reads t (readGroups limit first t).2.2 := by
  induction limit generalizing first t with
  | zero => exact .refl t
  | succ limit ih =>
      have hbody : ∀ body, (if first then some t else readGivenChar ':' t) = some body →
          Reads t body := by
        intro body h
        split_ifs at h
        · rw [← Option.some.inj h]
          exact .refl t
        · exact reads_colon h
      unfold readGroups
      simp only
      generalize (if first = true then some t else readGivenChar ':' t) = start at hbody ⊢
      split
      · rename_i ip rest hip
        split_ifs at hip
        obtain ⟨body, hb, hip⟩ := Option.bind_eq_some_iff.1 hip
        exact (hbody body hb).trans (reads_ipv4 hip)
      · split
        · rename_i group rest hgroup
          obtain ⟨body, hb, hgroup⟩ := Option.bind_eq_some_iff.1 hgroup
          exact (hbody body hb).trans ((reads_number (le_refl 16) hgroup).trans (ih false rest))
        · exact .refl t

theorem reads_ipv6 {t rest : Str} {ip : Ipv6Addr} (h : readIpv6 t = some (ip, rest)) :
    Reads t rest := by
  unfold readIpv6 at h
  have hhead := reads_groups 8 true t
  generalize readGroups 8 true t = head at h hhead
  obtain ⟨head, v4, t₁⟩ := head
  simp only at h hhead
  split_ifs at h with hfull hv4
  · obtain ⟨ip', -, h⟩ := Option.bind_eq_some_iff.1 h
    obtain ⟨-, rfl⟩ := Prod.mk.inj (Option.some.inj h)
    exact hhead
  · cases h
  · obtain ⟨t₂, h₂, h⟩ := Option.bind_eq_some_iff.1 h
    obtain ⟨t₃, h₃, h⟩ := Option.bind_eq_some_iff.1 h
    obtain ⟨ip', -, h⟩ := Option.bind_eq_some_iff.1 h
    obtain ⟨-, rfl⟩ := Prod.mk.inj (Option.some.inj h)
    exact hhead.trans ((reads_colon h₂).trans ((reads_colon h₃).trans (reads_groups _ true t₃)))

theorem addressChars_of_parseIpAddr {t : Str} (h : (parseIpAddr t).isSome = true) :
    ∀ c ∈ t, IsAddressChar c := by
  unfold parseIpAddr at h
  split at h
  · rename_i ip hip
    exact (reads_ipv4 hip).all
  · cases h
  · split at h
    · rename_i ip hip
      exact (reads_ipv6 hip).all
    · cases h

theorem isHostChar_of_address {c : Char} (h : IsAddressChar c) : isHostChar c = true := by
  rcases h with h | rfl | rfl
  · have hletter : Text.isAsciiAlphanumeric c = true := by
      unfold isDigit digit? at h
      unfold Text.isAsciiAlphanumeric Text.isAsciiAlphabetic
      simp only [Bool.or_eq_true, Bool.and_eq_true, decide_eq_true_eq]
      split_ifs at h with hdecimal hlower hupper
      · have hle := UInt32.le_iff_toNat_le.1 hdecimal.1
        have hge := UInt32.le_iff_toNat_le.1 hdecimal.2
        exact Or.inr ⟨hle, hge⟩
      · have hle := UInt32.le_iff_toNat_le.1 hlower.1
        have hge := UInt32.le_iff_toNat_le.1 hlower.2
        exact Or.inl (Or.inr ⟨hle, hge⟩)
      · have hle := UInt32.le_iff_toNat_le.1 hupper.1
        have hge := UInt32.le_iff_toNat_le.1 hupper.2
        exact Or.inl (Or.inl ⟨hle, hge⟩)
      all_goals cases h
    simp [isHostChar, hletter]
  · rfl
  · rfl

/-- The characters of a host are brackets and those inside. -/
theorem mem_stripBrackets {host : Str} {c : Char} (hc : c ∈ host) :
    c = '[' ∨ c = ']' ∨ c ∈ stripBrackets host := by
  unfold stripBrackets
  split
  · rename_i rest
    split_ifs with hlast
    · rcases List.mem_cons.1 hc with rfl | hc
      · exact Or.inl rfl
      · rw [← List.dropLast_append_getLast? _ hlast] at hc
        rcases List.mem_append.1 hc with hc | hc
        · exact Or.inr (Or.inr hc)
        · exact Or.inr (Or.inl (List.mem_singleton.1 hc))
    · exact Or.inr (Or.inr hc)
  · exact Or.inr (Or.inr hc)

/-! ## Names -/

theorem isHostChar_of_hostname {host : Str} (h : isValidHostname host = true) :
    ∀ c ∈ host, isHostChar c = true := by
  intro c hc
  unfold isValidHostname at h
  simp only [Bool.and_eq_true] at h
  have hin : c = '.' ∨ c ∈ (if host.getLast? = some '.' then host.dropLast else host) := by
    split_ifs with hlast
    · rw [← List.dropLast_append_getLast? _ hlast] at hc
      rcases List.mem_append.1 hc with hc | hc
      · exact Or.inr hc
      · exact Or.inl (List.mem_singleton.1 hc)
    · exact Or.inr hc
  rcases hin with rfl | hin
  · rfl
  rcases @Segments.mem_part _ _ '.' _ _ hin with rfl | ⟨label, hlabel, hcl⟩
  · rfl
  · have hvalid := List.all_eq_true.1 h.2 label hlabel
    unfold isValidLabel at hvalid
    have hchar := List.all_eq_true.1 (Bool.and_eq_true_iff.1 hvalid).2 c hcl
    simp only [Bool.or_eq_true, decide_eq_true_eq] at hchar
    rcases hchar with hchar | rfl
    · simp [isHostChar, hchar]
    · rfl

theorem IsBareHost.chars {host : Str} (h : IsBareHost host) : ∀ c ∈ host, isHostChar c = true := by
  rcases h with hname | haddress
  · exact isHostChar_of_hostname hname
  · intro c hc
    rcases mem_stripBrackets hc with rfl | rfl | hin
    · rfl
    · rfl
    · exact isHostChar_of_address (addressChars_of_parseIpAddr haddress c hin)

/-! ## What was judged -/

theorem hostname_of_checkHostname {host : Str} {allowlisted : Bool}
    (h : checkHostname host allowlisted = .allow) : isValidHostname host = true := by
  unfold checkHostname at h
  split_ifs at h with hvalid
  simpa using hvalid

/-- What the policy allows without an allowlist is a host name or an address. -/
theorem bare_policyHost {host : Str} {port : Nat} (h : checkAuthority host port [] = .allow) :
    IsBareHost (policyHost host) := by
  unfold checkAuthority at h
  dsimp only at h
  unfold policyHost
  generalize (asciiLower (Text.trim host)).rdropWhile (· == '.') = judged at h ⊢
  have hlisted : AllowList.has [] judged port = false := rfl
  simp only [hlisted, Bool.false_eq_true, if_false] at h
  split at h
  · cases h
  split at h
  · cases h
  split at h
  · cases h
  split at h
  · rename_i ip hliteral
    refine Or.inr ?_
    unfold parseIpLiteral at hliteral
    split at hliteral
    · rename_i hparse
      rw [hparse]
      rfl
    · obtain ⟨v4, -, hcase⟩ := Option.map_eq_some_iff.1 hliteral
      cases hcase
  · split at h
    · rename_i hdenied
      rw [h] at hdenied
      cases hdenied
    · exact Or.inl (hostname_of_checkHostname h)
  · exact Or.inl (hostname_of_checkHostname h)

theorem isVisible_of_hostChar :
    ∀ b : UInt8, isHostChar (charOf b) = true → b < 128 → isVisible b = true := by
  decide +kernel

theorem visible_of_hostChars {host : Str} (h : ∀ c ∈ host, isHostChar c = true) :
    (utf8 host).all isVisible = true := by
  rw [List.all_eq_true]
  intro b hb
  obtain ⟨c, hc, hb⟩ := mem_utf8.1 hb
  have hchar := h c hc
  have hlt : c.toNat < 128 := by
    simp only [isHostChar, Text.isAsciiAlphanumeric, Text.isAsciiAlphabetic, Bool.or_eq_true,
      Bool.and_eq_true, decide_eq_true_eq] at hchar
    rcases hchar with ((((hchar | rfl) | rfl) | rfl) | rfl) | rfl
    · omega
    all_goals decide
  have hnat : (UInt8.ofNat c.toNat).toNat = c.toNat := Nat.mod_eq_of_lt (by omega)
  have hascii : UInt8.ofNat c.toNat < 128 := UInt8.lt_iff_toNat_lt.2 (by rw [hnat]; exact hlt)
  have hof : charOf (UInt8.ofNat c.toNat) = c := by
    unfold charOf
    rw [hnat]
    exact Char.ofNat_toNat c
  have hbyte : utf8 [c] = [UInt8.ofNat c.toNat] := by
    have hencode := utf8EncodeChar_charOf _ hascii
    rw [hof] at hencode
    rw [utf8_eq_flatMap]
    simpa using hencode
  rw [hbyte, List.mem_singleton] at hb
  rw [hb]
  exact isVisible_of_hostChar _ (by rw [hof]; exact hchar) hascii

/-- The policy judges the text itself exactly when it has nothing at its ends to strip. -/
theorem policyHost_eq_iff {host : Str} (hlower : asciiLower host = host) :
    policyHost host = host ↔ Tidy host := by
  constructor
  · intro h
    have hlen : (policyHost host).length ≤ (Text.trim host).length := by
      unfold policyHost
      exact (List.rdropWhile_prefix _ _).length_le.trans_eq (List.length_map _)
    have hsub : (Text.trim host).Sublist host := by
      exact (List.rdropWhile_prefix _ _).sublist.trans (List.dropWhile_suffix _).sublist
    have htrim : Text.trim host = host := by
      refine hsub.eq_of_length_le ?_
      rwa [h] at hlen
    refine ⟨htrim ▸ Text.noLeadingWs_trim host, htrim ▸ Text.noTrailingWs_trim host, fun hdot => ?_⟩
    have hdrop : host.rdropWhile (· == '.') = host := by
      have := h
      unfold policyHost at this
      rwa [htrim, hlower] at this
    have hne : host ≠ [] := by
      rintro rfl
      cases hdot
    have hlast := List.rdropWhile_eq_self_iff.1 hdrop hne
    rw [List.getLast?_eq_some_getLast hne] at hdot
    rw [Option.some.inj hdot] at hlast
    exact hlast rfl
  · rintro ⟨hleading, htrailing, hdot⟩
    unfold policyHost
    rw [Text.trim_of_noWs hleading htrailing, hlower, List.rdropWhile_eq_self_iff]
    intro hne hlast
    rw [beq_iff_eq] at hlast
    exact hdot (by rw [List.getLast?_eq_some_getLast hne, hlast])

/-- The host of an accepted origin. -/
theorem host_of_validateOrigin {lowercase : Str → Str} {origin host : Str} {port : Nat}
    (h : validateOrigin lowercase origin = .ok (host, port)) :
    host = lowercase (hostPart origin) := by
  unfold validateOrigin at h
  simp only at h
  split at h
  · cases h
  · rename_i rest hrest
    have hdrop : origin.drop 8 = rest := by
      rw [Text.stripPrefix_eq_some.1 hrest]
      exact List.drop_left' (by decide)
    split_ifs at h
    split at h
    · cases h
    · rename_i hp
      split_ifs at h
      obtain ⟨rfl, -⟩ := Prod.mk.inj (Except.ok.inj h)
      unfold hostPart
      rw [hdrop, hp]

/-- The host of an accepted origin is canonical exactly when the host part that was written has no
    whitespace at its ends and no dot at its end. -/
theorem origin_canonical_iff {lowercase : Str → Str} (hlowercase : Lowercases lowercase)
    {origin host : Str} {port : Nat} (h : validateOrigin lowercase origin = .ok (host, port)) :
    CanonicalHost host ↔ Tidy (hostPart origin) := by
  have hhost := host_of_validateOrigin h
  have hlower : asciiLower host = host := by rw [hhost, hlowercase.ascii]
  have htidy : Tidy host ↔ Tidy (hostPart origin) := by rw [hhost, hlowercase.ends]
  rw [← htidy, ← policyHost_eq_iff hlower]
  refine ⟨fun hcanonical => hcanonical.judged, fun hjudged => ?_⟩
  have hbare := bare_policyHost (validateOrigin_ok h).2
  rw [hjudged] at hbare
  exact ⟨hbare, hbare.chars, hostField_plain (visible_of_hostChars hbare.chars), hjudged⟩

/-! ## A host with something to strip -/

theorem isWhitespace_toLower (c : Char) : Text.isWhitespace c.toLower = Text.isWhitespace c := by
  rw [Bool.eq_iff_iff]
  simp only [Text.isWhitespace, Url.toNat_toLower, Bool.or_eq_true, Bool.and_eq_true,
    decide_eq_true_eq, beq_iff_eq]
  split_ifs <;> omega

theorem lowercases_asciiLower : Lowercases asciiLower where
  ascii := asciiLower_asciiLower
  ends t := by
    have hdot : ∀ c : Char, c.toLower = '.' ↔ c = '.' := fun c =>
      ⟨fun h => Url.eq_of_toLower_eq h (by decide), fun h => by rw [h]; rfl⟩
    have hleading : Text.NoLeadingWs (asciiLower t) ↔ Text.NoLeadingWs t := by
      simp [Text.NoLeadingWs, asciiLower, isWhitespace_toLower]
    have htrailing : Text.NoTrailingWs (asciiLower t) ↔ Text.NoTrailingWs t := by
      simp [Text.NoTrailingWs, asciiLower, isWhitespace_toLower]
    have hlast : (asciiLower t).getLast? = some '.' ↔ t.getLast? = some '.' := by
      simp [asciiLower, hdot]
    constructor
    · rintro ⟨h₁, h₂, h₃⟩
      exact ⟨hleading.1 h₁, htrailing.1 h₂, fun h => h₃ (hlast.2 h)⟩
    · rintro ⟨h₁, h₂, h₃⟩
      exact ⟨hleading.2 h₁, htrailing.2 h₂, fun h => h₃ (hlast.1 h)⟩

theorem origin_canonical_iff_plain : CanonicalHost "a.io".toList := by
  have haccepted : validateOrigin asciiLower "https://A.io".toList = .ok ("a.io".toList, 443) := by
    decide
  have hpart : hostPart "https://A.io".toList = ['A', '.', 'i', 'o'] := by decide
  refine (origin_canonical_iff lowercases_asciiLower haccepted).2 ?_
  rw [hpart]
  refine ⟨Text.noLeadingWs_cons.2 rfl, ?_, by decide⟩
  simp [Text.NoTrailingWs, Text.isWhitespace]

/-- An origin with a line end behind it is accepted, and the line end stays in the host. -/
theorem line_end_kept : ¬∀ (lowercase : Str → Str) (_ : Lowercases lowercase) (origin host : Str)
    (port : Nat), validateOrigin lowercase origin = .ok (host, port) → CanonicalHost host := by
  intro h
  have haccepted : validateOrigin asciiLower "https://a.io\r\n".toList
      = .ok ("a.io\r\n".toList, 443) := by
    decide
  have hcanonical := h asciiLower lowercases_asciiLower _ _ _ haccepted
  exact absurd (hcanonical.chars '\r' (by decide)) (by decide)

end Tethra.Gateway
