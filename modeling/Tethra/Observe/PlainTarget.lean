import Tethra.Observe.Wire

set_option autoImplicit false

/-! # Destinations of plain requests (`observe/src/wire.rs`, `observe/src/proxy.rs`)

`split_absolute_form` cuts the authority at the first slash and the port at the last colon, and takes port 80
where that is no number. The standard ends an authority at a question mark too, has colons within brackets,
and has no other port for what is none. They agree exactly on the targets of `Split`
(`destinations_of_split`).

The name service is a parameter: it gives the addresses of a host and a port, or fails. -/

namespace Tethra.Interception

open Gateway Observe

/-! ## The splitters -/

def parseAuthority (target : Str) : Option (Str × Nat) :=
  match target with
  | '[' :: rest => do
      let (host, port) ← splitBracketPort rest
      let port ← parseU16 port
      some ('[' :: host ++ [']'], port)
  | _ => do
      let (host, port) ← rsplitColon target
      let port ← parseU16 port
      if host = [] then none else some (host, port)

def schemeHttp : Str := "http://".toList

/-- Host, port, and path and query. -/
abbrev Destination : Type := Str × Nat × Str

/-- Host and port of what `split_absolute_form` takes for the authority. -/
def splitPort (authority : Str) : Str × Nat :=
  match rsplitColon authority with
  | some (host, port) => (host, (parseU16 port).getD 80)
  | none => (authority, 80)

def splitAbsoluteForm (target : Str) : Option Destination := do
  let rest ← Text.stripPrefix schemeHttp target
  let (host, port) := splitPort (rest.takeWhile (· ≠ '/'))
  let path := rest.dropWhile (· ≠ '/')
  if host = [] then none else some (host, port, if path = [] then ['/'] else path)

/-- `ToSocketAddrs::to_socket_addrs`. -/
abbrev Lookup := Str → Nat → Option (List IpAddr)

def checkResolved (addr : IpAddr) (allowlisted : Bool) : Verdict :=
  if allowlisted then .allow else classifyIp addr

def resolveValidated (lookup : Lookup) (host : Str) (port : Nat) (allow : AllowList) :
    Except DenyReason (List IpAddr) :=
  let bare := (host.dropWhile (· = '[')).rdropWhile (· = ']')
  let allowlisted := allow.has host port || allow.has bare port
  match lookup bare port with
  | none => .error .badHostname
  | some addrs =>
      let validated := addrs.filter fun addr => (checkResolved addr allowlisted).isAllowed
      if validated = [] then .error .private_ else .ok validated

/-- The two checks of `handle_plain` before it connects. -/
def admits (lookup : Lookup) (allow : AllowList) (host : Str) (port : Nat) : Bool :=
  (checkAuthority host port allow).isAllowed && (resolveValidated lookup host port allow).isOk

/-- Where `handle_plain` sends a request, when it does not refuse it. -/
def plainDestination (lookup : Lookup) (allow : AllowList) (target : Str) : Option Destination :=
  (splitAbsoluteForm target).filter fun d => admits lookup allow d.1 d.2.1

/-! ## The standard -/

def isUnreserved (c : Char) : Bool :=
  Text.isAsciiAlphanumeric c || c = '-' || c = '.' || c = '_' || c = '~'

def isSubDelim (c : Char) : Bool := "!$&'()*+,;=".toList.contains c

/-- A registered name; an address of version 4 is one too. -/
def isRegName : Str → Bool
  | [] => true
  | '%' :: a :: b :: rest => isDigit 16 a && isDigit 16 b && isRegName rest
  | c :: rest => (isUnreserved c || isSubDelim c) && isRegName rest

def isIpv6Text (t : Str) : Bool := t.contains ':' && (readIpv6 t).any fun r => r.2 = []

/-- What follows the host: nothing, or a colon and the digits of a port. An empty port is none. -/
def portOf : Str → Option (Option Nat)
  | [] => some none
  | ':' :: digits =>
      if digits = [] then some none
      else if digits.all isAsciiDigit then (parseU16 digits).map some
      else none
  | _ => none

/-- An authority of a host and perhaps a port. One with a user in it is an error in a target. -/
def readAuthority (authority : Str) : Option (Str × Option Nat) :=
  match authority with
  | '[' :: rest => do
      let (inside, after) ← Text.splitOnce ']' rest
      if isIpv6Text inside then (portOf after).map fun port => ('[' :: inside ++ [']'], port) else none
  | _ =>
      let host := authority.takeWhile (· ≠ ':')
      if host ≠ [] && isRegName host then
        (portOf (authority.dropWhile (· ≠ ':'))).map fun port => (host, port)
      else none

def isAuthorityEnd (c : Char) : Bool := c = '/' || c = '?'

def authorityOf (rest : Str) : Str := rest.takeWhile (!isAuthorityEnd ·)

/-- The path and query in origin form. -/
def originForm (rest : Str) : Str :=
  let tail := rest.dropWhile (!isAuthorityEnd ·)
  if tail.head? = some '/' then tail else '/' :: tail

/-- What is behind the scheme, in either case. -/
def readScheme (target : Str) : Option Str :=
  if (target.take 7).map toAsciiLower = schemeHttp then some (target.drop 7) else none

/-- What is behind the scheme, and the host and port there; none when the target is malformed. -/
def readTarget (target : Str) : Option (Str × Str × Option Nat) := do
  let rest ← readScheme target
  let (host, port) ← readAuthority (authorityOf rest)
  some (rest, host, port)

/-- What is sent goes where it says: a target that names a destination is split into it, as its authority
    is by `parse_authority`, and one that names none is refused. -/
def SentRight (lookup : Lookup) (allow : AllowList) (target : Str) : Prop :=
  match readTarget target with
  | some (rest, host, port) =>
      splitAbsoluteForm target = some (host, port.getD 80, originForm rest) ∧
        (port.isSome = true →
          parseAuthority (authorityOf rest) = (splitAbsoluteForm target).map fun d => (d.1, d.2.1))
  | none => plainDestination lookup allow target = none

/-! ## Where they agree -/

/-- A slash or the end is behind the authority, and an authority that begins with a bracket does not end
    with one. -/
def Plain (rest : Str) : Prop :=
  (rest.dropWhile (!isAuthorityEnd ·)).head? ≠ some '?' ∧
    ((authorityOf rest).head? = some '[' → (authorityOf rest).getLast? ≠ some ']')

/-- No host before the last colon is admitted, on the number behind it or else on port 80. -/
def Refused (lookup : Lookup) (allow : AllowList) (authority : Str) : Prop :=
  (':' ∉ authority → authority ≠ [] → admits lookup allow authority 80 = false) ∧
    ∀ host p, authority = host ++ ':' :: p → ':' ∉ p → host ≠ [] →
      admits lookup allow host ((parseU16 p).getD 80) = false

/-- A target that names a destination has its scheme in lowercase and is `Plain`; one that names none is
    `Refused`. -/
def Split (lookup : Lookup) (allow : AllowList) (target : Str) : Prop :=
  match readTarget target with
  | some (rest, _) => target.take 7 = schemeHttp ∧ Plain rest
  | none => ∀ rest, target = schemeHttp ++ rest → Refused lookup allow (rest.takeWhile (· ≠ '/'))

section

variable {authority host rest t p after : Str} {port : Option Nat}

theorem rsplitColon_append (hp : ':' ∉ p) : rsplitColon (t ++ ':' :: p) = some (t, p) := by
  have hrev : (t ++ ':' :: p).reverse = p.reverse ++ ':' :: t.reverse := by simp
  rw [rsplitColon, hrev, Text.splitOnce_append (by simpa using hp)]
  simp

theorem rsplitColon_of_not_mem (h : ':' ∉ t) : rsplitColon t = none := by
  rw [rsplitColon, Option.map_eq_none_iff]
  cases hsplit : Text.splitOnce ':' t.reverse with
  | none => rfl
  | some r =>
      obtain ⟨hrev, -⟩ := Text.splitOnce_eq_some hsplit
      exact absurd (List.mem_reverse.1 (hrev ▸ by simp)) h

/-- A colon in the text is the last one at some place. -/
theorem last_colon (h : ':' ∈ t) : ∃ a b, t = a ++ ':' :: b ∧ ':' ∉ b := by
  obtain ⟨b, a, hrev, hb⟩ := List.eq_append_cons_of_mem (List.mem_reverse.2 h)
  refine ⟨a.reverse, b.reverse, ?_, by simpa using hb⟩
  rw [← List.reverse_reverse t, hrev]
  simp

theorem splitPort_of_not_mem (h : ':' ∉ host) : splitPort host = (host, 80) := by
  rw [splitPort, rsplitColon_of_not_mem h]

theorem splitPort_append (hp : ':' ∉ p) : splitPort (host ++ ':' :: p) = (host, (parseU16 p).getD 80) := by
  rw [splitPort, rsplitColon_append hp]

/-- With a colon in it, the text is not its own host. -/
theorem splitPort_ne (h : ':' ∈ host) : (splitPort host).1 ≠ host := by
  obtain ⟨a, b, rfl, hb⟩ := last_colon h
  rw [splitPort_append hb]
  intro heq
  have hlen := congrArg List.length heq
  simp at hlen

theorem not_mem_digits (h : p.all isAsciiDigit = true) {c : Char} (hc : isAsciiDigit c = false) : c ∉ p := by
  intro hmem
  rw [List.all_eq_true.1 h c hmem] at hc
  cases hc

theorem portOf_eq_some (h : portOf after = some port) :
    (after = [] ∧ port = none) ∨
      ∃ digits, after = ':' :: digits ∧ digits.all isAsciiDigit = true ∧ port = parseU16 digits ∧
        (digits = [] ∨ port.isSome = true) := by
  unfold portOf at h
  split at h
  · exact .inl ⟨rfl, (Option.some.inj h).symm⟩
  · rename_i digits
    right
    split_ifs at h with hnil hdigits
    · subst hnil
      exact ⟨[], rfl, rfl, (Option.some.inj h).symm, .inl rfl⟩
    · obtain ⟨n, hn, rfl⟩ := Option.map_eq_some_iff.1 h
      exact ⟨digits, rfl, hdigits, hn.symm, .inr rfl⟩
  · cases h

/-- A host in brackets, or one without a bracket at its start and without a colon. -/
inductive HostForm : Str → Prop where
  | bracketed {inside : Str} (colon : ':' ∈ inside) (bracket : ']' ∉ inside) :
      HostForm ('[' :: inside ++ [']'])
  | name {host : Str} (nonempty : host ≠ []) (colon : ':' ∉ host) (start : host.head? ≠ some '[') :
      HostForm host

theorem HostForm.ne_nil (h : HostForm host) : host ≠ [] := by
  cases h with
  | bracketed => simp
  | name nonempty => exact nonempty

theorem readAuthority_eq_some (h : readAuthority authority = some (host, port)) :
    ∃ after, authority = host ++ after ∧ portOf after = some port ∧ HostForm host := by
  unfold readAuthority at h
  split at h
  · rename_i text
    obtain ⟨⟨inside, after⟩, hsplit, h⟩ := Option.bind_eq_some_iff.1 h
    dsimp only at h
    split_ifs at h with hip
    obtain ⟨port', hport, heq⟩ := Option.map_eq_some_iff.1 h
    obtain ⟨rfl, rfl⟩ := Prod.mk.inj heq
    obtain ⟨rfl, hbracket⟩ := Text.splitOnce_eq_some hsplit
    have hcolon : ':' ∈ inside := by
      have := (Bool.and_eq_true_iff.1 hip).1
      simpa using this
    exact ⟨after, by simp, hport, .bracketed hcolon hbracket⟩
  · rename_i hstart
    dsimp only at h
    split_ifs at h with hname
    obtain ⟨port', hport, heq⟩ := Option.map_eq_some_iff.1 h
    obtain ⟨rfl, rfl⟩ := Prod.mk.inj heq
    have hne := of_decide_eq_true (Bool.and_eq_true_iff.1 hname).1
    refine ⟨_, (List.takeWhile_append_dropWhile ..).symm, hport, .name hne ?_ ?_⟩
    · intro hmem
      simpa using List.mem_takeWhile_imp hmem
    · cases authority with
      | nil => simp
      | cons c authority =>
          intro hhead
          by_cases hc : c = ':'
          · subst hc
            exact hne (by simp)
          · rw [List.takeWhile_cons_of_pos (by simpa using hc)] at hhead
            obtain rfl : c = '[' := by simpa using hhead
            exact hstart authority rfl

/-- The port of a valid authority is split off unless the host ends it with a bracket. -/
theorem splitPort_eq_iff (h : readAuthority authority = some (host, port)) :
    splitPort authority = (host, port.getD 80) ↔
      (authority.head? = some '[' → authority.getLast? ≠ some ']') := by
  obtain ⟨after, rfl, hport, hform⟩ := readAuthority_eq_some h
  obtain ⟨rfl, rfl⟩ | ⟨digits, rfl, hdigits, rfl, -⟩ := portOf_eq_some hport
  · rw [List.append_nil]
    cases hform with
    | @bracketed inside colon _ =>
        refine iff_of_false (fun heq => ?_) fun hlast => hlast rfl List.getLast?_concat
        have hmem : ':' ∈ '[' :: inside ++ [']'] := by simp [colon]
        exact splitPort_ne hmem (congrArg Prod.fst heq)
    | name _ colon start =>
        exact iff_of_true (splitPort_of_not_mem colon) fun hstart => absurd hstart start
  · refine iff_of_true (splitPort_append (not_mem_digits hdigits (by decide))) fun _ hlast => ?_
    have hmem : ']' ∈ ':' :: digits := by
      rw [List.getLast?_append_of_ne_nil _ (by simp)] at hlast
      exact List.mem_of_getLast? hlast
    obtain hmem | hmem := List.mem_cons.1 hmem
    · exact absurd hmem (by decide)
    · exact not_mem_digits hdigits (by decide) hmem

theorem authorityOf_append (rest : Str) :
    authorityOf rest ++ rest.dropWhile (!isAuthorityEnd ·) = rest := List.takeWhile_append_dropWhile

theorem not_mem_authorityOf {c : Char} (hc : isAuthorityEnd c = true) : c ∉ authorityOf rest := by
  intro hmem
  have := List.mem_takeWhile_imp hmem
  simp [hc] at this

/-- What is behind the authority begins with a slash or a question mark. -/
theorem tail_cases (rest : Str) :
    rest.dropWhile (!isAuthorityEnd ·) = [] ∨ (∃ path, rest.dropWhile (!isAuthorityEnd ·) = '/' :: path) ∨
      ∃ query, rest.dropWhile (!isAuthorityEnd ·) = '?' :: query := by
  cases htail : rest.dropWhile (!isAuthorityEnd ·) with
  | nil => exact .inl rfl
  | cons c tail =>
      have hc := List.head?_dropWhile_not (!isAuthorityEnd ·) rest
      rw [htail] at hc
      simp only [List.head?_cons, Bool.not_eq_false', isAuthorityEnd, Bool.or_eq_true,
        decide_eq_true_eq] at hc
      rcases hc with rfl | rfl
      · exact .inr (.inl ⟨tail, rfl⟩)
      · exact .inr (.inr ⟨tail, rfl⟩)

theorem slash_free (rest : Str) : ∀ c ∈ authorityOf rest, decide (c ≠ '/') = true := by
  intro c hc
  rw [decide_eq_true_iff]
  rintro rfl
  exact not_mem_authorityOf (by decide) hc

theorem takeWhile_slash (h : (rest.dropWhile (!isAuthorityEnd ·)).head? ≠ some '?') :
    rest.takeWhile (· ≠ '/') = authorityOf rest ∧
      rest.dropWhile (· ≠ '/') = rest.dropWhile (!isAuthorityEnd ·) := by
  have hsplit := authorityOf_append rest
  rcases tail_cases rest with htail | ⟨path, htail⟩ | ⟨query, htail⟩
  · rw [htail, List.append_nil] at hsplit
    have hall : ∀ c ∈ rest, decide (c ≠ '/') = true := by
      intro c hc
      rw [← hsplit] at hc
      exact slash_free rest c hc
    rw [List.takeWhile_eq_self_iff.2 hall, List.dropWhile_eq_nil_iff.2 hall, hsplit, htail]
    exact ⟨rfl, rfl⟩
  · rw [htail]
    rw [htail] at hsplit
    constructor
    · conv_lhs => rw [← hsplit]
      rw [List.takeWhile_append_of_pos (slash_free rest)]
      simp
    · conv_lhs => rw [← hsplit]
      rw [List.dropWhile_append_of_pos (slash_free rest)]
      simp
  · rw [htail] at h
    exact absurd rfl h

/-- The path that is split off is shorter than the origin form when a query is behind the authority. -/
theorem path_ne_originForm (h : (rest.dropWhile (!isAuthorityEnd ·)).head? = some '?') :
    (if rest.dropWhile (· ≠ '/') = [] then ['/'] else rest.dropWhile (· ≠ '/')) ≠ originForm rest := by
  obtain ⟨query, htail⟩ : ∃ query, rest.dropWhile (!isAuthorityEnd ·) = '?' :: query := by
    rcases tail_cases rest with htail | ⟨path, htail⟩ | hquery
    · simp [htail] at h
    · simp [htail] at h
    · exact hquery
  have hform : originForm rest = '/' :: '?' :: query := by simp [originForm, htail]
  have hdrop : (rest.dropWhile (· ≠ '/')).length ≤ ('?' :: query).length := by
    rw [← authorityOf_append rest, List.dropWhile_append_of_pos (slash_free rest), htail]
    exact (List.dropWhile_suffix _).length_le
  intro heq
  have hlen := congrArg List.length heq
  rw [hform] at hlen
  split_ifs at hlen with hnil
  · simp at hlen
  · simp only [List.length_cons] at hlen hdrop
    omega

/-- The path that is split off is the origin form unless a query is right behind the authority. -/
theorem path_eq_originForm_iff :
    (if rest.dropWhile (· ≠ '/') = [] then ['/'] else rest.dropWhile (· ≠ '/')) = originForm rest ↔
      (rest.dropWhile (!isAuthorityEnd ·)).head? ≠ some '?' := by
  refine ⟨fun hpath hquery => path_ne_originForm hquery hpath, fun h => ?_⟩
  rw [(takeWhile_slash h).2]
  rcases tail_cases rest with htail | ⟨path, htail⟩ | ⟨query, htail⟩
  · simp [originForm, htail]
  · simp [originForm, htail]
  · simp [htail] at h

end

theorem splitAbsoluteForm_eq {target rest : Str} (hscheme : Text.stripPrefix schemeHttp target = some rest) :
    splitAbsoluteForm target =
      if (splitPort (rest.takeWhile (· ≠ '/'))).1 = [] then none
      else some ((splitPort (rest.takeWhile (· ≠ '/'))).1, (splitPort (rest.takeWhile (· ≠ '/'))).2,
        if rest.dropWhile (· ≠ '/') = [] then ['/'] else rest.dropWhile (· ≠ '/')) := by
  simp [splitAbsoluteForm, hscheme]

/-- A target that names a destination is split into it exactly when it is `Plain`. -/
theorem splitAbsoluteForm_eq_iff {target rest host : Str} {port : Option Nat}
    (hscheme : Text.stripPrefix schemeHttp target = some rest)
    (h : readAuthority (authorityOf rest) = some (host, port)) :
    splitAbsoluteForm target = some (host, port.getD 80, originForm rest) ↔ Plain rest := by
  obtain ⟨_, _, _, hform⟩ := readAuthority_eq_some h
  have hne := hform.ne_nil
  rw [splitAbsoluteForm_eq hscheme]
  constructor
  · intro heq
    have hnil : ¬(splitPort (rest.takeWhile (· ≠ '/'))).1 = [] := by
      intro hnil
      rw [if_pos hnil] at heq
      cases heq
    rw [if_neg hnil] at heq
    obtain ⟨hhost, hrest⟩ := Prod.mk.inj (Option.some.inj heq)
    obtain ⟨hport, hpath⟩ := Prod.mk.inj hrest
    have htail := path_eq_originForm_iff.1 hpath
    rw [(takeWhile_slash htail).1] at hhost hport
    exact ⟨htail, (splitPort_eq_iff h).1 (Prod.ext hhost hport)⟩
  · rintro ⟨htail, hbracket⟩
    obtain ⟨htake, hdrop⟩ := takeWhile_slash htail
    rw [htake, hdrop, (splitPort_eq_iff h).2 hbracket, if_neg hne]
    rw [← hdrop, path_eq_originForm_iff.2 htail]

theorem splitBracketPort_append {inside : Str} (h : ']' ∉ inside) (p : Str) :
    splitBracketPort (inside ++ ']' :: ':' :: p) = some (inside, p) := by
  induction inside with
  | nil => rfl
  | cons c inside ih =>
      simp only [List.mem_cons, not_or] at h
      rw [List.cons_append, splitBracketPort, ih h.2]
      · rfl
      · intro _ hc _
        exact h.1 hc.symm

/-- A valid authority with a port is parsed as it is. -/
theorem parseAuthority_of_read {authority host : Str} {port : Nat}
    (h : readAuthority authority = some (host, some port)) : parseAuthority authority = some (host, port) := by
  obtain ⟨after, rfl, hport, hform⟩ := readAuthority_eq_some h
  obtain ⟨-, hnone⟩ | ⟨digits, rfl, hdigits, hvalue, -⟩ := portOf_eq_some hport
  · cases hnone
  have hcolon : ':' ∉ digits := not_mem_digits hdigits (by decide)
  cases hform with
  | @bracketed inside colon bracket =>
      have hsplit := splitBracketPort_append bracket digits
      simp only [List.cons_append, List.append_assoc, List.nil_append, parseAuthority]
      rw [hsplit]
      simp [← hvalue]
  | name hne colon start =>
      unfold parseAuthority
      split
      · rename_i rest heq
        cases host with
        | nil => exact absurd rfl hne
        | cons c host =>
            obtain ⟨rfl, -⟩ := List.cons.inj heq
            exact absurd rfl start
      · rw [rsplitColon_append hcolon]
        simp [← hvalue, hne]

theorem refused_iff (lookup : Lookup) (allow : AllowList) (authority : Str) :
    Refused lookup allow authority ↔
      ((splitPort authority).1 ≠ [] →
        admits lookup allow (splitPort authority).1 (splitPort authority).2 = false) := by
  by_cases hcolon : ':' ∈ authority
  · obtain ⟨host, p, rfl, hp⟩ := last_colon hcolon
    rw [splitPort_append hp]
    refine ⟨fun h => h.2 host p rfl hp, fun h => ⟨fun hnot => absurd hcolon hnot, ?_⟩⟩
    intro host' p' heq hp' hne
    -- the last colon is at one place
    have hsame := heq ▸ @rsplitColon_append host p hp
    rw [rsplitColon_append hp'] at hsame
    obtain ⟨rfl, rfl⟩ := Prod.mk.inj (Option.some.inj hsame)
    exact h hne
  · rw [splitPort_of_not_mem hcolon]
    refine ⟨fun h => h.1 hcolon, fun h => ⟨fun _ => h, ?_⟩⟩
    rintro host p rfl
    simp at hcolon

theorem plainDestination_eq_none (lookup : Lookup) (allow : AllowList) (rest : Str) :
    plainDestination lookup allow (schemeHttp ++ rest) = none ↔
      Refused lookup allow (rest.takeWhile (· ≠ '/')) := by
  rw [refused_iff, plainDestination, splitAbsoluteForm_eq (Text.stripPrefix_append _ _)]
  generalize splitPort (rest.takeWhile (· ≠ '/')) = parts
  by_cases hnil : parts.1 = []
  · simp [hnil]
  · rw [if_neg hnil]
    simp [hnil]

theorem splitAbsoluteForm_of_ne {target : Str} (h : target.take 7 ≠ schemeHttp) :
    splitAbsoluteForm target = none := by
  have hstrip : Text.stripPrefix schemeHttp target = none := by
    rw [Option.eq_none_iff_forall_ne_some]
    intro rest hrest
    rw [Text.stripPrefix_eq_some] at hrest
    subst hrest
    exact h (List.take_left' (by decide))
  simp [splitAbsoluteForm, hstrip]

theorem readTarget_eq_some {target rest host : Str} {port : Option Nat}
    (h : readTarget target = some (rest, host, port)) :
    target = target.take 7 ++ rest ∧ readAuthority (authorityOf rest) = some (host, port) := by
  obtain ⟨rest', hscheme, h⟩ := Option.bind_eq_some_iff.1 h
  obtain ⟨d, hread, h⟩ := Option.bind_eq_some_iff.1 h
  obtain ⟨rfl, hd⟩ := Prod.mk.inj (Option.some.inj h)
  unfold readScheme at hscheme
  split_ifs at hscheme
  obtain rfl := Option.some.inj hscheme
  exact ⟨(List.take_append_drop 7 target).symm, hread.trans (congrArg some hd)⟩

/-- The destinations are right exactly for the targets of `Split`. -/
theorem destinations_of_split (lookup : Lookup) (allow : AllowList) (target : Str) :
    SentRight lookup allow target ↔ Split lookup allow target := by
  unfold SentRight Split
  cases hread : readTarget target with
  | some d =>
      obtain ⟨rest, host, port⟩ := d
      obtain ⟨htarget, hauthority⟩ := readTarget_eq_some hread
      dsimp only
      by_cases hscheme : target.take 7 = schemeHttp
      · rw [hscheme] at htarget
        have hstrip : Text.stripPrefix schemeHttp target = some rest := Text.stripPrefix_eq_some.2 htarget
        rw [splitAbsoluteForm_eq_iff hstrip hauthority]
        refine ⟨fun h => ⟨hscheme, h.1⟩, fun h => ⟨h.2, fun hport => ?_⟩⟩
        obtain ⟨n, rfl⟩ := Option.isSome_iff_exists.1 hport
        rw [parseAuthority_of_read hauthority, (splitAbsoluteForm_eq_iff hstrip hauthority).2 h.2]
        rfl
      · rw [splitAbsoluteForm_of_ne hscheme]
        exact iff_of_false (fun h => absurd h.1 (by simp)) fun h => hscheme h.1
  | none =>
      by_cases hscheme : target.take 7 = schemeHttp
      · obtain ⟨rest, rfl⟩ : ∃ rest, target = schemeHttp ++ rest :=
          ⟨target.drop 7, by rw [← hscheme, List.take_append_drop]⟩
        dsimp only
        rw [plainDestination_eq_none]
        exact ⟨fun h rest' heq => List.append_cancel_left heq ▸ h, fun h => h rest rfl⟩
      · refine iff_of_true (by rw [plainDestination, splitAbsoluteForm_of_ne hscheme]; rfl) ?_
        rintro rest rfl
        exact absurd (List.take_left' (by decide)) hscheme

/-- A name service that has one public address for every host. -/
def onePublic : Lookup := fun _ _ => some [.v4 ⟨93, 184, 216, 34⟩]

/-- A request for a port that does not exist is sent to port 80. -/
theorem unparsable_port_sent : ¬SentRight onePublic [] "http://example.com:99999/".toList := by
  have hread : readTarget "http://example.com:99999/".toList = none := by decide
  rw [SentRight, hread]
  decide

end Tethra.Interception
