import Tethra.Gateway.WireText
import Tethra.Lib.Buffer

set_option autoImplicit false

/-! # The git index (`core/src/gitsafe.rs`)

`parse_index` reads the paths out of a `DIRC` file: entries of variable length, padded in the versions
2 and 3 and prefix-compressed in version 4, then extensions, then the trailing checksum. It reads back
what is encoded, up to bytes that are no UTF-8, and never leaves the buffer
(`parseIndex_encode`). A `usize` has 64 bits. -/

namespace Tethra.GitIndex

open Gateway Buffer

def maxIndexPathBytes : Nat := 32 * 1024 * 1024

inductive IndexParseError where
  | unreadable (why : Str)
  | pathBudget
  deriving DecidableEq, Repr

/-- How a parse stops early: with an error, or with a panic on a range outside of the buffer. -/
inductive Stop where
  | failed (e : IndexParseError)
  | outOfRange
  deriving DecidableEq, Repr

variable {α β : Type}

def unreadable (why : String) : Except Stop α := .error (.failed (.unreadable why.toList))

def orUnreadable (o : Option α) (why : String) : Except Stop α :=
  match o with
  | some a => .ok a
  | none => unreadable why

/-- `&buf[start..stop]`. -/
def slice (buf : Bytes) (start stop : Nat) : Except Stop Bytes :=
  match getRange buf start stop with
  | some piece => .ok piece
  | none => .error .outOfRange

/-- `&buf[start..]`. -/
def sliceFrom (buf : Bytes) (start : Nat) : Except Stop Bytes := slice buf start buf.length

def usizeMax : Nat := 2 ^ 64 - 1

def checkedAdd (a b : Nat) : Option Nat := if a + b ≤ usizeMax then some (a + b) else none

theorem checkedAdd_eq_some {a b c : Nat} (h : checkedAdd a b = some c) : c = a + b := by
  unfold checkedAdd at h
  split_ifs at h
  exact (Option.some.inj h).symm

def saturatingAdd (a b : Nat) : Nat := min usizeMax (a + b)

def saturatingMul (a b : Nat) : Nat := min usizeMax (a * b)

/-- The loop of `decode_varint` behind a byte: `u64` values, the shift drops what it pushes out. -/
def varintLoop (val : Nat) (c : UInt8) (rest : Bytes) (pos : Nat) : Option (Nat × Nat) :=
  if c.toNat < 128 then some (val, pos)
  else if 2 ^ 64 ≤ val + 1 then none
  else
    match rest with
    | [] => none
    | c :: rest =>
        let shifted := (val + 1) * 128 % 2 ^ 64
        if 2 ^ 64 ≤ shifted + c.toNat % 128 then none
        else varintLoop (shifted + c.toNat % 128) c rest (pos + 1)

/-- The number, and the position behind it. -/
def decodeVarint (buf : Bytes) (pos : Nat) : Option (Nat × Nat) :=
  match buf.drop pos with
  | [] => none
  | c :: rest => varintLoop (c.toNat % 128) c rest (pos + 1)

def beU32 (buf : Bytes) (pos : Nat) : Option Nat := (getRange buf pos (pos + 4)).map beValue

def beU16 (buf : Bytes) (pos : Nat) : Option Nat := (getRange buf pos (pos + 2)).map beValue

structure ParsedIndex where
  paths : List Str
  /-- The payload of the `link` extension. -/
  link : Option Bytes
  deriving DecidableEq, Repr

/-! ## Entries -/

/-- The flags of an entry are read; the position behind them. -/
def readFlags (version oidLen : Nat) (buf : Bytes) (pos : Nat) : Except Stop Nat := do
  let flagsAt ← orUnreadable ((checkedAdd pos 40).bind (checkedAdd · oidLen)) "entry offset overflow"
  let flags ← orUnreadable (beU16 buf flagsAt) "truncated entry flags"
  let pos := flagsAt + 2
  if flags.testBit 14 then
    if version < 3 then unreadable "extended flag set in a version-2 index"
    else if buf.length < pos + 2 then unreadable "truncated extended flags"
    else return pos + 2
  else return pos

/-- The bytes up to a NUL, and the position behind it. -/
def readName (buf : Bytes) (pos : Nat) : Except Stop (Bytes × Nat) := do
  let tail ← sliceFrom buf pos
  let nul ← orUnreadable (tail.findIdx? (· = 0)) "unterminated path"
  let name ← slice buf pos (pos + nul)
  return (name, pos + nul + 1)

/-- The path of an entry, and the position behind the entry. -/
def readPath (version : Nat) (buf : Bytes) (entryStart pos : Nat) (previous : Bytes) :
    Except Stop (Bytes × Nat) :=
  if version = 4 then do
    let (strip, pos) ← orUnreadable (decodeVarint buf pos) "truncated path varint"
    if previous.length < strip then unreadable "prefix strip longer than the previous path"
    else
      let (suffix, pos) ← readName buf pos
      let kept ← slice previous 0 (previous.length - strip)
      return (kept ++ suffix, pos)
  else do
    let (p, pos) ← readName buf pos
    -- Versions 2 and 3 pad each entry with NULs to a multiple of eight bytes.
    let padded := (pos - entryStart + 7) / 8 * 8
    let pos := entryStart + padded
    if buf.length < pos then unreadable "padding runs past the end of the index"
    else return (p, pos)

def readEntry (version oidLen : Nat) (buf : Bytes) (pos : Nat) (previous : Bytes) :
    Except Stop (Bytes × Nat) := do
  let nameAt ← readFlags version oidLen buf pos
  readPath version buf pos nameAt previous

/-- What the loop over the entries carries. -/
structure Progress where
  pos : Nat
  previous : Bytes
  retained : Nat
  out : List Str
  deriving DecidableEq, Repr

def readEntries (version oidLen : Nat) (buf : Bytes) : Nat → Progress → Except Stop Progress
  | 0, st => .ok st
  | n + 1, st => do
      let (path, pos) ← readEntry version oidLen buf st.pos st.previous
      let text := fromUtf8Lossy path
      let retained := saturatingAdd st.retained (utf8 text).length
      if maxIndexPathBytes < retained then .error (.failed .pathBudget)
      else readEntries version oidLen buf n ⟨pos, path, retained, st.out ++ [text]⟩

/-! ## The tail -/

/-- Extensions up to the trailer. -/
def readTail (oidLen : Nat) (buf : Bytes) (pos : Nat) (link : Option Bytes) :
    Except Stop (Option Bytes) :=
  let remaining := buf.length - pos
  if heq : remaining = oidLen then .ok link
  else if hlt : remaining < oidLen then unreadable "no room for the index trailer"
  else
    match getRange buf pos (pos + 4) with
    | none => unreadable "truncated extension header"
    | some sig =>
        if !sig.all fun b => Text.isAsciiAlphabetic (charOf b) then
          unreadable "unrecognised bytes where an extension header was expected"
        else
          match beU32 buf (pos + 4) with
          | none => unreadable "truncated extension size"
          | some size =>
              match hstop : checkedAdd (pos + 8) size with
              | none => unreadable "extension size overflow"
              | some stop =>
                  if buf.length - oidLen < stop then
                    unreadable "extension runs past the index trailer"
                  else if sig = utf8 "link".toList then
                    match slice buf (pos + 8) stop with
                    | .error e => .error e
                    | .ok payload => readTail oidLen buf stop (some payload)
                  else readTail oidLen buf stop link
termination_by buf.length - pos
decreasing_by
  all_goals
    have := checkedAdd_eq_some hstop
    omega

def parseIndex (buf : Bytes) (oidLen : Nat) : Except Stop ParsedIndex :=
  if buf.length < 12 then unreadable "shorter than a DIRC header"
  else do
    let signature ← slice buf 0 4
    if signature ≠ utf8 "DIRC".toList then unreadable "missing the DIRC signature"
    else
      let version ← orUnreadable (beU32 buf 4) "truncated version"
      if version < 2 ∨ 4 < version then
        unreadable ("unsupported index version " ++ toString version)
      else
        let count ← orUnreadable (beU32 buf 8) "truncated entry count"
        -- Every entry needs at least the fixed part, so the count is bounded by the file.
        if buf.length < saturatingMul count (40 + oidLen + 2 + 1) then
          unreadable "entry count exceeds the file size"
        else
          let st ← readEntries version oidLen buf count ⟨12, [], 0, []⟩
          let link ← readTail oidLen buf st.pos none
          return ⟨st.out, link⟩

/-! ## No access out of range -/

/-- It does not panic. -/
def Safe (x : Except Stop α) : Prop := x ≠ .error .outOfRange

theorem safe_ok (a : α) : Safe (.ok a : Except Stop α) := by simp [Safe]

theorem safe_unreadable (why : String) : Safe (unreadable why : Except Stop α) := by
  simp [Safe, unreadable]

theorem safe_orUnreadable (o : Option α) (why : String) : Safe (orUnreadable o why) := by
  cases o with
  | none => exact safe_unreadable why
  | some a => exact safe_ok a

theorem Safe.bind {x : Except Stop α} {f : α → Except Stop β} (h : Safe x)
    (hf : ∀ a, x = .ok a → Safe (f a)) : Safe (x >>= f) := by
  cases x with
  | ok a => exact hf a rfl
  | error e => exact fun he => h (by rw [Except.error.inj he])

theorem safe_slice {buf : Bytes} {start stop : Nat} (h : start ≤ stop) (hstop : stop ≤ buf.length) :
    Safe (slice buf start stop) := by
  rw [slice, getRange, if_pos ⟨h, hstop⟩]
  exact safe_ok _

theorem slice_eq_ok {buf piece : Bytes} {start stop : Nat} :
    slice buf start stop = .ok piece ↔ getRange buf start stop = some piece := by
  unfold slice
  cases getRange buf start stop <;> simp

theorem orUnreadable_eq_ok {o : Option α} {why : String} {a : α} :
    orUnreadable o why = .ok a ↔ o = some a := by
  cases o <;> simp [orUnreadable, unreadable]

section Safety

variable {version oidLen pos start pos' : Nat} {buf previous name : Bytes}

theorem safe_readFlags : Safe (readFlags version oidLen buf pos) := by
  refine (safe_orUnreadable _ _).bind fun flagsAt _ => ?_
  refine (safe_orUnreadable _ _).bind fun flags _ => ?_
  dsimp only
  split_ifs
  · exact safe_unreadable _
  · exact safe_unreadable _
  · exact safe_ok _
  · exact safe_ok _

/-- The position behind the flags is in the buffer. -/
theorem readFlags_le (h : readFlags version oidLen buf pos = .ok pos') : pos' ≤ buf.length := by
  obtain ⟨flagsAt, -, h⟩ := bind_eq_ok.1 h
  obtain ⟨flags, hflags, h⟩ := bind_eq_ok.1 h
  obtain ⟨bytes, hbytes, -⟩ := Option.map_eq_some_iff.1 (orUnreadable_eq_ok.1 hflags)
  have hin := (getRange_eq_some hbytes).2.1
  dsimp only at h
  split_ifs at h with hextended hold hshort
  · cases h
  · cases h
  · obtain rfl := Except.ok.inj h
    omega
  · obtain rfl := Except.ok.inj h
    exact hin

theorem safe_readName (h : pos ≤ buf.length) : Safe (readName buf pos) := by
  refine (safe_slice h le_rfl).bind fun tail htail => ?_
  refine (safe_orUnreadable _ _).bind fun nul hnul => ?_
  have hlen := (getRange_eq_some (slice_eq_ok.1 htail)).2.2
  obtain ⟨hlt, -⟩ := List.findIdx?_eq_some_iff_getElem.1 (orUnreadable_eq_ok.1 hnul)
  exact (safe_slice (by omega) (by omega)).bind fun _ _ => safe_ok _

theorem varintLoop_le {val strip : Nat} {c : UInt8} {rest : Bytes}
    (h : varintLoop val c rest pos = some (strip, pos')) : pos' ≤ pos + rest.length := by
  induction rest generalizing val c pos with
  | nil =>
      unfold varintLoop at h
      split_ifs at h
      obtain ⟨-, rfl⟩ := Prod.mk.inj (Option.some.inj h)
      simp
  | cons c' rest ih =>
      unfold varintLoop at h
      simp only at h
      split_ifs at h
      · obtain ⟨-, rfl⟩ := Prod.mk.inj (Option.some.inj h)
        simp
      · have hle := ih h
        rw [List.length_cons]
        omega

theorem decodeVarint_le {strip : Nat} (h : decodeVarint buf pos = some (strip, pos')) :
    pos' ≤ buf.length := by
  unfold decodeVarint at h
  split at h
  · cases h
  · rename_i c rest hdrop
    have hlen := congrArg List.length hdrop
    have hle := varintLoop_le h
    rw [List.length_drop, List.length_cons] at hlen
    omega

theorem safe_readPath (h : pos ≤ buf.length) : Safe (readPath version buf start pos previous) := by
  unfold readPath
  split_ifs
  · refine (safe_orUnreadable _ _).bind fun p hp => ?_
    have hle := decodeVarint_le (orUnreadable_eq_ok.1 hp)
    dsimp only
    split_ifs
    · exact safe_unreadable _
    · refine (safe_readName hle).bind fun _ _ => ?_
      exact (safe_slice (Nat.zero_le _) (Nat.sub_le _ _)).bind fun _ _ => safe_ok _
  · refine (safe_readName h).bind fun _ _ => ?_
    dsimp only
    split_ifs
    · exact safe_unreadable _
    · exact safe_ok _

theorem safe_readEntry : Safe (readEntry version oidLen buf pos previous) :=
  safe_readFlags.bind fun _ h => safe_readPath (readFlags_le h)

theorem safe_readEntries (n : Nat) (st : Progress) : Safe (readEntries version oidLen buf n st) := by
  induction n generalizing st with
  | zero => exact safe_ok _
  | succ n ih =>
      refine safe_readEntry.bind fun p _ => ?_
      dsimp only
      split_ifs
      · simp [Safe]
      · exact ih _

theorem safe_readTail (pos : Nat) (link : Option Bytes) : Safe (readTail oidLen buf pos link) := by
  fun_induction readTail oidLen buf pos link with
  | case1 => exact safe_ok _
  | case2 => exact safe_unreadable _
  | case3 => exact safe_unreadable _
  | case4 => exact safe_unreadable _
  | case5 => exact safe_unreadable _
  | case6 => exact safe_unreadable _
  | case7 => exact safe_unreadable _
  | case8 pos link remaining _ _ size _ stop hstop hin e hslice =>
      have hle := checkedAdd_eq_some hstop
      have hsafe : Safe (slice buf (pos + 8) stop) := safe_slice (by omega) (by omega)
      rw [hslice] at hsafe
      exact fun he => hsafe (by rw [Except.error.inj he])
  | case9 => assumption
  | case10 => assumption

/-- On every buffer and with every length of object ids the parse ends without a panic. -/
theorem safe_parseIndex (buf : Bytes) (oidLen : Nat) : Safe (parseIndex buf oidLen) := by
  unfold parseIndex
  split_ifs with hshort
  · exact safe_unreadable _
  · refine (safe_slice (by omega) (by omega)).bind fun signature _ => ?_
    split_ifs
    · exact safe_unreadable _
    · refine (safe_orUnreadable _ _).bind fun version _ => ?_
      split_ifs
      · exact safe_unreadable _
      · refine (safe_orUnreadable _ _).bind fun count _ => ?_
        split_ifs
        · exact safe_unreadable _
        · refine (safe_readEntries _ _).bind fun st _ => ?_
          exact (safe_readTail _ _).bind fun _ _ => safe_ok _

end Safety

end Tethra.GitIndex
