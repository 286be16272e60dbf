import Tethra.Core.GitSplit

set_option autoImplicit false

/-! # The probe for the object-id length (`core/src/gitsafe.rs`)

The length of the object ids is not in an index, so it is parsed with both lengths. A layout says which bytes the parser
accepts with a length: entries with any stat data and object id, extensions whose signature is lettered, and as many
bytes as an object id has. It accepts exactly these (`parseIndex_ok_iff`), and an index of the other length is read as
it is unless it happens to be laid out so as well (`probe_iff`). -/

namespace Tethra.GitIndex

open Gateway Buffer

/-! ## Layouts -/

/-- The flags of an entry, with a second word if a bit of the first says so. -/
inductive FlagWords (version : Nat) : Bytes → Prop where
  | plain {w : Bytes} (two : w.length = 2) (bit : (beValue w).testBit 14 = false) : FlagWords version w
  | extended {w x : Bytes} (two : w.length = 2) (bit : (beValue w).testBit 14 = true) (allowed : 3 ≤ version)
      (two' : x.length = 2) : FlagWords version (w ++ x)

/-- The bytes of an entry with a path: its fixed part is not looked at, nor is what it is padded with. -/
inductive EntryLayout (version oidLen : Nat) (previous : Bytes) : Bytes → Bytes → Prop where
  | padded {fixed flags name pad : Bytes} (unprefixed : version ≠ 4) (fixedLen : fixed.length = 40 + oidLen)
      (flagWords : FlagWords version flags) (noNul : 0 ∉ name) (padLen : pad.length < 8)
      (aligned : (fixed.length + flags.length + name.length + 1 + pad.length) % 8 = 0) :
      EntryLayout version oidLen previous name (fixed ++ (flags ++ (name ++ 0 :: pad)))
  | prefixed {fixed flags number suffix : Bytes} {strip : Nat} (isPrefixed : version = 4)
      (fixedLen : fixed.length = 40 + oidLen) (flagWords : FlagWords version flags)
      (isNumber : decodeVarint number 0 = some (strip, number.length)) (fits : strip ≤ previous.length)
      (noNul : 0 ∉ suffix) :
      EntryLayout version oidLen previous (previous.take (previous.length - strip) ++ suffix)
        (fixed ++ (flags ++ (number ++ (suffix ++ [0]))))

/-- Entries one behind the other, each with the path before it. -/
inductive EntriesLayout (version oidLen : Nat) : Bytes → List Bytes → Bytes → Prop where
  | nil {previous : Bytes} : EntriesLayout version oidLen previous [] []
  | cons {previous path entry rest : Bytes} {paths : List Bytes}
      (first : EntryLayout version oidLen previous path entry) (others : EntriesLayout version oidLen path paths rest) :
      EntriesLayout version oidLen previous (path :: paths) (entry ++ rest)

/-- How much text paths make. -/
def pathText (paths : List Bytes) : Nat := (paths.map fun p => (utf8 (fromUtf8Lossy p)).length).sum

/-- The bytes of an index with paths and extensions. -/
structure Layout (oidLen : Nat) (buf : Bytes) (paths : List Bytes) (extensions : List Extension) : Prop where
  shape : ∃ version entries trailer, 2 ≤ version ∧ version ≤ 4 ∧ EntriesLayout version oidLen [] paths entries ∧
    trailer.length = oidLen ∧
    buf = utf8 "DIRC".toList ++ (beBytes 4 version ++ (beBytes 4 paths.length ++
      (entries ++ (encodeExtensions extensions ++ trailer))))
  countFits : paths.length < 2 ^ 32
  lettered : ∀ x ∈ extensions, x.Lettered
  text : pathText paths ≤ maxIndexPathBytes

/-! ## Entries -/

section Entry

variable {version oidLen pos pos' start : Nat} {buf bytes rest previous path flags fixed name : Bytes}

theorem FlagWords.length_pos (h : FlagWords version flags) : 2 ≤ flags.length := by
  cases h with
  | plain two => omega
  | extended two bit allowed two' =>
      rw [List.length_append]
      omega

theorem readFlags_of_words (hfixed : fixed.length = 40 + oidLen) (hwords : FlagWords version flags)
    (h : At buf pos (fixed ++ (flags ++ rest))) (hbuf : buf.length < 2 ^ 63) :
    readFlags version oidLen buf pos = .ok (pos + fixed.length + flags.length) := by
  have hlen := h.length
  simp only [List.length_append] at hlen
  -- The buffer is shorter than `usize::MAX`, so neither addition overflows.
  have hadd : (checkedAdd pos 40).bind (checkedAdd · oidLen) = some (pos + fixed.length) := by
    have h40 : pos + 40 ≤ usizeMax := by
      rw [usizeMax]
      omega
    have hall : pos + 40 + oidLen ≤ usizeMax := by
      rw [usizeMax]
      omega
    rw [checkedAdd, if_pos h40, Option.bind_some, checkedAdd, if_pos hall, hfixed, Nat.add_assoc]
  have hflagsAt := h.advance
  cases hwords with
  | plain two bit =>
      have hword : beU16 buf (pos + fixed.length) = some (beValue flags) := by
        have hrange := hflagsAt.getRange
        rw [two] at hrange
        rw [beU16, hrange, Option.map_some]
      simp [readFlags, hadd, hword, orUnreadable, bit, two, bind, Except.bind, pure, Except.pure]
  | @extended w x two bit allowed two' =>
      rw [List.append_assoc] at hflagsAt
      have hword : beU16 buf (pos + fixed.length) = some (beValue w) := by
        have hrange := hflagsAt.getRange
        rw [two] at hrange
        rw [beU16, hrange, Option.map_some]
      rw [List.length_append] at hlen
      have hroom : ¬buf.length < pos + fixed.length + 2 + 2 := by omega
      simp [readFlags, hadd, hword, orUnreadable, bit, two, two', bind, Except.bind, pure, Except.pure,
        Nat.not_lt.2 allowed, hroom]

theorem words_of_readFlags (h : At buf pos bytes) (hread : readFlags version oidLen buf pos = .ok pos') :
    ∃ fixed flags rest, bytes = fixed ++ (flags ++ rest) ∧ fixed.length = 40 + oidLen ∧ FlagWords version flags ∧
      pos' = pos + fixed.length + flags.length ∧ At buf pos' rest := by
  obtain ⟨flagsAt, hadd, hread⟩ := bind_eq_ok.1 hread
  obtain ⟨flags, hflags, hread⟩ := bind_eq_ok.1 hread
  obtain ⟨at40, h40, hoid⟩ := Option.bind_eq_some_iff.1 (orUnreadable_eq_ok.1 hadd)
  obtain ⟨w, hw, rfl⟩ := Option.map_eq_some_iff.1 (orUnreadable_eq_ok.1 hflags)
  obtain rfl : flagsAt = pos + (40 + oidLen) := by
    rw [checkedAdd_eq_some hoid, checkedAdd_eq_some h40, Nat.add_assoc]
  have hin := (getRange_eq_some hw).2.1
  obtain ⟨fixed, bytes, rfl, hfixed, hbytes⟩ := h.split (n := 40 + oidLen) (by omega)
  obtain ⟨rest, rfl, htwo, hrest⟩ := hbytes.of_getRange hw
  dsimp only at hread
  split_ifs at hread with hbit hold hshort
  · cases hread
  · cases hread
  · obtain rfl := Except.ok.inj hread
    obtain ⟨x, rest, rfl, hx, hrest⟩ := hrest.split (n := 2) (by omega)
    exact ⟨fixed, w ++ x, rest, by simp, hfixed, .extended htwo hbit (by omega) hx,
      by rw [List.length_append]; omega, hrest⟩
  · obtain rfl := Except.ok.inj hread
    exact ⟨fixed, w, rest, rfl, hfixed, .plain htwo (by simpa using hbit), by omega, hrest⟩

theorem name_of_readName (h : At buf pos bytes) (hread : readName buf pos = .ok (name, pos')) :
    ∃ rest, bytes = name ++ 0 :: rest ∧ 0 ∉ name ∧ pos' = pos + name.length + 1 ∧ At buf pos' rest := by
  obtain ⟨tail, htail, hread⟩ := bind_eq_ok.1 hread
  obtain ⟨nul, hnul, hread⟩ := bind_eq_ok.1 hread
  obtain ⟨name, hname, hread⟩ := bind_eq_ok.1 hread
  obtain ⟨rfl, rfl⟩ := Prod.mk.inj (Except.ok.inj hread)
  obtain rfl : tail = bytes := by
    have hlen := h.length
    have hall : At buf pos (bytes ++ []) := by simpa using h
    have hrange := hall.getRange
    rw [← hlen] at hrange
    have hsame := (slice_eq_ok.1 htail).symm.trans hrange
    exact Option.some.inj hsame
  obtain ⟨rest, rfl, hlen, hrest⟩ := h.of_getRange (slice_eq_ok.1 hname)
  obtain ⟨hlt, hzero, hbefore⟩ := List.findIdx?_eq_some_iff_getElem.1 (orUnreadable_eq_ok.1 hnul)
  -- `position` stops at the first NUL.
  have hnoNul : 0 ∉ name := by
    intro hmem
    obtain ⟨i, hi, hget⟩ := List.getElem_of_mem hmem
    refine hbefore i (by omega) ?_
    rw [List.getElem_append_left hi, hget]
    rfl
  -- The NUL is what comes next.
  cases rest with
  | nil =>
      rw [List.append_nil] at hlt
      omega
  | cons b rest =>
      have hb : b = 0 := by
        rw [List.getElem_append_right (by omega)] at hzero
        simpa [hlen] using hzero
      rw [hb] at hrest ⊢
      have hnul : At buf (pos + nul) ([0] ++ rest) := hrest
      exact ⟨rest, rfl, hnoNul, by rw [hlen], hnul.advance⟩

theorem varintLoop_prefix {val strip : Nat} {c : UInt8} (h : varintLoop val c bytes pos = some (strip, pos')) :
    ∃ used rest, bytes = used ++ rest ∧ pos' = pos + used.length ∧
      ∀ more p, varintLoop val c (used ++ more) p = some (strip, p + used.length) := by
  induction bytes generalizing val c pos with
  | nil =>
      unfold varintLoop at h
      split_ifs at h with hlast
      obtain ⟨rfl, rfl⟩ := Prod.mk.inj (Option.some.inj h)
      exact ⟨[], [], rfl, rfl, fun more p => by rw [varintLoop.eq_def, if_pos hlast]; rfl⟩
  | cons b bytes ih =>
      unfold varintLoop at h
      simp only at h
      split_ifs at h with hlast hbig hover
      · obtain ⟨rfl, rfl⟩ := Prod.mk.inj (Option.some.inj h)
        exact ⟨[], b :: bytes, rfl, rfl, fun more p => by rw [varintLoop.eq_def, if_pos hlast]; rfl⟩
      · obtain ⟨used, rest, rfl, rfl, hall⟩ := ih h
        refine ⟨b :: used, rest, rfl, by rw [List.length_cons]; omega, fun more p => ?_⟩
        rw [List.cons_append, varintLoop.eq_def, if_neg hlast, if_neg hbig]
        simp only [if_neg hover]
        rw [hall, List.length_cons]
        congr 2
        omega

/-- A number is read from its own bytes alone. -/
theorem varintAt_prefix {strip : Nat} (h : varintAt bytes pos = some (strip, pos')) :
    ∃ number rest, bytes = number ++ rest ∧ pos' = pos + number.length ∧
      ∀ more p, varintAt (number ++ more) p = some (strip, p + number.length) := by
  cases bytes with
  | nil => cases h
  | cons c bytes =>
      obtain ⟨used, rest, rfl, rfl, hall⟩ := varintLoop_prefix h
      refine ⟨c :: used, rest, rfl, by rw [List.length_cons]; omega, fun more p => ?_⟩
      rw [List.cons_append, varintAt, hall, List.length_cons]
      congr 2
      omega

theorem decodeVarint_eq (h : At buf pos bytes) : decodeVarint buf pos = varintAt bytes pos := by
  rw [decodeVarint, h.rest]
  rfl

theorem number_of_decodeVarint {strip : Nat} (h : At buf pos bytes) (hread : decodeVarint buf pos = some (strip, pos')) :
    ∃ number rest, bytes = number ++ rest ∧ pos' = pos + number.length ∧
      decodeVarint number 0 = some (strip, number.length) ∧ At buf pos' rest := by
  rw [decodeVarint_eq h] at hread
  obtain ⟨number, rest, rfl, rfl, hall⟩ := varintAt_prefix hread
  refine ⟨number, rest, rfl, rfl, ?_, h.advance⟩
  have halone := hall [] 0
  rwa [List.append_nil, Nat.zero_add, ← decodeVarint_eq (at_zero number)] at halone

theorem decodeVarint_of_number {number : Bytes} {strip : Nat} (hnumber : decodeVarint number 0 = some (strip, number.length))
    (h : At buf pos (number ++ rest)) : decodeVarint buf pos = some (strip, pos + number.length) := by
  rw [decodeVarint_eq (at_zero number)] at hnumber
  obtain ⟨used, rest', hused, hlen, hall⟩ := varintAt_prefix hnumber
  have hnil : rest' = [] := by
    have := congrArg List.length hused
    rw [List.length_append] at this
    exact List.length_eq_zero_iff.1 (by omega)
  rw [hnil, List.append_nil] at hused
  rw [decodeVarint_eq h, hused, hall]

theorem readEntry_of_layout {entry : Bytes} (hentry : EntryLayout version oidLen previous path entry)
    (h : At buf pos (entry ++ rest)) (hbuf : buf.length < 2 ^ 63) :
    readEntry version oidLen buf pos previous = .ok (path, pos + entry.length) := by
  have hlen := h.length
  cases hentry with
  | @padded fixed flags name pad hversion hfixed hwords hnoNul hpad haligned =>
      simp only [List.append_assoc] at h
      have hflags := readFlags_of_words hfixed hwords h hbuf
      have hname := h.advance.advance
      rw [List.cons_append] at hname
      have hread := readName_nul hname hnoNul
      simp only [List.length_append, List.length_cons] at hlen
      -- The end of the padding, measured from the start of the entry.
      have hend : pos + (pos + fixed.length + flags.length + path.length + 1 - pos + 7) / 8 * 8 =
          pos + (fixed.length + (flags.length + (path.length + (pad.length + 1)))) := by omega
      simp only [readEntry, hflags, bind, Except.bind, readPath, if_neg hversion, hread, pure, Except.pure,
        List.length_append, List.length_cons, hend]
      rw [if_neg (by omega)]
  | @prefixed fixed flags number suffix strip hversion hfixed hwords hnumber hstrip hnoNul =>
      simp only [List.append_assoc] at h
      have hflags := readFlags_of_words hfixed hwords h hbuf
      have hnumberAt := h.advance.advance
      have hdecode := decodeVarint_of_number hnumber hnumberAt
      have hname := hnumberAt.advance
      rw [List.singleton_append] at hname
      have hread := readName_nul hname hnoNul
      have hkept : slice previous 0 (previous.length - strip) = .ok (previous.take (previous.length - strip)) := by
        rw [slice_eq_ok, getRange, if_pos ⟨Nat.zero_le _, Nat.sub_le _ _⟩, List.drop_zero]
      simp only [readEntry, hflags, bind, Except.bind, readPath, if_pos hversion, hdecode, orUnreadable,
        if_neg (Nat.not_lt.2 hstrip), hread, hkept, pure, Except.pure, List.length_append, List.length_singleton]
      congr 2
      omega

/-- What is read as an entry is laid out as one. -/
theorem layout_of_readEntry (h : At buf pos bytes) (hread : readEntry version oidLen buf pos previous = .ok (path, pos')) :
    ∃ entry rest, bytes = entry ++ rest ∧ EntryLayout version oidLen previous path entry ∧ pos' = pos + entry.length ∧
      At buf pos' rest := by
  obtain ⟨nameAt, hflags, hread⟩ := bind_eq_ok.1 hread
  obtain ⟨fixed, flags, rest, rfl, hfixed, hwords, rfl, hrest⟩ := words_of_readFlags h hflags
  unfold readPath at hread
  -- Version 4 strips a suffix of the path before; versions 2 and 3 pad the entry.
  split_ifs at hread with hversion
  · obtain ⟨⟨strip, numberEnd⟩, hnumber, hread⟩ := bind_eq_ok.1 hread
    obtain ⟨number, rest, rfl, rfl, hdecode, hrest⟩ := number_of_decodeVarint hrest (orUnreadable_eq_ok.1 hnumber)
    dsimp only at hread
    split_ifs at hread with hstrip
    · cases hread
    · obtain ⟨⟨suffix, nameEnd⟩, hname, hread⟩ := bind_eq_ok.1 hread
      obtain ⟨rest, rfl, hnoNul, rfl, hrest⟩ := name_of_readName hrest hname
      obtain ⟨kept, hkept, hread⟩ := bind_eq_ok.1 hread
      obtain ⟨rfl, rfl⟩ := Prod.mk.inj (Except.ok.inj hread)
      have htake : kept = previous.take (previous.length - strip) := by
        have hrange := slice_eq_ok.1 hkept
        rw [getRange, if_pos ⟨Nat.zero_le _, Nat.sub_le _ _⟩, List.drop_zero] at hrange
        exact (Option.some.inj hrange).symm
      rw [htake]
      refine ⟨_, rest, ?_, .prefixed hversion hfixed hwords hdecode (Nat.not_lt.1 hstrip) hnoNul, ?_, hrest⟩
      · simp
      · simp only [List.length_append, List.length_singleton]
        omega
  · obtain ⟨⟨name, nameEnd⟩, hname, hread⟩ := bind_eq_ok.1 hread
    obtain ⟨rest, rfl, hnoNul, rfl, hrest⟩ := name_of_readName hrest hname
    dsimp only at hread
    split_ifs at hread with hpast
    · cases hread
    · obtain ⟨rfl, hpos⟩ := Prod.mk.inj (Except.ok.inj hread)
      obtain ⟨pad, rest, rfl, hpad, hrest⟩ := hrest.split (n := pos' - (pos + fixed.length + flags.length +
        name.length + 1)) (by omega)
      refine ⟨fixed ++ (flags ++ (name ++ 0 :: pad)), rest, ?_,
        .padded hversion hfixed hwords hnoNul (by omega) (by omega), ?_, ?_⟩
      · simp
      · simp only [List.length_append, List.length_cons]
        omega
      · rwa [Nat.add_sub_cancel' (by omega)] at hrest

theorem EntryLayout.le_length {entry : Bytes} (h : EntryLayout version oidLen previous path entry) :
    40 + oidLen + 2 + 1 ≤ entry.length := by
  cases h with
  | padded hversion hfixed hwords =>
      have := hwords.length_pos
      simp only [List.length_append, List.length_cons]
      omega
  | prefixed hversion hfixed hwords =>
      have := hwords.length_pos
      simp only [List.length_append, List.length_singleton]
      omega

end Entry

section Entries

variable {version oidLen : Nat} {buf bytes rest previous entries : Bytes} {paths : List Bytes}

theorem EntriesLayout.le_length (h : EntriesLayout version oidLen previous paths entries) :
    paths.length * (40 + oidLen + 2 + 1) ≤ entries.length := by
  induction h with
  | nil => simp
  | cons first others ih =>
      have := first.le_length
      rw [List.length_cons, Nat.succ_mul, List.length_append]
      omega

theorem pathText_cons (p : Bytes) (paths : List Bytes) :
    pathText (p :: paths) = (utf8 (fromUtf8Lossy p)).length + pathText paths := by
  simp [pathText]

theorem readEntries_of_layout (hentries : EntriesLayout version oidLen previous paths entries) {pos retained : Nat}
    {out : List Str} (h : At buf pos (entries ++ rest)) (hbuf : buf.length < 2 ^ 63)
    (htext : retained + pathText paths ≤ maxIndexPathBytes) :
    ∃ last, readEntries version oidLen buf paths.length ⟨pos, previous, retained, out⟩ =
      .ok ⟨pos + entries.length, last, retained + pathText paths, out ++ paths.map fromUtf8Lossy⟩ := by
  induction hentries generalizing pos retained out with
  | @nil previous => exact ⟨previous, by simp [readEntries, pathText]⟩
  | @cons previous path entry entries paths first others ih =>
      rw [List.append_assoc] at h
      rw [pathText_cons] at htext
      have hbudget : maxIndexPathBytes < usizeMax := by decide
      have hretained : saturatingAdd retained (utf8 (fromUtf8Lossy path)).length =
          retained + (utf8 (fromUtf8Lossy path)).length := by
        rw [saturatingAdd]
        omega
      obtain ⟨last, hread⟩ := @ih _ _ (out ++ [fromUtf8Lossy path]) h.advance
        (by omega : retained + (utf8 (fromUtf8Lossy path)).length + pathText paths ≤ maxIndexPathBytes)
      refine ⟨last, ?_⟩
      simp only [List.length_cons, readEntries, readEntry_of_layout first h hbuf, bind, Except.bind, hretained]
      rw [if_neg (by omega), hread, pathText_cons, List.length_append]
      simp [Nat.add_assoc]

theorem layout_of_readEntries {n : Nat} {st st' : Progress} (h : At buf st.pos bytes)
    (hretained : st.retained ≤ maxIndexPathBytes)
    (hread : readEntries version oidLen buf n st = .ok st') :
    ∃ paths entries rest, paths.length = n ∧ bytes = entries ++ rest ∧
      EntriesLayout version oidLen st.previous paths entries ∧ At buf st'.pos rest ∧
      st'.out = st.out ++ paths.map fromUtf8Lossy ∧ st.retained + pathText paths ≤ maxIndexPathBytes := by
  induction n generalizing st bytes with
  | zero =>
      obtain rfl := Except.ok.inj hread
      exact ⟨[], [], bytes, rfl, rfl, .nil, h, by simp, by simpa [pathText] using hretained⟩
  | succ n ih =>
      obtain ⟨⟨path, pos⟩, hentry, hread⟩ := bind_eq_ok.1 hread
      obtain ⟨entry, rest, rfl, hlayout, rfl, hrest⟩ := layout_of_readEntry h hentry
      dsimp only at hread
      split_ifs at hread with hover
      -- Below the budget the sum does not saturate, so what is counted is the text itself.
      have hbudget : maxIndexPathBytes < usizeMax := by decide
      have hexact : saturatingAdd st.retained (utf8 (fromUtf8Lossy path)).length =
          st.retained + (utf8 (fromUtf8Lossy path)).length := by
        rw [saturatingAdd] at hover ⊢
        omega
      rw [hexact] at hover hread
      obtain ⟨paths, entries, rest, rfl, rfl, hentries, hrest', hout, htext⟩ :=
        @ih _ ⟨_, path, _, _⟩ hrest (Nat.not_lt.1 hover) hread
      refine ⟨path :: paths, entry ++ entries, rest, rfl, by rw [List.append_assoc], .cons hlayout hentries, hrest',
        by rw [hout]; simp, ?_⟩
      rw [pathText_cons]
      dsimp only at htext
      omega

end Entries

/-! ## The tail, and the file -/

/-- The header of an extension and the room for its payload: an extension. -/
theorem extension_of_read {pos size stop : Nat} {buf bytes sig : Bytes} (h : At buf pos bytes)
    (hsig : getRange buf pos (pos + 4) = some sig) (hsize : beU32 buf (pos + 4) = some size)
    (hstop : checkedAdd (pos + 8) size = some stop) (hin : stop ≤ buf.length) :
    ∃ (x : Extension) (rest : Bytes), bytes = x.encode ++ rest ∧ x.signature = sig ∧ At buf stop rest := by
  obtain rfl := checkedAdd_eq_some hstop
  obtain ⟨rest, rfl, hfour, hrest⟩ := h.of_getRange hsig
  obtain ⟨number, hnumber, rfl⟩ := Option.map_eq_some_iff.1 hsize
  obtain ⟨rest, rfl, hnumberLen, hrest⟩ := hrest.of_getRange hnumber
  have hfits : beValue number < 2 ^ 32 := by
    have := beValue_lt number
    rw [hnumberLen] at this
    exact this.trans_eq (by norm_num)
  have hat : pos + 4 + 4 = pos + 8 := by omega
  rw [hat] at hrest
  obtain ⟨payload, rest, rfl, hpayload, hrest⟩ := hrest.split hin
  refine ⟨⟨sig, payload, hfour, by omega⟩, rest, ?_, rfl, hrest⟩
  have hsizeBytes : beBytes 4 payload.length = number := by
    rw [hpayload, ← hnumberLen, beBytes_beValue]
  simp [Extension.encode, hsizeBytes]

theorem layout_of_readTail {oidLen pos : Nat} {buf bytes : Bytes} {link link' : Option Bytes} (h : At buf pos bytes)
    (hread : readTail oidLen buf pos link = .ok link') :
    ∃ extensions trailer, bytes = encodeExtensions extensions ++ trailer ∧ trailer.length = oidLen ∧
      ∀ x ∈ extensions, x.Lettered := by
  fun_induction readTail oidLen buf pos link generalizing bytes with
  | case1 pos remaining heq =>
      have hlen := h.length
      exact ⟨[], bytes, rfl, by omega, by simp⟩
  | case9 =>
      rename_i pos link remaining hne hlong size hsize stop hstop hin payload hslice hsig hletters ih
      obtain ⟨x, rest, rfl, hx, hrest⟩ := extension_of_read h hsig hsize hstop (by omega)
      obtain ⟨extensions, trailer, rfl, htrailer, hall⟩ := ih hrest hread
      refine ⟨x :: extensions, trailer, by simp [encodeExtensions], htrailer, ?_⟩
      rw [List.forall_mem_cons]
      exact ⟨by rw [Extension.Lettered, hx]; simpa using hletters, hall⟩
  | case10 =>
      rename_i pos link remaining hne hlong sig hsig hletters size hsize stop hstop hin hlink ih
      obtain ⟨x, rest, rfl, hx, hrest⟩ := extension_of_read h hsig hsize hstop (by omega)
      obtain ⟨extensions, trailer, rfl, htrailer, hall⟩ := ih hrest hread
      refine ⟨x :: extensions, trailer, by simp [encodeExtensions], htrailer, ?_⟩
      rw [List.forall_mem_cons]
      exact ⟨by rw [Extension.Lettered, hx]; simpa using hletters, hall⟩
  | _ => cases hread

theorem beU32_bytes {pos n : Nat} {buf bytes : Bytes} (h : At buf pos bytes) (hread : beU32 buf pos = some n) :
    ∃ rest, bytes = beBytes 4 n ++ rest ∧ n < 2 ^ 32 ∧ At buf (pos + 4) rest := by
  obtain ⟨number, hnumber, rfl⟩ := Option.map_eq_some_iff.1 hread
  obtain ⟨rest, rfl, hlen, hrest⟩ := h.of_getRange hnumber
  have hlt := beValue_lt number
  have hbytes := beBytes_beValue number
  rw [hlen] at hlt hbytes
  exact ⟨rest, by rw [hbytes], hlt.trans_eq (by norm_num), hrest⟩

section File

variable {oidLen : Nat} {buf : Bytes}

/-- What is laid out as an index is parsed to the paths of the layout. -/
theorem parseIndex_of_layout {paths : List Bytes} {extensions : List Extension} (hbuf : buf.length < 2 ^ 63)
    (h : Layout oidLen buf paths extensions) :
    parseIndex buf oidLen = .ok ⟨paths.map fromUtf8Lossy, lastLink extensions none⟩ := by
  obtain ⟨version, entries, trailer, hlow, hhigh, hentries, htrailer, hbytes⟩ := h.shape
  have hdirc : (utf8 "DIRC".toList).length = 4 := by decide
  have hstart : At buf 0 (utf8 "DIRC".toList ++ (beBytes 4 version ++ (beBytes 4 paths.length ++
      (entries ++ (encodeExtensions extensions ++ trailer))))) := by
    rw [← hbytes]
    exact at_zero buf
  have hversionAt := hstart.advance
  rw [hdirc] at hversionAt
  have hcountAt := hversionAt.advance
  rw [length_beBytes] at hcountAt
  have hentriesAt := hcountAt.advance
  rw [length_beBytes] at hentriesAt
  have hlen := hentriesAt.length
  have hsignature : slice buf 0 4 = .ok (utf8 "DIRC".toList) := by
    have hrange := hstart.getRange
    rw [hdirc] at hrange
    exact slice_eq_ok.2 hrange
  have hversion : beU32 buf 4 = some version := beU32_at (by omega) hversionAt
  have hcount : beU32 buf 8 = some paths.length := beU32_at h.countFits hcountAt
  -- The three refusals of the header.
  have hshort : ¬ buf.length < 12 := by omega
  have hknown : ¬ (version < 2 ∨ 4 < version) := by omega
  -- Every entry takes at least its fixed part, the flags and a NUL.
  have hroom : ¬ buf.length < saturatingMul paths.length (40 + oidLen + 2 + 1) := by
    have hle := hentries.le_length
    rw [List.length_append] at hlen
    rw [saturatingMul]
    omega
  obtain ⟨last, hread⟩ := @readEntries_of_layout version oidLen buf _ _ _ _ hentries 12 0 [] hentriesAt hbuf
    (by rw [Nat.zero_add]; exact h.text)
  have htail : readTail oidLen buf (12 + entries.length) none = .ok (lastLink extensions none) := by
    rw [readTail_encode extensions hentriesAt.advance hbuf htrailer, if_pos h.lettered]
  simp only [parseIndex, if_neg hshort, hsignature, hversion, if_neg hknown, hcount, if_neg hroom, orUnreadable, bind,
    Except.bind, pure, Except.pure, ne_eq, not_true_eq_false, if_false, hread, htail, List.nil_append]

/-- What is parsed is laid out as an index. -/
theorem layout_of_parseIndex {parsed : ParsedIndex} (h : parseIndex buf oidLen = .ok parsed) :
    ∃ paths extensions, Layout oidLen buf paths extensions := by
  unfold parseIndex at h
  split_ifs at h with hshort
  · cases h
  · obtain ⟨signature, hsignature, h⟩ := bind_eq_ok.1 h
    split_ifs at h with hdirc
    · cases h
    · obtain rfl : signature = utf8 "DIRC".toList := not_not.1 hdirc
      obtain ⟨version, hversion, h⟩ := bind_eq_ok.1 h
      split_ifs at h with hknown
      · cases h
      · obtain ⟨count, hcount, h⟩ := bind_eq_ok.1 h
        split_ifs at h with hroom
        · cases h
        · obtain ⟨st, hread, h⟩ := bind_eq_ok.1 h
          obtain ⟨link, htail, -⟩ := bind_eq_ok.1 h
          obtain ⟨rest, hbytes, -, hrest⟩ := (at_zero buf).of_getRange (n := 4) (slice_eq_ok.1 hsignature)
          obtain ⟨rest, rfl, -, hrest⟩ := beU32_bytes hrest (orUnreadable_eq_ok.1 hversion)
          obtain ⟨rest, rfl, hfits, hrest⟩ := beU32_bytes hrest (orUnreadable_eq_ok.1 hcount)
          obtain ⟨paths, entries, rest, rfl, rfl, hentries, hrest, -, htext⟩ :=
            @layout_of_readEntries _ _ _ _ _ ⟨12, [], 0, []⟩ _ hrest (Nat.zero_le _) hread
          obtain ⟨extensions, trailer, rfl, htrailer, hall⟩ := layout_of_readTail hrest htail
          exact ⟨paths, extensions, ⟨version, entries, trailer, by omega, by omega, hentries, htrailer, hbytes⟩,
            hfits, hall, by rwa [Nat.zero_add] at htext⟩

/-- The parser accepts exactly what is laid out as an index. -/
theorem parseIndex_ok_iff (hbuf : buf.length < 2 ^ 63) :
    (∃ parsed, parseIndex buf oidLen = .ok parsed) ↔ ∃ paths extensions, Layout oidLen buf paths extensions :=
  ⟨fun ⟨_, h⟩ => layout_of_parseIndex h, fun ⟨_, _, h⟩ => ⟨_, parseIndex_of_layout hbuf h⟩⟩

end File

/-! ## The probe -/

/-- What an index with these contents tracks. -/
def trackedOf (files : GitDir) (parsed : ParsedIndex) (oidLen : Nat) : Except ViewLimit (Finset Str) :=
  match parsed.link with
  | none => .ok (named parsed.paths)
  | some link => resolveSplitIndex files parsed.paths link oidLen

theorem readIndex_of_parse {files : GitDir} {size oidLen : Nat} {buf : Bytes} {parsed : ParsedIndex}
    (hsize : size ≤ maxIndexBytes) (hfile : files "index".toList = .file size (.ok buf))
    (h : parseEither buf = .ok (parsed, oidLen)) : readIndex files = trackedOf files parsed oidLen := by
  unfold readIndex
  rw [hfile]
  simp only [if_neg (Nat.not_lt.2 hsize), h]
  rfl

theorem readIndex_of_error {files : GitDir} {size : Nat} {buf : Bytes} {limit : ViewLimit}
    (hsize : size ≤ maxIndexBytes) (hfile : files "index".toList = .file size (.ok buf))
    (h : parseEither buf = .error limit) : readIndex files = .error limit := by
  unfold readIndex
  rw [hfile]
  simp only [if_neg (Nat.not_lt.2 hsize), h]

/-- An index with object ids of 32 bytes is not parsed with 20, and what it tracks is read, or that it cannot be. -/
def ReadAsItIs {version : Nat} (f : IndexFile version 32) (files : GitDir) : Prop :=
  (∀ parsed, parseIndex f.encode 20 ≠ .ok parsed) ∧
    (∀ parsed, f.contents = .ok parsed → readIndex files = trackedOf files parsed 32) ∧
    ∀ stop, f.contents = .error stop → ∃ limit, readIndex files = .error limit

/-- An index is read as it is exactly when its bytes are not laid out as one with object ids of 20 bytes as well. -/
theorem probe_iff {version : Nat} (f : IndexFile version 32) {files : GitDir} {size : Nat}
    (hsize : size ≤ maxIndexBytes) (hfile : files "index".toList = .file size (.ok f.encode)) :
    ReadAsItIs f files ↔ ¬∃ paths extensions, Layout 20 f.encode paths extensions := by
  have hbuf : f.encode.length < 2 ^ 63 := f.fits
  rw [← parseIndex_ok_iff hbuf]
  refine ⟨fun h ⟨parsed, hparsed⟩ => h.1 parsed hparsed, fun h => ?_⟩
  have hnot : ∀ parsed, parseIndex f.encode 20 ≠ .ok parsed := fun parsed hparsed => h ⟨parsed, hparsed⟩
  -- The second reading is reached only when the first one fails.
  obtain ⟨sha1, hsha1⟩ : ∃ sha1, parseIndex f.encode 20 = .error sha1 := by
    cases hparse : parseIndex f.encode 20 with
    | ok parsed => exact absurd hparse (hnot parsed)
    | error sha1 => exact ⟨sha1, rfl⟩
  refine ⟨hnot, fun parsed hparsed => ?_, fun stop hstop => ⟨sha1.intoLimit, ?_⟩⟩
  · refine readIndex_of_parse hsize hfile ?_
    rw [parseEither, hsha1, parseIndex_eq_contents, hparsed]
  · refine readIndex_of_error hsize hfile ?_
    rw [parseEither, hsha1, parseIndex_eq_contents, hstop]

/-- A file of one entry. -/
def oneEntryFile {version oidLen : Nat} (e : IndexEntry version oidLen) (trailer : Bytes)
    (h : (2 ≤ version ∧ version ≤ 4) ∧ trailer.length = oidLen ∧ (fileBytes [e] [] trailer).length < 2 ^ 63) :
    IndexFile version oidLen where
  entries := [e]
  extensions := []
  trailer := trailer
  supported := h.1
  countFits := by norm_num
  trailerLen := h.2.1
  fits := h.2.2

/-- One path, and an object id whose last ten bytes are a text. -/
def doubleEntry : IndexEntry 2 32 where
  stat := zeroStat
  oid := List.replicate 22 0 ++ utf8 "0123456789".toList
  flags := 1
  extendedFlags := none
  path := utf8 "a".toList
  keep := 0
  statLen := length_zeroStat
  oidLen := by decide
  flagsFit := by norm_num
  extended := by decide
  allowed := by simp
  noNul := by decide

/-- The file of that entry, with a checksum that begins like an extension. -/
def doubleFile : IndexFile 2 32 :=
  oneEntryFile doubleEntry (utf8 "TREE".toList ++ ([0, 0, 0, 4] ++ List.replicate 24 0)) (by decide +kernel)

theorem doubleFile_layout : Layout 20 doubleFile.encode [utf8 "0123456789".toList]
    [⟨utf8 "TREE".toList, List.replicate 4 0, by decide, by decide⟩] := by
  -- The text of the object id is read as a path, and the path as what the entry is padded with.
  have hentry : EntryLayout 2 20 [] (utf8 "0123456789".toList) (List.replicate 60 0 ++
      ([0, 0] ++ (utf8 "0123456789".toList ++ 0 :: [1, 0x61, 0, 0, 0, 0, 0]))) :=
    .padded (by decide) (by decide) (.plain (by decide) (by decide)) (by decide) (by decide) (by decide +kernel)
  exact ⟨⟨2, _, List.replicate 20 0, le_rfl, by decide, .cons hentry .nil, by decide, by decide +kernel⟩,
    by decide, by decide, by decide +kernel⟩

theorem probe_iff_double : ¬ReadAsItIs doubleFile (oneFile "index".toList doubleFile.encode) := fun h =>
  (probe_iff doubleFile (by decide +kernel : doubleFile.encode.length ≤ maxIndexBytes) (if_pos rfl)).1 h
    ⟨_, _, doubleFile_layout⟩

/-- The index is parsed with the length that is not its own, and read as a path that it does not have. -/
theorem double_file_misread :
    doubleFile.contents = .ok ⟨["a".toList], none⟩ ∧
      parseIndex doubleFile.encode 20 = .ok ⟨["0123456789".toList], none⟩ ∧
      readIndex (oneFile "index".toList doubleFile.encode) = .ok {"0123456789".toList} := by
  have hbuf : doubleFile.encode.length < 2 ^ 63 := doubleFile.fits
  have hparse : parseIndex doubleFile.encode 20 = .ok ⟨["0123456789".toList], none⟩ := by
    have htext : fromUtf8Lossy (utf8 "0123456789".toList) = "0123456789".toList := fromUtf8Lossy_utf8 _
    rw [parseIndex_of_layout hbuf doubleFile_layout, List.map_singleton, htext]
    rfl
  refine ⟨?_, hparse, ?_⟩
  · rw [IndexFile.contents, if_neg (by decide +kernel), if_pos (by decide)]
    exact congrArg _ (by decide +kernel)
  · have heither : parseEither doubleFile.encode = .ok (⟨["0123456789".toList], none⟩, 20) := by
      rw [parseEither, hparse]
    rw [readIndex_of_parse (by decide +kernel : doubleFile.encode.length ≤ maxIndexBytes) (if_pos rfl) heither]
    rfl

end Tethra.GitIndex
