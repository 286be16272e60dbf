import Tethra.Core.GitIndex

set_option autoImplicit false

/-! # The `DIRC` format

An index as git writes it: a header, entries, extensions and a trailer. A path of version 4 may keep any
common prefix of the path before it. What `parse_index` reads out of such a file are the paths as text
and the last `link` payload, unless the text is over the budget (`parseIndex_encode`). -/

namespace Tethra.GitIndex

open Gateway Buffer

/-! ## Numbers of variable length -/

/-- All bytes of a number, each with the bit that says that another follows. -/
def continued (v : Nat) : Bytes :=
  if v < 128 then [UInt8.ofNat (128 + v)]
  else continued (v / 128 - 1) ++ [UInt8.ofNat (128 + v % 128)]
termination_by v
decreasing_by omega

/-- Git's `encode_varint`. -/
def encodeVarint (v : Nat) : Bytes :=
  if v < 128 then [UInt8.ofNat v] else continued (v / 128 - 1) ++ [UInt8.ofNat (v % 128)]

/-- One more byte behind one that continues. -/
theorem varintLoop_step {v : Nat} {c b : UInt8} {rest : Bytes} {pos : Nat} (hc : 128 ≤ c.toNat)
    (hv : (v + 1) * 128 + b.toNat % 128 < 2 ^ 64) :
    varintLoop v c (b :: rest) pos
      = varintLoop ((v + 1) * 128 + b.toNat % 128) b rest (pos + 1) := by
  have hmod : (v + 1) * 128 % 2 ^ 64 = (v + 1) * 128 := Nat.mod_eq_of_lt (by omega)
  conv_lhs => unfold varintLoop
  rw [if_neg (by omega), if_neg (by omega)]
  simp only [hmod]
  rw [if_neg (by omega)]

/-- The reading of a list of bytes from its start. -/
def varintAt (bytes : Bytes) (pos : Nat) : Option (Nat × Nat) :=
  match bytes with
  | [] => none
  | c :: rest => varintLoop (c.toNat % 128) c rest (pos + 1)

theorem varintAt_continued {v : Nat} (hv : v < 2 ^ 63) (more : Bytes) (pos : Nat) :
    ∃ c : UInt8, 128 ≤ c.toNat ∧
      varintAt (continued v ++ more) pos = varintLoop v c more (pos + (continued v).length) := by
  induction v using Nat.strong_induction_on generalizing more with
  | _ v ih =>
    by_cases hsmall : v < 128
    · have hbyte : (UInt8.ofNat (128 + v)).toNat = 128 + v := by
        simp
        omega
      refine ⟨UInt8.ofNat (128 + v), by omega, ?_⟩
      rw [continued, if_pos hsmall, List.singleton_append, varintAt, hbyte, Nat.add_mod_left,
        Nat.mod_eq_of_lt hsmall, List.length_singleton]
    · have hbyte : (UInt8.ofNat (128 + v % 128)).toNat = 128 + v % 128 := by
        simp
        omega
      obtain ⟨c, hc, hread⟩ := ih (v / 128 - 1) (by omega) (by omega)
        (UInt8.ofNat (128 + v % 128) :: more)
      refine ⟨UInt8.ofNat (128 + v % 128), by omega, ?_⟩
      rw [continued, if_neg hsmall, List.append_assoc, List.singleton_append, hread,
        varintLoop_step hc (by rw [hbyte]; omega), hbyte, List.length_append, List.length_singleton]
      congr 1
      omega

theorem decodeVarint_encodeVarint {buf rest : Bytes} {pos v : Nat} (hv : v < 2 ^ 63)
    (h : At buf pos (encodeVarint v ++ rest)) :
    decodeVarint buf pos = some (v, pos + (encodeVarint v).length) := by
  have hread : decodeVarint buf pos = varintAt (encodeVarint v ++ rest) pos := by
    rw [decodeVarint, h.rest]
    rfl
  rw [hread]
  by_cases hsmall : v < 128
  · have hbyte : (UInt8.ofNat v).toNat = v := by
      simp
      omega
    rw [encodeVarint, if_pos hsmall, List.singleton_append, varintAt, hbyte, varintLoop.eq_def,
      if_pos (by omega), Nat.mod_eq_of_lt hsmall, List.length_singleton]
  · have hbyte : (UInt8.ofNat (v % 128)).toNat = v % 128 := by
      simp
      omega
    rw [encodeVarint, if_neg hsmall, List.append_assoc, List.singleton_append]
    obtain ⟨c, hc, hread⟩ := varintAt_continued (v := v / 128 - 1) (by omega)
      (UInt8.ofNat (v % 128) :: rest) pos
    rw [hread, varintLoop_step hc (by rw [hbyte]; omega), hbyte, varintLoop.eq_def,
      if_pos (by omega), List.length_append, List.length_singleton]
    congr 2
    omega

/-! ## Entries -/

/-- An entry: its stat data, object id and flags, its path, and how much of the path before it the writer
    would keep. -/
structure IndexEntry (version oidLen : Nat) where
  stat : Bytes
  oid : Bytes
  flags : Nat
  extendedFlags : Option Nat
  path : Bytes
  keep : Nat
  statLen : stat.length = 40
  oidLen : oid.length = oidLen
  flagsFit : flags < 2 ^ 16
  extended : flags.testBit 14 = extendedFlags.isSome
  allowed : extendedFlags.isSome = true → 3 ≤ version
  noNul : 0 ∉ path

def commonLength : Bytes → Bytes → Nat
  | a :: as, b :: bs => if a = b then commonLength as bs + 1 else 0
  | _, _ => 0

theorem commonLength_le (as bs : Bytes) : commonLength as bs ≤ as.length := by
  induction as generalizing bs with
  | nil => simp [commonLength]
  | cons a as ih =>
      cases bs with
      | nil => simp [commonLength]
      | cons b bs =>
          simp only [commonLength, List.length_cons]
          split_ifs
          · exact Nat.succ_le_succ (ih bs)
          · exact Nat.zero_le _

theorem take_of_le_commonLength {as bs : Bytes} {n : Nat} (h : n ≤ commonLength as bs) :
    as.take n = bs.take n := by
  induction as generalizing bs n with
  | nil =>
      have hzero : n = 0 := by simpa [commonLength] using h
      simp [hzero]
  | cons a as ih =>
      cases bs with
      | nil =>
          have hzero : n = 0 := by simpa [commonLength] using h
          simp [hzero]
      | cons b bs =>
          simp only [commonLength] at h
          split_ifs at h with hab
          · cases n with
            | zero => rfl
            | succ n => rw [List.take_succ_cons, List.take_succ_cons, hab, @ih bs n (by omega)]
          · have hzero : n = 0 := by omega
            simp [hzero]

section Entry

variable {version oidLen : Nat} (e : IndexEntry version oidLen) (previous : Bytes)

def IndexEntry.head : Bytes :=
  e.stat ++ (e.oid ++ (beBytes 2 e.flags ++ (e.extendedFlags.map (beBytes 2)).getD []))

/-- The length of the prefix that the entry keeps of the path before it. -/
def IndexEntry.kept : Nat := min e.keep (commonLength previous e.path)

/-- The path, and the NULs behind it. -/
def IndexEntry.name : Bytes :=
  if version = 4 then
    encodeVarint (previous.length - e.kept previous) ++ (e.path.drop (e.kept previous) ++ [0])
  else e.path ++ List.replicate (8 - (e.head.length + e.path.length) % 8) 0

def IndexEntry.encode : Bytes := e.head ++ e.name previous

variable {e previous} {buf rest : Bytes} {pos start : Nat}

theorem IndexEntry.length_head :
    e.head.length = 42 + oidLen + if e.extendedFlags.isSome then 2 else 0 := by
  cases hext : e.extendedFlags <;> simp [head, hext, e.statLen, e.oidLen] <;> omega

theorem readFlags_head (h : At buf pos (e.head ++ rest)) (hbuf : buf.length < 2 ^ 63) :
    readFlags version oidLen buf pos = .ok (pos + e.head.length) := by
  have hlen := h.length
  rw [List.length_append, e.length_head] at hlen
  have hoid := e.oidLen
  -- The reader behind the object id.
  have hflagsAt : At buf (pos + 40 + oidLen)
      (beBytes 2 e.flags ++ ((e.extendedFlags.map (beBytes 2)).getD [] ++ rest)) := by
    have hstat : At buf pos (e.stat ++ (e.oid ++
        (beBytes 2 e.flags ++ ((e.extendedFlags.map (beBytes 2)).getD [] ++ rest)))) := by
      simpa [IndexEntry.head] using h
    have hbehind := hstat.advance.advance
    rwa [e.statLen, e.oidLen] at hbehind
  have hflags : beU16 buf (pos + 40 + oidLen) = some e.flags := by
    have hrange := hflagsAt.getRange
    rw [length_beBytes] at hrange
    rw [beU16, hrange, Option.map_some, beValue_beBytes e.flagsFit]
  have hadd : (checkedAdd pos 40).bind (checkedAdd · oidLen) = some (pos + 40 + oidLen) := by
    have h40 : pos + 40 ≤ usizeMax := by
      rw [usizeMax]
      omega
    have hall : pos + 40 + oidLen ≤ usizeMax := by
      rw [usizeMax]
      omega
    rw [checkedAdd, if_pos h40, Option.bind_some, checkedAdd, if_pos hall]
  simp only [readFlags, hadd, orUnreadable, hflags, bind, Except.bind, pure, Except.pure, e.extended,
    e.length_head]
  by_cases hext : e.extendedFlags.isSome = true
  · have hversion := e.allowed hext
    rw [if_pos hext] at hlen
    rw [if_pos hext, if_neg (by omega), if_neg (by omega), if_pos hext]
    congr 1
    omega
  · rw [if_neg hext, if_neg hext]
    congr 1
    omega

theorem readName_nul {name : Bytes} (h : At buf pos (name ++ 0 :: rest)) (hname : 0 ∉ name) :
    readName buf pos = .ok (name, pos + name.length + 1) := by
  have hlen := h.length
  have htail : sliceFrom buf pos = .ok (name ++ 0 :: rest) := by
    have hall : At buf pos ((name ++ 0 :: rest) ++ []) := by simpa using h
    have hrange := hall.getRange
    rw [← hlen] at hrange
    exact slice_eq_ok.2 hrange
  have hnul : (name ++ 0 :: rest).findIdx? (· = 0) = some name.length := by
    rw [List.findIdx?_append]
    have hnone : name.findIdx? (· = 0) = none := by
      rw [List.findIdx?_eq_none_iff]
      intro b hb
      simp only [decide_eq_false_iff_not]
      rintro rfl
      exact hname hb
    simp [hnone, List.findIdx?_cons]
  simp only [readName, htail, orUnreadable, hnul, bind, Except.bind, pure, Except.pure,
    slice_eq_ok.2 h.getRange]

theorem readPath_prefixed (hversion : version = 4) (h : At buf pos (e.name previous ++ rest))
    (hprevious : previous.length < 2 ^ 63) :
    readPath version buf start pos previous = .ok (e.path, pos + (e.name previous).length) := by
  have hcommon : e.kept previous ≤ commonLength previous e.path := min_le_right _ _
  have hkept : e.kept previous ≤ previous.length := hcommon.trans (commonLength_le _ _)
  have hsuffix : 0 ∉ e.path.drop (e.kept previous) := fun hmem => e.noNul (List.mem_of_mem_drop hmem)
  rw [IndexEntry.name, if_pos hversion, List.append_assoc] at h
  have hstrip := decodeVarint_encodeVarint (v := previous.length - e.kept previous) (by omega) h
  have hname := h.advance
  rw [List.append_assoc, List.singleton_append] at hname
  have hkeeps : slice previous 0 (e.kept previous) = .ok (previous.take (e.kept previous)) := by
    rw [slice_eq_ok, getRange, if_pos ⟨Nat.zero_le _, hkept⟩, List.drop_zero]
  have hback : previous.length - (previous.length - e.kept previous) = e.kept previous := by omega
  -- What is kept of the path before is the start of this path.
  have hpath : previous.take (e.kept previous) ++ e.path.drop (e.kept previous) = e.path := by
    rw [take_of_le_commonLength hcommon, List.take_append_drop]
  simp only [readPath, if_pos hversion, hstrip, orUnreadable, bind, Except.bind, pure, Except.pure,
    if_neg (Nat.not_lt.2 (Nat.sub_le _ (e.kept previous))), readName_nul hname hsuffix, hback, hkeeps,
    hpath, IndexEntry.name, List.length_append, List.length_singleton, Nat.add_assoc]

theorem readPath_padded (hversion : version ≠ 4)
    (h : At buf (start + e.head.length) (e.name previous ++ rest)) :
    readPath version buf start (start + e.head.length) previous
      = .ok (e.path, start + e.head.length + (e.name previous).length) := by
  have hlen := h.length
  obtain ⟨k, hk⟩ : ∃ k, 8 - (e.head.length + e.path.length) % 8 = k + 1 :=
    ⟨7 - (e.head.length + e.path.length) % 8, by omega⟩
  have hname : e.name previous = e.path ++ 0 :: List.replicate k 0 := by
    rw [IndexEntry.name, if_neg hversion, hk, List.replicate_succ]
  have hnameLen : (e.name previous).length = e.path.length + (k + 1) := by simp [hname]
  rw [hname, List.append_assoc, List.cons_append] at h
  rw [List.length_append, hnameLen] at hlen
  -- The end of the padding, measured from the start of the entry.
  have hpad : start + (start + e.head.length + e.path.length + 1 - start + 7) / 8 * 8
      = start + e.head.length + (e.path.length + (k + 1)) := by omega
  simp only [readPath, if_neg hversion, readName_nul h e.noNul, bind, Except.bind, pure, Except.pure,
    hpad, hnameLen]
  rw [if_neg (by omega)]

theorem readEntry_encode (h : At buf pos (e.encode previous ++ rest)) (hbuf : buf.length < 2 ^ 63)
    (hprevious : previous.length < 2 ^ 63) :
    readEntry version oidLen buf pos previous = .ok (e.path, pos + (e.encode previous).length) := by
  rw [IndexEntry.encode, List.append_assoc] at h
  have hflags := readFlags_head h hbuf
  have hpath : readPath version buf pos (pos + e.head.length) previous
      = .ok (e.path, pos + e.head.length + (e.name previous).length) := by
    by_cases hversion : version = 4
    · exact readPath_prefixed hversion h.advance hprevious
    · exact readPath_padded hversion h.advance
  simp only [readEntry, hflags, bind, Except.bind, hpath, IndexEntry.encode, List.length_append,
    Nat.add_assoc]

theorem IndexEntry.length_path_le : e.path.length ≤ previous.length + (e.encode previous).length := by
  have hkept : e.kept previous ≤ previous.length :=
    (min_le_right _ _).trans (commonLength_le _ _)
  rw [IndexEntry.encode, IndexEntry.name]
  split_ifs
  · simp only [List.length_append, List.length_drop]
    omega
  · simp only [List.length_append]
    omega

/-- The least length of an entry that the parser counts with. -/
theorem IndexEntry.le_length_encode : 40 + oidLen + 2 + 1 ≤ (e.encode previous).length := by
  have hname : 1 ≤ (e.name previous).length := by
    rw [IndexEntry.name]
    split_ifs
    · simp only [List.length_append, List.length_singleton]
      omega
    · simp only [List.length_append, List.length_replicate]
      omega
  rw [IndexEntry.encode, List.length_append, e.length_head]
  omega

end Entry

section Entries

variable {version oidLen : Nat}

/-- The entries one behind the other, each next to the path before it. -/
def encodeEntries : List (IndexEntry version oidLen) → Bytes → Bytes
  | [], _ => []
  | e :: es, previous => e.encode previous ++ encodeEntries es e.path

def texts (es : List (IndexEntry version oidLen)) : List Str := es.map fun e => fromUtf8Lossy e.path

def textBytes (es : List (IndexEntry version oidLen)) : Nat :=
  ((texts es).map fun t => (utf8 t).length).sum

theorem textBytes_cons (e : IndexEntry version oidLen) (es : List (IndexEntry version oidLen)) :
    textBytes (e :: es) = (utf8 (fromUtf8Lossy e.path)).length + textBytes es := by
  simp [textBytes, texts]

theorem readEntries_encode {buf rest : Bytes} (es : List (IndexEntry version oidLen)) (st : Progress)
    (h : At buf st.pos (encodeEntries es st.previous ++ rest)) (hbuf : buf.length < 2 ^ 63)
    (hprevious : st.previous.length ≤ st.pos) (hretained : st.retained ≤ maxIndexPathBytes) :
    (maxIndexPathBytes < st.retained + textBytes es →
        readEntries version oidLen buf es.length st = .error (.failed .pathBudget)) ∧
      (st.retained + textBytes es ≤ maxIndexPathBytes → ∃ previous,
        readEntries version oidLen buf es.length st
          = .ok ⟨st.pos + (encodeEntries es st.previous).length, previous, st.retained + textBytes es,
              st.out ++ texts es⟩) := by
  induction es generalizing st with
  | nil =>
      refine ⟨fun hover => ?_, fun _ => ⟨st.previous, ?_⟩⟩
      · simp [textBytes, texts] at hover
        omega
      · simp [readEntries, encodeEntries, textBytes, texts]
  | cons e es ih =>
      rw [encodeEntries, List.append_assoc] at h
      have hentry := readEntry_encode h hbuf ((hprevious.trans h.inside).trans_lt hbuf)
      have hbudget : maxIndexPathBytes < usizeMax := by decide
      simp only [List.length_cons, readEntries, hentry, bind, Except.bind]
      rw [textBytes_cons]
      by_cases hover : maxIndexPathBytes < st.retained + (utf8 (fromUtf8Lossy e.path)).length
      · rw [if_pos (by rw [saturatingAdd]; omega)]
        exact ⟨fun _ => rfl, fun hle => by omega⟩
      · have hexact : saturatingAdd st.retained (utf8 (fromUtf8Lossy e.path)).length
            = st.retained + (utf8 (fromUtf8Lossy e.path)).length := by
          rw [saturatingAdd]
          omega
        rw [hexact, if_neg hover]
        have hnext := ih ⟨st.pos + (e.encode st.previous).length, e.path, _,
            st.out ++ [fromUtf8Lossy e.path]⟩ h.advance
          (e.length_path_le.trans (Nat.add_le_add_right hprevious _)) (Nat.not_lt.1 hover)
        simpa [encodeEntries, texts, Nat.add_assoc] using hnext

theorem le_length_encodeEntries (es : List (IndexEntry version oidLen)) (previous : Bytes) :
    es.length * (40 + oidLen + 2 + 1) ≤ (encodeEntries es previous).length := by
  induction es generalizing previous with
  | nil => simp
  | cons e es ih =>
      have hentry := @IndexEntry.le_length_encode version oidLen e previous
      have hrest := ih e.path
      rw [List.length_cons, Nat.succ_mul, encodeEntries, List.length_append]
      omega

end Entries

/-! ## Extensions -/

structure Extension where
  signature : Bytes
  payload : Bytes
  four : signature.length = 4
  fits : payload.length < 2 ^ 32

def Extension.encode (x : Extension) : Bytes :=
  x.signature ++ (beBytes 4 x.payload.length ++ x.payload)

/-- The signatures that the parser goes past. -/
def Extension.Lettered (x : Extension) : Prop :=
  (x.signature.all fun b => Text.isAsciiAlphabetic (charOf b)) = true

instance (x : Extension) : Decidable x.Lettered := inferInstanceAs (Decidable (_ = true))

/-- The payload of the last `link` extension. -/
def lastLink (xs : List Extension) (link : Option Bytes) : Option Bytes :=
  xs.foldl (fun link x => if x.signature = utf8 "link".toList then some x.payload else link) link

def encodeExtensions (xs : List Extension) : Bytes := xs.flatMap Extension.encode

section Tail

variable {oidLen : Nat} {buf rest trailer : Bytes} {pos : Nat} {link : Option Bytes} {x : Extension}

theorem beU32_at {v : Nat} (hv : v < 2 ^ 32) (h : At buf pos (beBytes 4 v ++ rest)) :
    beU32 buf pos = some v := by
  have hrange := h.getRange
  rw [length_beBytes] at hrange
  rw [beU32, hrange, Option.map_some, beValue_beBytes (by simpa using hv)]

theorem readTail_trailer (h : At buf pos trailer) (htrailer : trailer.length = oidLen) :
    readTail oidLen buf pos link = .ok link := by
  have hlen := h.length
  rw [readTail, dif_pos (by omega)]

theorem readTail_extension (h : At buf pos (x.encode ++ rest)) (hbuf : buf.length < 2 ^ 63)
    (hrest : oidLen ≤ rest.length) :
    readTail oidLen buf pos link
      = if x.Lettered then readTail oidLen buf (pos + x.encode.length) (lastLink [x] link)
        else unreadable "unrecognised bytes where an extension header was expected" := by
  have hlen := h.length
  have hsize : x.encode.length = 8 + x.payload.length := by
    simp [Extension.encode, x.four]
    omega
  rw [List.length_append, hsize] at hlen
  rw [Extension.encode, List.append_assoc, List.append_assoc] at h
  have hsig := h.getRange
  have hsizeAt := h.advance
  rw [x.four] at hsig hsizeAt
  have hbe := beU32_at x.fits hsizeAt
  have hpayloadAt := hsizeAt.advance
  rw [length_beBytes] at hpayloadAt
  have hpayload : slice buf (pos + 8) (pos + 8 + x.payload.length) = .ok x.payload :=
    slice_eq_ok.2 hpayloadAt.getRange
  have hstop : checkedAdd (pos + 8) x.payload.length = some (pos + 8 + x.payload.length) := by
    rw [checkedAdd, if_pos]
    rw [usizeMax]
    omega
  rw [readTail, dif_neg (by omega), dif_neg (by omega), hsig, hbe]
  by_cases hletters : x.Lettered
  · have hinside : ¬ buf.length - oidLen < pos + 8 + x.payload.length := by omega
    have hall : (!x.signature.all fun b => Text.isAsciiAlphabetic (charOf b)) = false := by
      rw [Bool.not_eq_false']
      exact hletters
    simp only [hall, if_pos hletters, hsize, lastLink, List.foldl_cons, List.foldl_nil,
      Bool.false_eq_true, if_false]
    split
    · rename_i hnone
      rw [hstop] at hnone
      cases hnone
    · rename_i stop hsome
      rw [hstop] at hsome
      obtain rfl := Option.some.inj hsome
      rw [if_neg hinside, hpayload, Nat.add_assoc]
      split_ifs <;> rfl
  · have hall : (!x.signature.all fun b => Text.isAsciiAlphabetic (charOf b)) = true := by
      rw [Bool.not_eq_true', ← Bool.not_eq_true]
      exact hletters
    simp only [hall, if_neg hletters, if_true]

theorem le_length_encodeExtensions (xs : List Extension) (htrailer : trailer.length = oidLen) :
    oidLen ≤ (encodeExtensions xs ++ trailer).length := by
  rw [List.length_append, htrailer]
  exact Nat.le_add_left _ _

theorem readTail_encode (xs : List Extension) (h : At buf pos (encodeExtensions xs ++ trailer))
    (hbuf : buf.length < 2 ^ 63) (htrailer : trailer.length = oidLen) :
    readTail oidLen buf pos link
      = if ∀ x ∈ xs, x.Lettered then .ok (lastLink xs link)
        else unreadable "unrecognised bytes where an extension header was expected" := by
  induction xs generalizing pos link with
  | nil =>
      rw [if_pos (by simp)]
      exact readTail_trailer h htrailer
  | cons x xs ih =>
      rw [encodeExtensions, List.flatMap_cons, List.append_assoc, ← encodeExtensions] at h
      rw [readTail_extension h hbuf (le_length_encodeExtensions xs htrailer), ih h.advance]
      by_cases hletters : x.Lettered <;> simp [hletters, lastLink]

end Tail

/-! ## Files -/

section File

variable {version oidLen : Nat}

/-- The bytes of an index. -/
def fileBytes (entries : List (IndexEntry version oidLen)) (extensions : List Extension)
    (trailer : Bytes) : Bytes :=
  utf8 "DIRC".toList ++ (beBytes 4 version ++ (beBytes 4 entries.length ++
    (encodeEntries entries [] ++ (encodeExtensions extensions ++ trailer))))

/-- An index that fits in memory. -/
structure IndexFile (version oidLen : Nat) where
  entries : List (IndexEntry version oidLen)
  extensions : List Extension
  trailer : Bytes
  supported : 2 ≤ version ∧ version ≤ 4
  countFits : entries.length < 2 ^ 32
  trailerLen : trailer.length = oidLen
  fits : (fileBytes entries extensions trailer).length < 2 ^ 63

def IndexFile.encode (f : IndexFile version oidLen) : Bytes :=
  fileBytes f.entries f.extensions f.trailer

/-- What is read out of the file. -/
def IndexFile.contents (f : IndexFile version oidLen) : Except Stop ParsedIndex :=
  if maxIndexPathBytes < textBytes f.entries then .error (.failed .pathBudget)
  else if ∀ x ∈ f.extensions, x.Lettered then .ok ⟨texts f.entries, lastLink f.extensions none⟩
  else unreadable "unrecognised bytes where an extension header was expected"

theorem parseIndex_eq_contents (f : IndexFile version oidLen) :
    parseIndex f.encode oidLen = f.contents := by
  have hbuf : f.encode.length < 2 ^ 63 := f.fits
  have hsupported := f.supported
  have hdirc : (utf8 "DIRC".toList).length = 4 := by decide
  -- The reader at the four fields of the header, and behind it.
  have hstart : At f.encode 0 (utf8 "DIRC".toList ++ (beBytes 4 version ++ (beBytes 4 f.entries.length ++
      (encodeEntries f.entries [] ++ (encodeExtensions f.extensions ++ f.trailer))))) := at_zero _
  have hversionAt := hstart.advance
  rw [hdirc] at hversionAt
  have hcountAt := hversionAt.advance
  rw [length_beBytes] at hcountAt
  have hentriesAt := hcountAt.advance
  rw [length_beBytes] at hentriesAt
  have hlen := hentriesAt.length
  have hsignature : slice f.encode 0 4 = .ok (utf8 "DIRC".toList) := by
    have hrange := hstart.getRange
    rw [hdirc] at hrange
    exact slice_eq_ok.2 hrange
  have hversion : beU32 f.encode 4 = some version := beU32_at (by omega) hversionAt
  have hcount : beU32 f.encode 8 = some f.entries.length := beU32_at f.countFits hcountAt
  have hshort : ¬ f.encode.length < 12 := by omega
  have hknown : ¬ (version < 2 ∨ 4 < version) := by omega
  have hroom : ¬ f.encode.length < saturatingMul f.entries.length (40 + oidLen + 2 + 1) := by
    have hle := le_length_encodeEntries f.entries []
    rw [List.length_append] at hlen
    rw [saturatingMul]
    omega
  have hentries := readEntries_encode f.entries ⟨12, [], 0, []⟩ hentriesAt hbuf (Nat.zero_le _)
    (Nat.zero_le _)
  rw [Nat.zero_add] at hentries
  simp only [parseIndex, if_neg hshort, hsignature, hversion, if_neg hknown, hcount, if_neg hroom,
    orUnreadable, bind, Except.bind, pure, Except.pure, ne_eq, not_true_eq_false, if_false]
  unfold IndexFile.contents
  by_cases hover : maxIndexPathBytes < textBytes f.entries
  · rw [hentries.1 hover, if_pos hover]
  · obtain ⟨previous, hread⟩ := hentries.2 (Nat.not_lt.1 hover)
    have htail := @readTail_encode oidLen _ _ _ none f.extensions hentriesAt.advance hbuf f.trailerLen
    rw [hread, if_neg hover]
    simp only [htail]
    split_ifs <;> rfl

theorem texts_of_utf8 {es : List (IndexEntry version oidLen)} {ts : List Str}
    (h : es.map (·.path) = ts.map utf8) : texts es = ts := by
  have hlossy : texts es = (es.map (·.path)).map fromUtf8Lossy := by simp [texts]
  rw [hlossy, h, List.map_map]
  conv_rhs => rw [← List.map_id ts]
  exact List.map_congr_left fun t _ => fromUtf8Lossy_utf8 t

/-- No buffer makes the parse leave its bounds. An encoded file is read back as the texts of its paths and
its last `link` payload: the paths themselves where they are UTF-8. -/
theorem parseIndex_encode :
    (∀ (buf : Bytes) (oidLen : Nat), Safe (parseIndex buf oidLen)) ∧
      ∀ {version oidLen : Nat} (f : IndexFile version oidLen),
        parseIndex f.encode oidLen
            = (if maxIndexPathBytes < textBytes f.entries then .error (.failed .pathBudget)
              else if ∀ x ∈ f.extensions, x.Lettered then
                .ok ⟨f.entries.map fun e => fromUtf8Lossy e.path, lastLink f.extensions none⟩
              else unreadable "unrecognised bytes where an extension header was expected") ∧
          ∀ ts : List Str, f.entries.map (·.path) = ts.map utf8 →
            f.entries.map (fun e => fromUtf8Lossy e.path) = ts :=
  ⟨safe_parseIndex, fun f => ⟨parseIndex_eq_contents f, fun _ => texts_of_utf8⟩⟩

/-- What is written of a file whose times, owner and size are zero. -/
def zeroStat : Bytes := List.replicate 40 0

theorem length_zeroStat : zeroStat.length = 40 := by
  simp [zeroStat]

/-- An entry with a path and nothing else. -/
def bareEntry {version : Nat} (path : Bytes) (keep : Nat) (h : 0 ∉ path) : IndexEntry version 20 where
  stat := zeroStat
  oid := List.replicate 20 0
  flags := 0
  extendedFlags := none
  path := path
  keep := keep
  statLen := length_zeroStat
  oidLen := by simp
  flagsFit := by norm_num
  extended := by simp
  allowed := by simp
  noNul := h

/-- A file of version 4, whose second path keeps the first, with a `link` extension. -/
def envFile : IndexFile 4 20 where
  entries := [bareEntry (utf8 ".env".toList) 0 (by decide), bareEntry (utf8 ".envrc".toList) 9 (by decide)]
  extensions := [⟨utf8 "TREE".toList, [1, 2], by decide, by decide⟩,
    ⟨utf8 "link".toList, [7], by decide, by decide⟩]
  trailer := List.replicate 20 0
  supported := by decide
  countFits := by decide
  trailerLen := by simp
  fits := by decide +kernel

theorem parseIndex_encode_env :
    parseIndex envFile.encode 20 = .ok ⟨[".env".toList, ".envrc".toList], some [7]⟩ := by
  obtain ⟨hread, htexts⟩ := parseIndex_encode.2 envFile
  rw [hread, if_neg (by decide +kernel), if_pos (by decide),
    htexts [".env".toList, ".envrc".toList] (by decide)]
  exact congrArg _ (by decide)

end File

/-! ## Files that are not read back -/

/-- One path, a byte of Latin-1. -/
def latinFile : IndexFile 2 20 where
  entries := [bareEntry [0xFF] 0 (by decide)]
  extensions := []
  trailer := List.replicate 20 0
  supported := by decide
  countFits := by decide
  trailerLen := by simp
  fits := by decide +kernel

/-- No path, and an optional extension whose signature ends in a digit. -/
def digitFile : IndexFile 2 20 where
  entries := []
  extensions := [⟨utf8 "EXT1".toList, [], by decide, by decide⟩]
  trailer := List.replicate 20 0
  supported := by decide
  countFits := by decide
  trailerLen := by simp
  fits := by decide

/-- The path comes back as the replacement character, and the extension that is not lettered stops the
parse: neither file is read back as what it encodes. -/
theorem files_not_read_back :
    (∃ paths link, parseIndex latinFile.encode 20 = .ok ⟨paths, link⟩ ∧
        paths.map utf8 ≠ latinFile.entries.map (·.path)) ∧
      ∀ parsed, parseIndex digitFile.encode 20 ≠ .ok parsed := by
  refine ⟨⟨[[Char.ofNat 0xFFFD]], none, ?_, by decide⟩, fun parsed => ?_⟩
  · rw [parseIndex_eq_contents, IndexFile.contents, if_neg (by decide +kernel), if_pos (by decide)]
    exact congrArg _ (by decide +kernel)
  · rw [parseIndex_eq_contents, IndexFile.contents, if_neg (by decide), if_neg (by decide)]
    simp [unreadable]

end Tethra.GitIndex
