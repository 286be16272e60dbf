import Tethra.Core.GitIndexFormat
import Tethra.Lib.BitWords

set_option autoImplicit false

/-! # Split indexes (`core/src/gitsafe.rs`)

In split-index mode the paths live in a shared index, and the `link` extension of the index names it and says in two
bitmaps which of its entries are deleted and which are replaced. A bitmap is compressed: words that stand for runs of
equal words, and literal words behind each. Whatever its structure, the positions that are read are those of the bits
it stands for, and the paths are those at the positions that are not deleted, with the paths of the index itself
(`split_index_resolved`). -/

namespace Tethra.GitIndex

open Gateway Buffer BitWords

/-! ## Bitmaps -/

def checkedMul (a b : Nat) : Option Nat := if a * b ≤ usizeMax then some (a * b) else none

/-- The word at an index. One below the word count lies in the buffer. -/
def word (buf : Bytes) (i : Nat) : Nat := beValue ((buf.drop (8 + i * 8)).take 8)

/-- The loop over the words, with how many literal words are still to come and the bit that is next. -/
def ewahLoop (bitSize : Nat) : Nat → Nat → List Nat → Finset Nat → Except Str (Finset Nat)
  | 0, _, [], set => .ok set
  | _ + 1, _, [], _ => .error "EWAH literal words run past the buffer".toList
  | 0, bit, rlw :: words, set =>
      let runBits := saturatingMul (rlw / 2 % 2 ^ 32) 64
      let set := if rlw % 2 = 1 then set ∪ Finset.Ico bit (min (saturatingAdd bit runBits) bitSize) else set
      ewahLoop bitSize (rlw / 2 ^ 33) (saturatingAdd bit runBits) words set
  | n + 1, bit, literal :: words, set =>
      let ones := (Finset.range 64).filter fun b => literal.testBit b = true ∧ saturatingAdd bit b < bitSize
      ewahLoop bitSize n (saturatingAdd bit 64) words (set ∪ ones.image (bit + ·))

/-- The positions that are set, and how many bytes the bitmap takes. -/
def decodeEwah (buf : Bytes) (maxBit : Nat) : Except Str (Finset Nat × Nat) :=
  match beU32 buf 0 with
  | none => .error "truncated EWAH bit size".toList
  | some bitSize =>
      match beU32 buf 4 with
      | none => .error "truncated EWAH word count".toList
      | some wordCount =>
          match (checkedMul wordCount 8).bind (checkedAdd · 12) with
          | none => .error "EWAH word count overflows the payload".toList
          | some total =>
              if buf.length < total then .error "EWAH bitmap runs past the extension".toList
              else if maxBit < bitSize then
                .error "EWAH bitmap describes more entries than the index holds".toList
              else
                (ewahLoop bitSize 0 0 ((List.range wordCount).map (word buf)) ∅).map fun set => (set, total)

/-! ## The loop -/

section Loop

variable {bitSize : Nat}

/-- The ones of a literal word that begins at a bit. -/
theorem mem_ones (hsize : bitSize < 2 ^ 32) (literal start k : Nat) :
    k ∈ ((Finset.range 64).filter fun b => literal.testBit b = true ∧
        saturatingAdd (min usizeMax start) b < bitSize).image (min usizeMax start + ·) ↔
      start ≤ k ∧ k < start + 64 ∧ k < bitSize ∧ literal.testBit (k - start) = true := by
  have husize : 2 ^ 32 < usizeMax := by decide
  simp only [Finset.mem_image, Finset.mem_filter, Finset.mem_range]
  unfold saturatingAdd
  constructor
  · rintro ⟨b, ⟨hb, hone, hlt⟩, rfl⟩
    have hstart : min usizeMax start = start := by omega
    rw [hstart] at hlt ⊢
    rw [Nat.add_sub_cancel_left]
    exact ⟨by omega, by omega, by omega, hone⟩
  · rintro ⟨hle, hlt, hbound, hone⟩
    exact ⟨k - start, ⟨by omega, hone, by omega⟩, by omega⟩

/-- The bits of literal words. -/
theorem ewahLoop_literals (hsize : bitSize < 2 ^ 32) (literals words : List Nat) (start : Nat) (set : Finset Nat) :
    ∃ set', ewahLoop bitSize literals.length (min usizeMax start) (literals ++ words) set =
        ewahLoop bitSize 0 (min usizeMax (start + 64 * literals.length)) words set' ∧
      ∀ k, k ∈ set' ↔ k ∈ set ∨ start ≤ k ∧ k < bitSize ∧ bitAt literals (k - start) = true := by
  induction literals generalizing start set with
  | nil => exact ⟨set, rfl, fun k => by simp [bitAt_nil]⟩
  | cons literal literals ih =>
      have hnext : saturatingAdd (min usizeMax start) 64 = min usizeMax (start + 64) := by
        rw [saturatingAdd]
        omega
      have hlen : start + 64 + 64 * literals.length = start + 64 * (literals.length + 1) := by omega
      obtain ⟨set', hloop, hmem⟩ := ih (start + 64) (set ∪
        ((Finset.range 64).filter fun b =>
          literal.testBit b = true ∧ saturatingAdd (min usizeMax start) b < bitSize).image (min usizeMax start + ·))
      refine ⟨set', ?_, fun k => ?_⟩
      · rw [List.length_cons, List.cons_append, ewahLoop, hnext, hloop, hlen]
      · rw [hmem, Finset.mem_union, mem_ones hsize, bitAt_cons, Nat.sub_add_eq]
        by_cases hk : k - start < 64
        · rw [if_pos hk, or_assoc]
          refine or_congr_right ⟨?_, fun h => .inl ⟨h.1, by omega, h.2⟩⟩
          rintro (h | h)
          · exact ⟨h.1, h.2.2⟩
          · omega
        · rw [if_neg hk, or_assoc]
          refine or_congr_right ⟨?_, fun h => .inr ⟨by omega, h.2⟩⟩
          rintro (h | h)
          · omega
          · exact ⟨by omega, h.2⟩

/-- The ones of a run that begins at a bit. -/
theorem mem_run (hsize : bitSize < 2 ^ 32) (s : Segment) (start k : Nat) (set : Finset Nat) :
    k ∈ (if s.value.toNat = 1 then
        set ∪ Finset.Ico (min usizeMax start) (min (min usizeMax (start + 64 * s.run)) bitSize) else set) ↔
      k ∈ set ∨ start ≤ k ∧ k < bitSize ∧ k - start < 64 * s.run ∧ s.value = true := by
  have husize : 2 ^ 32 < usizeMax := by decide
  cases s.value with
  | true =>
      simp only [Bool.toNat_true, if_true, Finset.mem_union, Finset.mem_Ico, and_true]
      refine or_congr_right ⟨fun h => ?_, fun h => ?_⟩
      · omega
      · omega
  | false => simp

/-- The words of segments: the positions of the bits that they stand for. -/
theorem ewahLoop_words (hsize : bitSize < 2 ^ 32) (segments : List Segment) (start : Nat) (set : Finset Nat) :
    ∃ set', ewahLoop bitSize 0 (min usizeMax start) (segments.flatMap Segment.words) set = .ok set' ∧
      ∀ k, k ∈ set' ↔ k ∈ set ∨ start ≤ k ∧ k < bitSize ∧
        bitAt (segments.flatMap Segment.expand) (k - start) = true := by
  induction segments generalizing start set with
  | nil => exact ⟨set, rfl, fun k => by simp [bitAt_nil]⟩
  | cons s segments ih =>
      have husize : 2 ^ 38 < usizeMax := by decide
      have hrun : saturatingMul s.run 64 = s.run * 64 := by
        have := s.runFits
        rw [saturatingMul]
        omega
      have hnext : saturatingAdd (min usizeMax start) (s.run * 64) = min usizeMax (start + 64 * s.run) := by
        rw [saturatingAdd]
        omega
      obtain ⟨set₁, hloop₁, hmem₁⟩ := ewahLoop_literals hsize s.literals (segments.flatMap Segment.words)
        (start + 64 * s.run)
        (if s.value.toNat = 1 then set ∪ Finset.Ico (min usizeMax start)
          (min (min usizeMax (start + 64 * s.run)) bitSize) else set)
      obtain ⟨set', hloop, hmem⟩ := ih (start + 64 * s.run + 64 * s.literals.length) set₁
      refine ⟨set', ?_, fun k => ?_⟩
      · rw [List.flatMap_cons, Segment.words, List.cons_append, ewahLoop]
        simp only [s.header_run, s.header_value, s.header_count, hrun, hnext]
        rw [hloop₁, hloop]
      · rw [hmem, hmem₁, mem_run hsize, List.flatMap_cons, bitAt_append, s.length_expand, s.bitAt_expand]
        have hlits : k - (start + 64 * s.run) = k - start - 64 * s.run := by omega
        have hrest : k - (start + 64 * s.run + 64 * s.literals.length) =
            k - start - 64 * (s.run + s.literals.length) := by omega
        rw [hlits, hrest]
        by_cases hstart : start ≤ k
        · -- The position is in the run, in a literal word, or behind the segment.
          by_cases hrun : k - start < 64 * s.run
          · have hbefore : ¬start + 64 * s.run ≤ k := by omega
            have hbefore' : ¬start + 64 * s.run + 64 * s.literals.length ≤ k := by omega
            have hinside : k - start < 64 * (s.run + s.literals.length) := by omega
            simp [hstart, hrun, hbefore, hbefore', hinside]
          · by_cases hliteral : k - start < 64 * (s.run + s.literals.length)
            · have hreached : start + 64 * s.run ≤ k := by omega
              have hbefore : ¬start + 64 * s.run + 64 * s.literals.length ≤ k := by omega
              simp [hstart, hrun, hreached, hbefore, hliteral]
            · have hreached : start + 64 * s.run + 64 * s.literals.length ≤ k := by omega
              have hnone : bitAt s.literals (k - start - 64 * s.run) = false := bitAt_of_le (by omega)
              simp [hstart, hrun, hreached, hliteral, hnone]
        · have hbefore : ¬start + 64 * s.run ≤ k := by omega
          have hbefore' : ¬start + 64 * s.run + 64 * s.literals.length ≤ k := by omega
          simp [hstart, hbefore, hbefore']

end Loop

/-! ## Bitmaps as they are written -/

/-- A bitmap of any structure: how many bits it has, its segments, and the offset that a writer goes on from. -/
structure Bitmap where
  bitSize : Nat
  segments : List Segment
  offset : Nat
  sizeFits : bitSize < 2 ^ 32
  countFits : (segments.flatMap Segment.words).length < 2 ^ 32

def Bitmap.encode (b : Bitmap) : Bytes :=
  beBytes 4 b.bitSize ++ (beBytes 4 (b.segments.flatMap Segment.words).length ++
    ((b.segments.flatMap Segment.words).flatMap (beBytes 8) ++ beBytes 4 b.offset))

/-- The positions below the bit size whose bits are set. -/
def Bitmap.positions (b : Bitmap) : Finset Nat :=
  (Finset.range b.bitSize).filter fun k => bitAt (b.segments.flatMap Segment.expand) k = true

theorem length_flatMap_beBytes (words : List Nat) : (words.flatMap (beBytes 8)).length = 8 * words.length := by
  induction words with
  | nil => rfl
  | cons w words ih =>
      rw [List.flatMap_cons, List.length_append, length_beBytes, ih, List.length_cons]
      omega

theorem Bitmap.length_encode (b : Bitmap) :
    b.encode.length = (b.segments.flatMap Segment.words).length * 8 + 12 := by
  simp only [encode, List.length_append, length_beBytes, length_flatMap_beBytes]
  omega

theorem take_flatMap_beBytes (words : List Nat) (more : Bytes) {i : Nat} (hi : i < words.length) :
    ((words.flatMap (beBytes 8) ++ more).drop (i * 8)).take 8 = beBytes 8 words[i] := by
  induction words generalizing i with
  | nil => cases hi
  | cons w words ih =>
      rw [List.flatMap_cons, List.append_assoc]
      cases i with
      | zero => exact List.take_left' (length_beBytes 8 w)
      | succ i =>
          have hstep : (i + 1) * 8 = (beBytes 8 w).length + i * 8 := by
            rw [length_beBytes]
            omega
          rw [hstep, ← List.drop_drop, List.drop_left]
          exact ih (Nat.lt_of_succ_lt_succ hi)

/-- The words that are read are those that were written. -/
theorem words_read {front more : Bytes} (hfront : front.length = 8) {words : List Nat} (h : ∀ w ∈ words, w < 2 ^ 64) :
    (List.range words.length).map (word (front ++ (words.flatMap (beBytes 8) ++ more))) = words := by
  refine List.ext_getElem (by simp) fun i hi hi' => ?_
  rw [List.getElem_map, List.getElem_range, word, ← List.drop_drop, ← hfront, List.drop_left, hfront,
    take_flatMap_beBytes words more hi', beValue_beBytes]
  exact (h _ (List.getElem_mem hi')).trans_eq (by norm_num)

/-- A bitmap is decoded to its positions and its length, whatever follows it. -/
theorem decodeEwah_encode (b : Bitmap) (more : Bytes) {maxBit : Nat} (hmax : b.bitSize ≤ maxBit) :
    decodeEwah (b.encode ++ more) maxBit = .ok (b.positions, b.encode.length) := by
  have hlength := b.length_encode
  obtain ⟨words, hwords⟩ : ∃ words, words = b.segments.flatMap Segment.words := ⟨_, rfl⟩
  have hcount : words.length < 2 ^ 32 := by
    rw [hwords]
    exact b.countFits
  have hfit : ∀ w ∈ words, w < 2 ^ 64 := by
    intro w hw
    rw [hwords] at hw
    obtain ⟨s, -, hs⟩ := List.mem_flatMap.1 hw
    exact s.words_lt hs
  have hstart : At (b.encode ++ more) 0 (beBytes 4 b.bitSize ++ (beBytes 4 words.length ++
      (words.flatMap (beBytes 8) ++ (beBytes 4 b.offset ++ more)))) := by
    have hall := at_zero (b.encode ++ more)
    simpa [Bitmap.encode, hwords] using hall
  have hcountAt := hstart.advance
  rw [length_beBytes, Nat.zero_add] at hcountAt
  have hsize : beU32 (b.encode ++ more) 0 = some b.bitSize := beU32_at b.sizeFits hstart
  have hwordCount : beU32 (b.encode ++ more) 4 = some words.length := beU32_at hcount hcountAt
  have husize : 2 ^ 32 * 8 + 12 ≤ usizeMax := by decide
  have htotal : (checkedMul words.length 8).bind (checkedAdd · 12) = some (words.length * 8 + 12) := by
    rw [checkedMul, if_pos (by omega), Option.bind_some, checkedAdd, if_pos (by omega)]
  have hroom : ¬(b.encode ++ more).length < words.length * 8 + 12 := by
    rw [List.length_append, hlength, hwords]
    omega
  -- The words are read where they were written, and looped over.
  have hread : (List.range words.length).map (word (b.encode ++ more)) = words := by
    have hbytes : b.encode ++ more = (beBytes 4 b.bitSize ++ beBytes 4 words.length) ++
        (words.flatMap (beBytes 8) ++ (beBytes 4 b.offset ++ more)) := by
      simp [Bitmap.encode, hwords]
    rw [hbytes]
    exact words_read (by simp) hfit
  obtain ⟨set, hloop, hmem⟩ := ewahLoop_words b.sizeFits b.segments 0 ∅
  have hset : set = b.positions := by
    ext k
    simp [hmem, Bitmap.positions]
  rw [← hwords, Nat.min_zero] at hloop
  simp only [decodeEwah, hsize, hwordCount, htotal, if_neg hroom, if_neg (Nat.not_lt.2 hmax), hread, hloop]
  rw [hset, hlength, ← hwords]
  rfl

/-! ## The files of a git directory -/

/-- What is found at a name: `symlink_metadata`, and what `fs::read` of a regular file gives. -/
inductive Found where
  | missing (why : Str)
  | unavailable (why : Str)
  | symlink
  | special
  | file (size : Nat) (content : Except Str Bytes)

abbrev GitDir := Str → Found

def maxIndexBytes : Nat := 64 * 1024 * 1024

/-- Why a view could not answer completely. -/
inductive ViewLimit where
  | indexTooLarge (bytes : Nat)
  | indexUnreadable (why : Str)
  | indexPathBudget
  | ignoreFileTooLarge (path : Str)
  | ignorePatternBudget
  deriving DecidableEq, Repr

def IndexParseError.intoLimit : IndexParseError → ViewLimit
  | .unreadable why => .indexUnreadable why
  | .pathBudget => .indexPathBudget

/-- The limit of a parse that stopped. It does not stop with a panic (`safe_parseIndex`). -/
def Stop.intoLimit : Stop → ViewLimit
  | .failed e => e.intoLimit
  | .outOfRange => .indexUnreadable []

/-! ## Resolving -/

def splitUnreadable (why : Str) : ViewLimit := .indexUnreadable ("split index: ".toList ++ why)

/-- The paths that are not empty: an empty name is a placeholder. -/
def named (paths : List Str) : Finset Str := (paths.filter (· ≠ [])).toFinset

def hexByte (b : UInt8) : Str := [Nat.digitChar (b.toNat / 16), Nat.digitChar (b.toNat % 16)]

def sharedName (oid : Bytes) : Str := "sharedindex.".toList ++ oid.flatMap hexByte

/-- The paths of the shared index. -/
def readShared (files : GitDir) (name : Str) (oidLen : Nat) : Except ViewLimit (List Str) :=
  match files name with
  | .missing e => .error (splitUnreadable (name ++ " could not be opened (".toList ++ e ++ ")".toList))
  | .unavailable e => .error (splitUnreadable (name ++ " could not be opened (".toList ++ e ++ ")".toList))
  | .symlink => .error (splitUnreadable (name ++ " is not a regular file".toList))
  | .special => .error (splitUnreadable (name ++ " is not a regular file".toList))
  | .file size content =>
      if maxIndexBytes < size then .error (.indexTooLarge size)
      else
        match content with
        | .error e => .error (splitUnreadable (name ++ " (".toList ++ e ++ ")".toList))
        | .ok buf =>
            match parseIndex buf oidLen with
            | .error stop =>
                match stop.intoLimit with
                | .indexUnreadable why => .error (splitUnreadable why)
                | other => .error other
            | .ok shared =>
                if shared.link.isSome then
                  .error (splitUnreadable "the shared index carries a link extension of its own".toList)
                else .ok shared.paths

/-- The two bitmaps behind the object id: the positions of the first one. Git writes neither when both are empty. -/
def readDeleted (bitmaps : Bytes) (count : Nat) : Except ViewLimit (Finset Nat) :=
  if bitmaps = [] then .ok ∅
  else
    match decodeEwah bitmaps count with
    | .error e => .error (splitUnreadable e)
    | .ok (deleted, deleteLen) =>
        if bitmaps.length < deleteLen then .error (splitUnreadable "the replace bitmap is missing".toList)
        else
          match decodeEwah (bitmaps.drop deleteLen) count with
          | .error e => .error (splitUnreadable e)
          | .ok (_, replaceLen) =>
              if deleteLen + replaceLen ≠ bitmaps.length then
                .error (splitUnreadable "trailing bytes after the two bitmaps".toList)
              else .ok deleted

/-- `resolve_split_index`. -/
def resolveSplitIndex (files : GitDir) (mainPaths : List Str) (link : Bytes) (oidLen : Nat) :
    Except ViewLimit (Finset Str) :=
  if link.length < oidLen then
    .error (splitUnreadable "the link extension is shorter than an object id".toList)
  else if (link.take oidLen).all (· = 0) then .ok (named mainPaths)
  else
    match readShared files (sharedName (link.take oidLen)) oidLen with
    | .error limit => .error limit
    | .ok paths =>
        match readDeleted (link.drop oidLen) paths.length with
        | .error limit => .error limit
        | .ok deleted =>
            let kept := paths.zipIdx.filter fun (_, position) => position ∉ deleted
            .ok (named (kept.map Prod.fst) ∪ named mainPaths)

/-- The parse of an index whose object ids have either length, and that length. -/
def parseEither (buf : Bytes) : Except ViewLimit (ParsedIndex × Nat) :=
  match parseIndex buf 20 with
  | .ok parsed => .ok (parsed, 20)
  | .error sha1 =>
      match parseIndex buf 32 with
      | .ok parsed => .ok (parsed, 32)
      | .error _ => .error sha1.intoLimit

/-- `read_index`. -/
def readIndex (files : GitDir) : Except ViewLimit (Finset Str) :=
  match files "index".toList with
  | .missing _ => .ok ∅
  | .unavailable e => .error (.indexUnreadable e)
  | .symlink => .error (.indexUnreadable "`.git/index` is a symlink".toList)
  | .special => .error (.indexUnreadable "`.git/index` is not a regular file".toList)
  | .file size content =>
      if maxIndexBytes < size then .error (.indexTooLarge size)
      else
        match content with
        | .error e => .error (.indexUnreadable e)
        | .ok buf =>
            match parseEither buf with
            | .error limit => .error limit
            | .ok (parsed, oidLen) =>
                match parsed.link with
                | none => .ok (named parsed.paths)
                | some link => resolveSplitIndex files parsed.paths link oidLen

theorem mem_named {paths : List Str} {p : Str} : p ∈ named paths ↔ p ≠ [] ∧ p ∈ paths := by
  simp [named, and_comm]

/-- The paths at the positions that are not deleted. -/
theorem mem_kept {paths : List Str} {deleted : Finset Nat} {p : Str} :
    p ∈ (paths.zipIdx.filter fun (_, position) => position ∉ deleted).map Prod.fst ↔
      ∃ i, paths[i]? = some p ∧ i ∉ deleted := by
  simp only [List.mem_map, List.mem_filter, decide_eq_true_eq, Prod.exists, exists_and_right, exists_eq_right,
    List.mem_zipIdx_iff_getElem?]

/-! ## Split indexes as they are written -/

section Written

variable {version oidLen : Nat} {shared : IndexFile version oidLen} {files : GitDir}

theorem readDeleted_encode (deleted replaced : Bitmap) {count : Nat} (hdeleted : deleted.bitSize ≤ count)
    (hreplaced : replaced.bitSize ≤ count) :
    readDeleted (deleted.encode ++ replaced.encode) count = .ok deleted.positions := by
  have hne : deleted.encode ++ replaced.encode ≠ [] := by
    have := deleted.length_encode
    intro hnil
    have := congrArg List.length hnil
    rw [List.length_append, List.length_nil] at this
    omega
  have hrest : decodeEwah replaced.encode count = .ok (replaced.positions, replaced.encode.length) := by
    have hall := decodeEwah_encode replaced [] hreplaced
    rwa [List.append_nil] at hall
  have hroom : ¬(deleted.encode ++ replaced.encode).length < deleted.encode.length := by
    rw [List.length_append]
    omega
  have hsum : ¬deleted.encode.length + replaced.encode.length ≠ (deleted.encode ++ replaced.encode).length := by
    rw [List.length_append, not_not]
  simp only [readDeleted, if_neg hne, decodeEwah_encode deleted replaced.encode hdeleted, if_neg hroom,
    List.drop_left, hrest, if_neg hsum]

/-- What stands behind the object id: both bitmaps over the shared entries, or neither when both are empty. -/
inductive LinkBitmaps (count : Nat) : Finset Nat → Bytes → Prop where
  | both (deleted replaced : Bitmap) (fits : deleted.bitSize ≤ count) (fits' : replaced.bitSize ≤ count) :
      LinkBitmaps count deleted.positions (deleted.encode ++ replaced.encode)
  | neither : LinkBitmaps count ∅ []

theorem readDeleted_written {count : Nat} {deleted : Finset Nat} {bitmaps : Bytes}
    (h : LinkBitmaps count deleted bitmaps) : readDeleted bitmaps count = .ok deleted := by
  cases h with
  | both deleted replaced fits fits' => exact readDeleted_encode deleted replaced fits fits'
  | neither => rfl

/-- A shared index is within the bounds, and its extensions are read and are no `link`. -/
structure Readable (shared : IndexFile version oidLen) : Prop where
  text : textBytes shared.entries ≤ maxIndexPathBytes
  lettered : ∀ x ∈ shared.extensions, x.Lettered
  unlinked : lastLink shared.extensions none = none

theorem readShared_encode {size : Nat} (hshared : Readable shared) (hsize : size ≤ maxIndexBytes) {name : Str}
    (hfile : files name = .file size (.ok shared.encode)) :
    readShared files name oidLen = .ok (texts shared.entries) := by
  have hparse : parseIndex shared.encode oidLen = .ok ⟨texts shared.entries, none⟩ := by
    rw [parseIndex_eq_contents, IndexFile.contents, if_neg (Nat.not_lt.2 hshared.text), if_pos hshared.lettered,
      hshared.unlinked]
  simp [readShared, hfile, Nat.not_lt.2 hsize, hparse]

theorem resolveSplitIndex_written {size : Nat} (hshared : Readable shared) (hsize : size ≤ maxIndexBytes)
    {oid : Bytes} (hoid : oid.length = oidLen) (hnonzero : ∃ b ∈ oid, b ≠ 0)
    (hfile : files (sharedName oid) = .file size (.ok shared.encode)) (mainPaths : List Str) {bitmaps : Bytes}
    {deleted : Finset Nat} (hdeleted : readDeleted bitmaps shared.entries.length = .ok deleted) :
    ∃ tracked, resolveSplitIndex files mainPaths (oid ++ bitmaps) oidLen = .ok tracked ∧
      ∀ p, p ∈ tracked ↔ p ≠ [] ∧ (p ∈ mainPaths ∨ ∃ i, (texts shared.entries)[i]? = some p ∧ i ∉ deleted) := by
  have hlen : ¬(oid ++ bitmaps).length < oidLen := by
    rw [List.length_append]
    omega
  have hzero : oid.all (· = 0) = false := by
    obtain ⟨b, hb, hne⟩ := hnonzero
    exact List.all_eq_false.2 ⟨b, hb, by simpa using hne⟩
  have hcount : (texts shared.entries).length = shared.entries.length := List.length_map _
  have htake : (oid ++ bitmaps).take oidLen = oid := List.take_left' hoid
  have hdrop : (oid ++ bitmaps).drop oidLen = bitmaps := List.drop_left' hoid
  refine ⟨named (((texts shared.entries).zipIdx.filter fun (_, position) => position ∉ deleted).map Prod.fst) ∪
    named mainPaths, ?_, fun p => ?_⟩
  · rw [resolveSplitIndex, if_neg hlen, htake, hzero, hdrop]
    simp only [Bool.false_eq_true, if_false, readShared_encode hshared hsize hfile, hcount, hdeleted]
  · rw [Finset.mem_union, mem_named, mem_named, mem_kept, ← and_or_left]
    exact and_congr_right' or_comm

end Written

/-- A bitmap of any structure is decoded to its positions, and a split index to the paths of the shared index that
are not deleted, with the paths that the index names itself. -/
theorem split_index_resolved :
    (∀ (b : Bitmap) (more : Bytes) (maxBit : Nat), b.bitSize ≤ maxBit →
      decodeEwah (b.encode ++ more) maxBit = .ok (b.positions, b.encode.length)) ∧
    ∀ {version oidLen : Nat} (shared : IndexFile version oidLen) (sharedPaths mainPaths : List Str) (files : GitDir)
      (size : Nat) (oid bitmaps : Bytes) (deleted : Finset Nat),
      shared.entries.map (·.path) = sharedPaths.map utf8 → Readable shared → size ≤ maxIndexBytes →
      oid.length = oidLen → (∃ b ∈ oid, b ≠ 0) → files (sharedName oid) = .file size (.ok shared.encode) →
      LinkBitmaps sharedPaths.length deleted bitmaps →
      ∃ tracked, resolveSplitIndex files mainPaths (oid ++ bitmaps) oidLen = .ok tracked ∧
        ∀ p, p ∈ tracked ↔ p ≠ [] ∧ (p ∈ mainPaths ∨ ∃ i, sharedPaths[i]? = some p ∧ i ∉ deleted) := by
  refine ⟨fun b more maxBit hmax => decodeEwah_encode b more hmax, ?_⟩
  intro version oidLen shared sharedPaths mainPaths files size oid bitmaps deleted hpaths hshared hsize hoid hnonzero
    hfile hbitmaps
  have htexts : texts shared.entries = sharedPaths := texts_of_utf8 hpaths
  have hcount : sharedPaths.length = shared.entries.length := by rw [← htexts, texts, List.length_map]
  have hread := readDeleted_written hbitmaps
  rw [hcount] at hread
  obtain ⟨tracked, hresolve, hmem⟩ :=
    resolveSplitIndex_written hshared hsize hoid hnonzero hfile mainPaths hread
  rw [htexts] at hmem
  exact ⟨tracked, hresolve, hmem⟩

/-! ## Files that are not resolved to their paths -/

/-- A git directory with one file in it. -/
def oneFile (name : Str) (buf : Bytes) : GitDir := fun n =>
  if n = name then .file buf.length (.ok buf) else .missing []

/-- The file with other extensions. -/
def IndexFile.withExtensions {version oidLen : Nat} (f : IndexFile version oidLen) (extensions : List Extension)
    (h : (fileBytes f.entries extensions f.trailer).length < 2 ^ 63) : IndexFile version oidLen :=
  { f with extensions := extensions, fits := h }

/-- A shared index of two paths. -/
def keptFile : IndexFile 4 20 := envFile.withExtensions [] (by decide +kernel)

/-- The bitmap that deletes the second of two. -/
def secondBit : Bitmap where
  bitSize := 2
  segments := [⟨false, 0, [2], by decide, by decide, by decide⟩]
  offset := 0
  sizeFits := by decide
  countFits := by decide

theorem split_index_resolved_env :
    ∃ tracked, resolveSplitIndex (oneFile (sharedName (List.replicate 20 7)) keptFile.encode) ["new".toList]
        (List.replicate 20 7 ++ (secondBit.encode ++ secondBit.encode)) 20 = .ok tracked ∧
      ".env".toList ∈ tracked ∧ ".envrc".toList ∉ tracked ∧ "new".toList ∈ tracked := by
  obtain ⟨tracked, hresolve, hmem⟩ := split_index_resolved.2 keptFile [".env".toList, ".envrc".toList] ["new".toList]
    (oneFile (sharedName (List.replicate 20 7)) keptFile.encode) keptFile.encode.length (List.replicate 20 7)
    (secondBit.encode ++ secondBit.encode) secondBit.positions (by decide) ⟨by decide +kernel, by decide, by decide⟩
    (by decide +kernel) (by simp) ⟨7, by simp, by decide⟩ (if_pos rfl) (.both secondBit secondBit (by decide) (by decide))
  refine ⟨tracked, hresolve, (hmem _).2 ⟨by decide, .inr ⟨0, rfl, by decide⟩⟩, fun h => ?_,
    (hmem _).2 ⟨by decide, .inl (by simp)⟩⟩
  obtain ⟨-, hnew | ⟨i, hi, hkept⟩⟩ := (hmem _).1 h
  · exact absurd hnew (by decide)
  · match i with
    | 0 => exact absurd hi (by decide)
    | 1 => exact hkept (by decide)
    | i + 2 => cases hi

/-- The path of a shared entry that is no UTF-8 is resolved to another text. -/
theorem latin_path_not_resolved :
    resolveSplitIndex (oneFile (sharedName (List.replicate 20 7)) latinFile.encode) [] (List.replicate 20 7) 20 =
        .ok {[Char.ofNat 0xFFFD]} ∧
      ∀ p : Str, utf8 p ∉ latinFile.entries.map (·.path) := by
  have htexts : texts latinFile.entries = [[Char.ofNat 0xFFFD]] := by decide +kernel
  refine ⟨?_, fun p hp => ?_⟩
  · have hreadable : Readable latinFile := ⟨by decide +kernel, by decide, by decide⟩
    have hfile : oneFile (sharedName (List.replicate 20 7)) latinFile.encode (sharedName (List.replicate 20 7)) =
        .file latinFile.encode.length (.ok latinFile.encode) := if_pos rfl
    obtain ⟨tracked, hresolve, hmem⟩ := resolveSplitIndex_written hreadable (by decide +kernel)
      (List.length_replicate) ⟨7, by simp, by decide⟩ hfile [] (readDeleted_written .neither)
    rw [List.append_nil] at hresolve
    rw [hresolve, Except.ok.injEq]
    ext p
    rw [hmem, htexts, Finset.mem_singleton]
    constructor
    · rintro ⟨-, hmain | ⟨i, hi, -⟩⟩
      · cases hmain
      · exact List.mem_singleton.1 (List.mem_of_getElem? hi)
    · rintro rfl
      exact ⟨by decide, .inr ⟨0, rfl, Finset.notMem_empty 0⟩⟩
  · have hbytes : utf8 p = [0xFF] := by simpa [latinFile, bareEntry] using hp
    have hback := fromUtf8Lossy_utf8 p
    rw [hbytes] at hback
    rw [← hback] at hbytes
    exact absurd hbytes (by decide +kernel)

end Tethra.GitIndex
