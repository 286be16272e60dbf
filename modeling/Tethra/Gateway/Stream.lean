import Tethra.Gateway.Head

set_option autoImplicit false

/-! # Strict chunked-body relay (`gateway/src/stream.rs`)

The relay reads through a bounded source, checks the framing strictly, and writes what it read; the
tap is fed the decoded data only. A writer that fails ends the relay, so `dst` is what was written. -/

namespace Tethra.Gateway

open Observe (asciiLower)

/-- The size of the copy buffer (`BUF`). -/
def copyBuf : Nat := 16 * 1024

def maxChunkLine : Nat := 1024

def maxTrailer : Nat := 8 * 1024

/-! ## The source -/

/-- What one read brings: at least a byte, and at most a buffer. -/
abbrev Segment := {s : Bytes // s ≠ [] ∧ s.length ≤ copyBuf}

/-- The reads to come, and the bytes of the buffer that are not consumed yet. -/
structure Source where
  src : List Segment
  buffered : Bytes

/-- The bytes left, in the buffer and behind it. -/
def Source.rest (s : Source) : Bytes := s.buffered ++ (s.src.map Subtype.val).flatten

/-- Read until the buffer has a byte or the reads are at their end. -/
def Source.fillFrom : List Segment → Bytes → Source
  | [], buffered => ⟨[], buffered⟩
  | segment :: src, buffered =>
      if buffered = [] then fillFrom src (buffered ++ segment.val) else ⟨segment :: src, buffered⟩

def Source.fill (s : Source) : Source := fillFrom s.src s.buffered

def Source.nextByte (s : Source) : Option (UInt8 × Source) :=
  match s.fill.buffered with
  | [] => none
  | b :: buffered => some (b, ⟨s.fill.src, buffered⟩)

/-- Take up to `want` bytes; none only at the end. -/
def Source.take (s : Source) (want : Nat) : Bytes × Source :=
  (s.fill.buffered.take want, ⟨s.fill.src, s.fill.buffered.drop want⟩)

theorem Source.rest_fillFrom (src : List Segment) (buffered : Bytes) :
    (fillFrom src buffered).rest = (⟨src, buffered⟩ : Source).rest := by
  induction src generalizing buffered with
  | nil => rfl
  | cons segment src ih =>
      unfold fillFrom
      split_ifs with hempty
      · rw [ih, hempty]
        simp [Source.rest]
      · rfl

@[simp] theorem Source.rest_fill (s : Source) : s.fill.rest = s.rest := rest_fillFrom _ _

theorem Source.fillFrom_src_of_empty {src : List Segment} {buffered : Bytes}
    (h : (fillFrom src buffered).buffered = []) : (fillFrom src buffered).src = [] := by
  induction src generalizing buffered with
  | nil => rfl
  | cons segment src ih =>
      unfold fillFrom at h ⊢
      split_ifs at h ⊢ with hempty
      · exact ih h
      · exact absurd h hempty

/-- A source is at its end when its buffer stays empty. -/
theorem Source.rest_of_fill_empty {s : Source} (h : s.fill.buffered = []) : s.rest = [] := by
  have hsrc : s.fill.src = [] := fillFrom_src_of_empty h
  rw [← s.rest_fill, Source.rest, h, hsrc]
  rfl

theorem Source.rest_of_nextByte {s s' : Source} {b : UInt8} (h : s.nextByte = some (b, s')) :
    s.rest = b :: s'.rest := by
  unfold nextByte at h
  split at h
  · cases h
  · rename_i b' buffered hbuffered
    obtain ⟨rfl, rfl⟩ := Prod.mk.inj (Option.some.inj h)
    rw [← s.rest_fill, Source.rest, hbuffered]
    rfl

theorem Source.nextByte_of_rest {s : Source} {b : UInt8} {more : Bytes} (h : s.rest = b :: more) :
    ∃ s', s.nextByte = some (b, s') ∧ s'.rest = more := by
  cases hnext : s.nextByte with
  | none =>
      unfold nextByte at hnext
      split at hnext
      · rename_i hbuffered
        rw [rest_of_fill_empty hbuffered] at h
        cases h
      · cases hnext
  | some p =>
      obtain ⟨b', s'⟩ := p
      rw [rest_of_nextByte hnext] at h
      obtain ⟨rfl, rfl⟩ := List.cons.inj h
      exact ⟨s', rfl, rfl⟩

theorem Source.rest_take (s : Source) (want : Nat) :
    (s.take want).1 ++ (s.take want).2.rest = s.rest := by
  rw [← s.rest_fill]
  simp [take, Source.rest, ← List.append_assoc]

theorem Source.length_take_le (s : Source) (want : Nat) : (s.take want).1.length ≤ want := by
  simp [take]

theorem Source.take_ne_nil {s : Source} {want : Nat} (hwant : 0 < want) (h : s.rest ≠ []) :
    (s.take want).1 ≠ [] := by
  have hbuffered : s.fill.buffered ≠ [] := fun hempty => h (rest_of_fill_empty hempty)
  obtain ⟨b, buffered, hcons⟩ := List.exists_cons_of_ne_nil hbuffered
  obtain ⟨n, rfl⟩ := Nat.exists_eq_succ_of_ne_zero hwant.ne'
  simp [take, hcons]

/-! ## Lines -/

/-- The state of a relay: what is left to read, what was written, what the tap was fed, and how many
    bytes were consumed. -/
structure Relay where
  source : Source
  dst : Bytes
  tap : Option Bytes
  relayed : Nat

def framingError {α : Type} (message : String) : Except CoreError α :=
  .error (.invalidInput message.toList)

/-- The loop of `read_line_strict`: the line, the count, and the source behind the line. -/
def readLine (max : Nat) (line : Bytes) (counted : Nat) (s : Source) :
    Except CoreError (Bytes × Nat × Source) :=
  match h : s.nextByte with
  | none => framingError "eof in chunk framing"
  | some (b, s') =>
      if b = cr then
        match s'.nextByte with
        | none => framingError "eof after CR in chunk framing"
        | some (next, behind) =>
            if next ≠ lf then framingError "bare CR in chunk framing (strict CRLF required)"
            else .ok (line, counted + 2, behind)
      else if b = lf then framingError "bare LF in chunk framing (strict CRLF required)"
      else if max ≤ line.length then framingError "chunk line too long"
      else readLine max (line ++ [b]) (counted + 1) s'
termination_by s.rest.length
decreasing_by rw [Source.rest_of_nextByte h]; simp

/-- Read a line that ends in a strict CRLF, and echo it. -/
def readLineStrict (r : Relay) (max : Nat) (echo : Bool) : Except CoreError (Bytes × Relay) := do
  let (line, counted, source) ← readLine max [] r.relayed r.source
  let dst := if echo then r.dst ++ line ++ crlf else r.dst
  return (line, { r with source, dst, relayed := counted })

/-- A line has no CR and no LF. -/
def IsLine (line : Bytes) : Prop := ∀ b ∈ line, b ≠ cr ∧ b ≠ lf

/-- What a line that was read looks like, and what was consumed with it. -/
theorem readLine_ok {max counted counted' : Nat} {line line' : Bytes} {s s' : Source}
    (h : readLine max line counted s = .ok (line', counted', s')) :
    ∃ more, line' = line ++ more ∧ IsLine more ∧ (more ≠ [] → line'.length ≤ max) ∧
      s.rest = more ++ crlf ++ s'.rest ∧ counted' = counted + more.length + 2 := by
  induction hn : s.rest.length using Nat.strong_induction_on generalizing line counted s with
  | _ n ih =>
      unfold readLine at h
      split at h
      · cases h
      rename_i b s₁ hnext
      have hrest := Source.rest_of_nextByte hnext
      split_ifs at h with hcr hlf hmax
      · split at h
        · cases h
        rename_i next behind hbehind
        split_ifs at h with hnextlf
        · cases h
        obtain ⟨rfl, hpair⟩ := Prod.mk.inj (Except.ok.inj h)
        obtain ⟨rfl, rfl⟩ := Prod.mk.inj hpair
        refine ⟨[], by simp, by simp [IsLine], by simp, ?_, by simp⟩
        rw [hrest, Source.rest_of_nextByte hbehind, hcr, not_not.1 hnextlf]
        rfl
      · cases h
      · cases h
      · have hlt : s₁.rest.length < n := by
          rw [← hn, hrest]
          simp
        obtain ⟨more, rfl, hmore, hlen, hrest₁, rfl⟩ := ih _ hlt h rfl
        refine ⟨b :: more, by simp, ?_, ?_, ?_, ?_⟩
        · intro c hc
          rcases List.mem_cons.1 hc with rfl | hc
          · exact ⟨hcr, hlf⟩
          · exact hmore c hc
        · intro _
          by_cases hempty : more = []
          · simp [hempty]
            omega
          · exact hlen hempty
        · rw [hrest, hrest₁]
          rfl
        · simp
          omega

/-- A line that is there, and not too long, is read. -/
theorem readLine_of_rest {max counted : Nat} {line more behind : Bytes} {s : Source}
    (hline : IsLine more) (hlen : line.length + more.length ≤ max)
    (h : s.rest = more ++ crlf ++ behind) :
    ∃ s', readLine max line counted s = .ok (line ++ more, counted + more.length + 2, s') ∧
      s'.rest = behind := by
  induction more generalizing line counted s with
  | nil =>
      obtain ⟨s₁, hnext, hrest₁⟩ := Source.nextByte_of_rest h
      obtain ⟨s₂, hnext₂, hrest₂⟩ := Source.nextByte_of_rest hrest₁
      refine ⟨s₂, ?_, hrest₂⟩
      unfold readLine
      split
      · rename_i hnone
        rw [hnext] at hnone
        cases hnone
      · rename_i b s' hsome
        rw [hnext] at hsome
        obtain ⟨rfl, rfl⟩ := Prod.mk.inj (Option.some.inj hsome)
        simp [hnext₂]
  | cons b more ih =>
      obtain ⟨hcr, hlf⟩ := hline b (List.mem_cons_self ..)
      have htail : IsLine more := fun c hc => hline c (List.mem_cons_of_mem _ hc)
      rw [List.length_cons] at hlen
      obtain ⟨s₁, hnext, hrest₁⟩ := Source.nextByte_of_rest h
      have hlen₁ : (line ++ [b]).length + more.length ≤ max := by
        simp
        omega
      obtain ⟨s', hread, hbehind⟩ := @ih (counted + 1) (line ++ [b]) s₁ htail hlen₁ hrest₁
      refine ⟨s', ?_, hbehind⟩
      unfold readLine
      split
      · rename_i hnone
        rw [hnext] at hnone
        cases hnone
      · rename_i b' s₂ hsome
        rw [hnext] at hsome
        obtain ⟨rfl, rfl⟩ := Prod.mk.inj (Option.some.inj hsome)
        have hmax : ¬max ≤ line.length := by omega
        rw [if_neg hcr, if_neg hlf, if_neg hmax, hread]
        simp
        omega

theorem readLineStrict_ok {r r' : Relay} {max : Nat} {echo : Bool} {line : Bytes}
    (h : readLineStrict r max echo = .ok (line, r')) :
    IsLine line ∧ line.length ≤ max ∧ r.source.rest = line ++ crlf ++ r'.source.rest := by
  obtain ⟨⟨line', counted, source⟩, hread, hpure⟩ := bind_eq_ok.1 h
  obtain ⟨rfl, rfl⟩ := Prod.mk.inj (Except.ok.inj hpure)
  obtain ⟨more, hmore, hline, hlen, hrest, rfl⟩ := readLine_ok hread
  rw [List.nil_append] at hmore
  subst hmore
  refine ⟨hline, ?_, hrest⟩
  by_cases hempty : line' = []
  · simp [hempty]
  · exact hlen hempty

/-- What `read_line_strict` does with a line that is there. -/
theorem readLineStrict_of_rest {r : Relay} {max : Nat} (echo : Bool) {line behind : Bytes}
    (hline : IsLine line) (hlen : line.length ≤ max)
    (h : r.source.rest = line ++ crlf ++ behind) :
    ∃ source, source.rest = behind ∧ readLineStrict r max echo = .ok (line,
      ⟨source, if echo then r.dst ++ (line ++ crlf) else r.dst, r.tap,
        r.relayed + (line ++ crlf).length⟩) := by
  have hlen' : ([] : Bytes).length + line.length ≤ max := by simpa using hlen
  obtain ⟨source, hread, hbehind⟩ := @readLine_of_rest _ r.relayed _ _ _ _ hline hlen' h
  refine ⟨source, hbehind, bind_eq_ok.2 ⟨_, hread, ?_⟩⟩
  simp [crlf, Nat.add_assoc]
  rfl

theorem readLineStrict_shortens {r r' : Relay} {max : Nat} {echo : Bool} {line : Bytes}
    (h : readLineStrict r max echo = .ok (line, r')) :
    r'.source.rest.length < r.source.rest.length := by
  obtain ⟨-, -, hrest⟩ := readLineStrict_ok h
  rw [hrest]
  simp [crlf]
  omega

/-! ## Chunk sizes and trailer fields -/

def isHexDigit (b : UInt8) : Bool :=
  (0x30 ≤ b && b ≤ 0x39) || (0x41 ≤ b && b ≤ 0x46) || (0x61 ≤ b && b ≤ 0x66)

def hexDigit (b : UInt8) : Nat :=
  if b ≤ 0x39 then b.toNat - 0x30 else if b ≤ 0x46 then b.toNat - 0x37 else b.toNat - 0x57

def hexValue (digits : Bytes) : Nat := digits.foldl (fun n b => n * 16 + hexDigit b) 0

/-- Parse a chunk-size line: plain hexadecimal digits, no extension. -/
def parseChunkSize (line : Bytes) : Except CoreError Nat :=
  if line = [] ∨ 16 < line.length then framingError "malformed chunk size"
  else
    match fromUtf8 line with
    | none => framingError "non-utf8 chunk size"
    | some text =>
        if !(utf8 text).all isHexDigit then
          framingError "chunk size must be plain hex with no extension"
        else if hexValue (utf8 text) < 2 ^ 64 then .ok (hexValue (utf8 text))
        else framingError "bad chunk size"

/-- Whether one trailer field may be relayed to the client. -/
def trailerIsRelayable (line : Bytes) : Bool :=
  line.contains 0x3a &&
    match fromUtf8 (line.takeWhile (· != 0x3a)) with
    | none => false
    | some name =>
        let lower := asciiLower (Text.trim name)
        lower ≠ [] &&
          !(lower = "set-cookie".toList || "access-control-".toList.isPrefixOf lower ||
            lower = "content-length".toList || lower = "transfer-encoding".toList ||
            lower = "trailer".toList || "proxy-".toList.isPrefixOf lower || hopByHop.contains lower)

/-! ## The relay -/

def Relay.write (r : Relay) (bytes : Bytes) : Relay := { r with dst := r.dst ++ bytes }

/-- A piece of chunk data goes to the client and, decoded as it is, to the tap. -/
def Relay.pass (r : Relay) (piece : Bytes) (source : Source) : Relay :=
  ⟨source, r.dst ++ piece, r.tap.map (· ++ piece), r.relayed + piece.length⟩

/-- A trailer field is written only if it may be relayed. -/
def Relay.writeTrailer (r : Relay) (trailer : Bytes) : Relay :=
  if trailerIsRelayable trailer then r.write (trailer ++ crlf) else r

@[simp] theorem Relay.source_writeTrailer (r : Relay) (trailer : Bytes) :
    (r.writeTrailer trailer).source = r.source := by
  unfold writeTrailer
  split_ifs <;> rfl

/-- The loop over the trailer section; its blank line is always written. -/
def relayTrailers (trailerBytes : Nat) (r : Relay) : Except CoreError Relay :=
  match h : readLineStrict r maxChunkLine false with
  | .error e => .error e
  | .ok (trailer, r') =>
      if trailer = [] then .ok (r'.write crlf)
      else if maxTrailer < trailerBytes + trailer.length then
        framingError "chunk trailer too large"
      else relayTrailers (trailerBytes + trailer.length) (r'.writeTrailer trailer)
termination_by r.source.rest.length
decreasing_by
  rw [Relay.source_writeTrailer]
  exact readLineStrict_shortens h

/-- The loop over the data of one chunk. -/
def relayData (remaining : Nat) (r : Relay) : Except CoreError Relay :=
  if remaining = 0 then .ok r
  else
    let (piece, source) := r.source.take (min copyBuf remaining)
    if hpiece : piece = [] then framingError "eof mid chunk"
    else relayData (remaining - piece.length) (r.pass piece source)
termination_by remaining
decreasing_by
  have := List.length_pos_iff.2 hpiece
  omega

theorem relayData_shortens {remaining : Nat} {r r' : Relay} (h : relayData remaining r = .ok r') :
    r'.source.rest.length ≤ r.source.rest.length := by
  fun_induction relayData remaining r with
  | case1 r => rw [Except.ok.inj h]
  | case2 => cases h
  | case3 remaining r hremaining piece source htake hpiece ih =>
      have hrest := r.source.rest_take (min copyBuf remaining)
      rw [htake] at hrest
      refine (ih h).trans ?_
      rw [← hrest]
      simp [Relay.pass]

/-- The loop over the chunks. -/
def relayChunks (r : Relay) : Except CoreError Relay :=
  match hsize : readLineStrict r maxChunkLine true with
  | .error e => .error e
  | .ok (line, r₁) =>
      match parseChunkSize line with
      | .error e => .error e
      | .ok size =>
          if size = 0 then relayTrailers 0 r₁
          else
            match hdata : relayData size r₁ with
            | .error e => .error e
            | .ok r₂ =>
                match hafter : readLineStrict r₂ 1 true with
                | .error e => .error e
                | .ok (after, r₃) =>
                    if after ≠ [] then framingError "malformed chunk terminator"
                    else relayChunks r₃
termination_by r.source.rest.length
decreasing_by
  exact (readLineStrict_shortens hafter).trans_le
    ((relayData_shortens hdata).trans (readLineStrict_shortens hsize).le)

/-- Relay a chunked body: the count and the bytes carried over are fields of the relay it returns. -/
def relayChunkedStrict (src : List Segment) (dst initial : Bytes) (tap : Option Bytes) :
    Except CoreError Relay :=
  relayChunks ⟨⟨src, initial⟩, dst, tap, 0⟩

def Relay.carryover (r : Relay) : Bytes := r.source.buffered

end Tethra.Gateway
