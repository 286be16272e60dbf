import Tethra.Observe.Wire

set_option autoImplicit false

/-! # Relaying a body (`observe/src/relay.rs`)

A body is copied as it is read, and only the framing of chunks is parsed. What was read beyond the body is
given back as the carryover. With a body that ends where its framing says, the destination gets the body,
and the carryover begins what follows it, however the bytes were cut into reads (`relayBody_of_rest`). -/

namespace Tethra.Interception

open Gateway Observe

/-! ## Connections -/

/-- The reads of a connection to come. Behind them its reader finds the end, or waits. -/
structure Conn where
  reads : List {s : Bytes // s ≠ []}
  closed : Bool

def Conn.bytes (c : Conn) : Bytes := c.reads.flatMap Subtype.val

/-- A read that does not come back, or the error of a function. -/
inductive Stop where
  | waiting
  | failed (e : CoreError)
  deriving DecidableEq

/-- One `read` into a buffer: what comes next, nothing at the end. -/
def Conn.read (c : Conn) (want : Nat) : Except Stop (Bytes × Conn) :=
  match c.reads with
  | [] => if c.closed then .ok ([], c) else .error .waiting
  | s :: reads =>
      if h : s.val.drop want = [] then .ok (s.val, { c with reads })
      else .ok (s.val.take want, { c with reads := ⟨s.val.drop want, h⟩ :: reads })

/-- A read brings something while there is something. -/
theorem Conn.read_of_bytes {c : Conn} {want : Nat} (hwant : 0 < want) (h : c.bytes ≠ []) :
    ∃ s c', c.read want = .ok (s, c') ∧ s ≠ [] ∧ s.length ≤ want ∧ c.bytes = s ++ c'.bytes ∧
      c'.closed = c.closed := by
  obtain ⟨reads, closed⟩ := c
  cases reads with
  | nil => exact absurd rfl h
  | cons s reads =>
      obtain ⟨s, hs⟩ := s
      by_cases hdrop : s.drop want = []
      · refine ⟨s, ⟨reads, closed⟩, by simp [Conn.read, hdrop], hs, by simpa using hdrop, rfl, rfl⟩
      · refine ⟨s.take want, ⟨⟨s.drop want, hdrop⟩ :: reads, closed⟩, by simp [Conn.read, hdrop], ?_,
          List.length_take_le _ _, ?_, rfl⟩
        · simp [hs]
          omega
        · simp [Conn.bytes, ← List.append_assoc]

theorem Conn.read_of_nil {c : Conn} (want : Nat) (h : c.bytes = []) :
    c.read want = if c.closed then .ok ([], c) else .error .waiting := by
  obtain ⟨reads, closed⟩ := c
  cases reads with
  | nil => rfl
  | cons s reads =>
      obtain ⟨s, hs⟩ := s
      simp [Conn.bytes, hs] at h

theorem Conn.read_eq {c c' : Conn} {want : Nat} {s : Bytes} (h : c.read want = .ok (s, c')) :
    c.bytes = s ++ c'.bytes ∧ c'.closed = c.closed := by
  obtain ⟨reads, closed⟩ := c
  cases reads with
  | nil =>
      simp only [Conn.read] at h
      split_ifs at h
      obtain ⟨rfl, rfl⟩ := Prod.mk.inj (Except.ok.inj h)
      exact ⟨rfl, rfl⟩
  | cons t reads =>
      simp only [Conn.read] at h
      split_ifs at h
      · obtain ⟨rfl, rfl⟩ := Prod.mk.inj (Except.ok.inj h)
        exact ⟨rfl, rfl⟩
      · obtain ⟨rfl, rfl⟩ := Prod.mk.inj (Except.ok.inj h)
        exact ⟨by simp [Conn.bytes, ← List.append_assoc], rfl⟩

/-! ## The relay -/

/-- `BUF`. -/
def bufSize : Nat := 16 * 1024

/-- `MAX_CHUNK_HEADER`. -/
def maxChunkHeader : Nat := 1024

/-- A result, and what the destination has got. -/
abbrev Relayed (α : Type) : Type := Except Stop α × Bytes

def refused {α : Type} (message : String) : Except Stop α := .error (.failed (.invalidInput message.toList))

/-- The loop of `relay_content_length`; the number is what remains. -/
def relayLength (remaining : Nat) (src : Conn) (dst : Bytes) : Relayed (Nat × Conn) :=
  if remaining = 0 then (.ok (0, src), dst)
  else
    match src.read (min bufSize remaining) with
    | .error e => (.error e, dst)
    | .ok (s, src) =>
        if s = [] then (.ok (remaining, src), dst) else relayLength (remaining - s.length) src (dst ++ s)
termination_by remaining
decreasing_by
  rename_i hs
  have := List.length_pos_iff.2 hs
  omega

/-- The loop of `relay_until_close`. -/
def relayUntilClose (src : Conn) (dst : Bytes) : Relayed Conn :=
  match h : src.read bufSize with
  | .error e => (.error e, dst)
  | .ok (s, src) => if s = [] then (.ok src, dst) else relayUntilClose src (dst ++ s)
termination_by src.bytes.length
decreasing_by
  rename_i src' hs
  have := List.length_pos_iff.2 hs
  rw [(Conn.read_eq h).1, List.length_append]
  omega

/-- The unread bytes of the buffer, and the connection. -/
structure Source where
  buf : Bytes
  src : Conn

def Source.rest (s : Source) : Bytes := s.buf ++ s.src.bytes

/-- `ensure`: a buffer with a byte in it; none at the end. -/
def Source.ensure (s : Source) : Except Stop (Option Source) :=
  if s.buf ≠ [] then .ok (some s)
  else
    match s.src.read bufSize with
    | .error e => .error e
    | .ok (bytes, src) => if bytes = [] then .ok none else .ok (some ⟨bytes, src⟩)

def Source.byte (s : Source) : Except Stop (Option (UInt8 × Source)) :=
  s.ensure.map fun o => o.bind fun s =>
    match s.buf with
    | [] => none
    | b :: buf => some (b, ⟨buf, s.src⟩)

/-- `read_line_echo`, with the line so far. -/
def readLineEcho (line : Bytes) (s : Source) (dst : Bytes) : Relayed (Bytes × Source) :=
  match s.byte with
  | .error e => (.error e, dst)
  | .ok none => (refused "eof in chunk framing", dst)
  | .ok (some (b, s)) =>
      let line := line ++ [b]
      if b = lf then (.ok (line, s), dst ++ [b])
      else if maxChunkHeader < line.length then (refused "chunk header too long", dst ++ [b])
      else readLineEcho line s (dst ++ [b])
termination_by maxChunkHeader + 1 - line.length
decreasing_by
  rename_i hlong
  simp only [line, List.length_append, List.length_singleton] at *
  omega

/-- `copy_n_echo`. -/
def copyNEcho (n : Nat) (s : Source) (dst : Bytes) : Relayed Source :=
  if n = 0 then (.ok s, dst)
  else
    match s.ensure with
    | .error e => (.error e, dst)
    | .ok none => (refused "eof mid chunk", dst)
    | .ok (some s) =>
        -- The buffer is not empty here.
        if s.buf = [] then (refused "eof mid chunk", dst)
        else copyNEcho (n - (s.buf.take n).length) ⟨s.buf.drop n, s.src⟩ (dst ++ s.buf.take n)
termination_by n
decreasing_by
  rename_i hs
  have := List.length_pos_iff.2 hs
  simp only [List.length_take]
  omega

theorem Source.ensure_eq {s s' : Source} (h : s.ensure = .ok (some s')) :
    s'.rest = s.rest ∧ s'.src.closed = s.src.closed := by
  obtain ⟨buf, src⟩ := s
  unfold ensure at h
  split_ifs at h with hbuf
  · obtain rfl := Option.some.inj (Except.ok.inj h)
    exact ⟨rfl, rfl⟩
  · obtain rfl : buf = [] := not_not.1 hbuf
    cases hread : src.read bufSize with
    | error e => simp [hread] at h
    | ok r =>
        obtain ⟨bytes, src'⟩ := r
        simp only [hread] at h
        split_ifs at h
        · cases Except.ok.inj h
        · obtain rfl := Option.some.inj (Except.ok.inj h)
          obtain ⟨hbytes, hclosed⟩ := Conn.read_eq hread
          exact ⟨by simp [rest, hbytes], hclosed⟩

theorem Source.byte_eq {s s' : Source} {b : UInt8} (h : s.byte = .ok (some (b, s'))) :
    s.rest = b :: s'.rest ∧ s'.src.closed = s.src.closed := by
  unfold byte at h
  cases hensure : s.ensure with
  | error e => simp [hensure, Except.map] at h
  | ok o =>
      cases o with
      | none => simp [hensure, Except.map] at h
      | some t =>
          obtain ⟨hrest, hclosed⟩ := ensure_eq hensure
          obtain ⟨buf, src⟩ := t
          cases buf with
          | nil => simp [hensure, Except.map] at h
          | cons c buf =>
              simp only [hensure, Except.map, Option.bind_some] at h
              obtain ⟨rfl, rfl⟩ := Prod.mk.inj (Option.some.inj (Except.ok.inj h))
              exact ⟨hrest.symm, hclosed⟩

theorem readLineEcho_rest {line line' dst : Bytes} {s s' : Source}
    (h : (readLineEcho line s dst).1 = .ok (line', s')) : s'.rest.length < s.rest.length := by
  fun_induction readLineEcho line s dst with
  | case1 line s dst e hbyte => simp at h
  | case2 line s dst hbyte => simp [refused] at h
  | case3 line s dst s₁ hbyte line₁ =>
      obtain ⟨-, rfl⟩ := Prod.mk.inj (Except.ok.inj h)
      rw [(Source.byte_eq hbyte).1]
      simp
  | case4 line s dst b s₁ hbyte line₁ hb hlong => simp [refused] at h
  | case5 line s dst b s₁ hbyte line₁ hb hlong ih =>
      have := ih h
      rw [(Source.byte_eq hbyte).1, List.length_cons]
      omega

theorem copyNEcho_rest {n : Nat} {dst : Bytes} {s s' : Source} (h : (copyNEcho n s dst).1 = .ok s') :
    s'.rest.length ≤ s.rest.length := by
  fun_induction copyNEcho n s dst with
  | case1 s dst =>
      obtain rfl := Except.ok.inj h
      exact le_rfl
  | case5 n s dst hn s₁ hensure hs ih =>
      have := ih h
      rw [← (Source.ensure_eq hensure).1]
      simp only [Source.rest, List.length_append, List.length_drop] at this ⊢
      omega
  | _ => simp [refused] at h

/-- The loop over the trailer fields, to the empty line. -/
def relayTrailers (s : Source) (dst : Bytes) : Relayed Source :=
  match h : readLineEcho [] s dst with
  | (.error e, dst) => (.error e, dst)
  | (.ok (line, s), dst) => if line = crlf ∨ line = [lf] then (.ok s, dst) else relayTrailers s dst
termination_by s.rest.length
decreasing_by exact readLineEcho_rest (congrArg Prod.fst h)

def dropPlus : Str → Str
  | '+' :: rest => rest
  | t => t

/-- `usize::from_str_radix` with radix 16: a sign `+` is allowed. -/
def usizeFromHex (t : Str) : Option Nat :=
  let digits := dropPlus t
  if digits = [] || !(utf8 digits).all isHexDigit then none
  else if hexValue (utf8 digits) < 2 ^ 64 then some (hexValue (utf8 digits)) else none

/-- `parse_chunk_size`: an extension behind a semicolon is not read. -/
def chunkSize (line : Bytes) : Except Stop Nat :=
  match fromUtf8 line with
  | none => refused "non-utf8 chunk size"
  | some text =>
      let text := text.rdropWhile fun c => c = '\r' || c = '\n'
      match usizeFromHex (Text.trim (text.takeWhile (· != ';'))) with
      | none => refused "bad chunk size"
      | some n => .ok n

/-- The loop of `relay_chunked`. -/
def relayChunked (s : Source) (dst : Bytes) : Relayed Source :=
  match h : readLineEcho [] s dst with
  | (.error e, dst) => (.error e, dst)
  | (.ok (line, s), dst) =>
      match chunkSize line with
      | .error e => (.error e, dst)
      | .ok 0 => relayTrailers s dst
      | .ok (n + 1) =>
          match hcopy : copyNEcho (n + 1) s dst with
          | (.error e, dst) => (.error e, dst)
          | (.ok s, dst) =>
              match hline : readLineEcho [] s dst with
              | (.error e, dst) => (.error e, dst)
              | (.ok (line, s), dst) =>
                  if line ≠ crlf ∧ line ≠ [lf] then (refused "malformed chunk terminator", dst)
                  else relayChunked s dst
termination_by s.rest.length
decreasing_by
  have hsize := readLineEcho_rest (congrArg Prod.fst h)
  have hdata := copyNEcho_rest (congrArg Prod.fst hcopy)
  have hend := readLineEcho_rest (congrArg Prod.fst hline)
  omega

/-- `relay_body`: how many bytes were relayed, the carryover, and the connection behind it. -/
def relayBody (framing : BodyFraming) (initial : Bytes) (src : Conn) (dst : Bytes) :
    Relayed (Nat × Bytes × Conn) :=
  match framing with
  | .none => (.ok (0, initial, src), dst)
  | .contentLength n =>
      let first := min initial.length n
      let run := relayLength (n - first) src (dst ++ initial.take first)
      (run.1.map fun (remaining, src) => (n - remaining, initial.drop first, src), run.2)
  | .chunked =>
      let run := relayChunked ⟨initial, src⟩ dst
      (run.1.map fun s => (run.2.length - dst.length, s.buf, s.src), run.2)
  | .untilClose =>
      let run := relayUntilClose src (dst ++ initial)
      (run.1.map fun src => (run.2.length - dst.length, [], src), run.2)

/-! ## Bodies on the wire -/

/-- A size line: hexadecimal digits, then perhaps blanks and an extension, in ASCII. -/
structure SizeLine (n : Nat) (line : Bytes) : Prop where
  shape : ∃ digits blanks extension, line = digits ++ blanks ++ extension ++ crlf ∧ digits ≠ [] ∧
    (∀ b ∈ digits, isHexDigit b = true) ∧ hexValue digits = n ∧ (∀ b ∈ blanks, b = 0x20 ∨ b = 0x09) ∧
    (∀ b ∈ extension.head?, b = 0x3b) ∧ ∀ b ∈ extension, b < 128 ∧ b ≠ cr ∧ b ≠ lf
  small : n < 2 ^ 64
  short : line.length ≤ maxChunkHeader

/-- Trailer fields and the empty line. -/
inductive Trailers : Bytes → Prop where
  | done : Trailers crlf
  | field {line rest : Bytes} (nonempty : line ≠ []) (isLine : lf ∉ line)
      (short : line.length < maxChunkHeader) (trailers : Trailers rest) : Trailers (line ++ crlf ++ rest)

inductive Chunks : Bytes → Prop where
  | last {line trailers : Bytes} (size : SizeLine 0 line) (fields : Trailers trailers) :
      Chunks (line ++ trailers)
  | chunk {line data rest : Bytes} (size : SizeLine data.length line) (nonempty : data ≠ [])
      (chunks : Chunks rest) : Chunks (line ++ data ++ crlf ++ rest)

/-- A body that ends where its framing says. -/
def IsBody (framing : BodyFraming) (body : Bytes) : Prop :=
  match framing with
  | .none => body = []
  | .contentLength n => body.length = n
  | .chunked => Chunks body
  | .untilClose => True

/-! ## The relay of a body -/

section

variable {s : Source} {src : Conn} (dst : Bytes) {more : Bytes}

theorem Source.ensure_of_rest (h : s.rest ≠ []) :
    ∃ s', s.ensure = .ok (some s') ∧ s'.buf ≠ [] ∧ s'.rest = s.rest ∧ s'.src.closed = s.src.closed := by
  obtain ⟨buf, src⟩ := s
  by_cases hbuf : buf = []
  · subst hbuf
    obtain ⟨bytes, src', hread, hne, -, hbytes, hclosed⟩ :=
      Conn.read_of_bytes (c := src) (by decide : 0 < bufSize) (by simpa [rest] using h)
    exact ⟨⟨bytes, src'⟩, by simp [ensure, hread, hne], hne, by simp [rest, hbytes], hclosed⟩
  · exact ⟨⟨buf, src⟩, by simp [ensure, hbuf], hbuf, rfl, rfl⟩

theorem Source.byte_of_rest {b : UInt8} (h : s.rest = b :: more) :
    ∃ s', s.byte = .ok (some (b, s')) ∧ s'.rest = more ∧ s'.src.closed = s.src.closed := by
  obtain ⟨⟨buf, src⟩, hensure, hne, hrest, hclosed⟩ := ensure_of_rest (s := s) (by simp [h])
  obtain ⟨c, buf, rfl⟩ := List.exists_cons_of_ne_nil hne
  rw [h] at hrest
  obtain ⟨rfl, hmore⟩ := List.cons.inj hrest
  exact ⟨⟨buf, src⟩, by simp [byte, hensure, Except.map], hmore, hclosed⟩

/-- A line is echoed to its line feed. -/
theorem readLineEcho_of_rest (line : Bytes) {text : Bytes} (hlf : lf ∉ text)
    (hlen : line.length + text.length ≤ maxChunkHeader) (h : s.rest = text ++ lf :: more) :
    ∃ s', readLineEcho line s dst = (.ok (line ++ text ++ [lf], s'), dst ++ text ++ [lf]) ∧
      s'.rest = more ∧ s'.src.closed = s.src.closed := by
  induction text generalizing line s dst with
  | nil =>
      obtain ⟨s', hbyte, hrest, hclosed⟩ := Source.byte_of_rest h
      exact ⟨s', by rw [readLineEcho, hbyte]; simp, hrest, hclosed⟩
  | cons b text ih =>
      simp only [List.mem_cons, not_or, List.length_cons] at hlf hlen
      obtain ⟨s₁, hbyte, hrest, hclosed⟩ := Source.byte_of_rest h
      obtain ⟨s', hline, hrest', hclosed'⟩ := ih (dst ++ [b]) (line ++ [b]) hlf.2
        (by simp only [List.length_append, List.length_singleton]; omega) hrest
      refine ⟨s', ?_, hrest', hclosed'.trans hclosed⟩
      have hlong : ¬maxChunkHeader < (line ++ [b]).length := by
        simp only [List.length_append, List.length_singleton]
        omega
      rw [readLineEcho, hbyte]
      simp only [if_neg (Ne.symm hlf.1), if_neg hlong, hline]
      simp

theorem copyNEcho_of_rest {data : Bytes} {n : Nat} (hn : data.length = n) (h : s.rest = data ++ more) :
    ∃ s', copyNEcho n s dst = (.ok s', dst ++ data) ∧ s'.rest = more ∧ s'.src.closed = s.src.closed := by
  induction n using Nat.strong_induction_on generalizing s dst data with
  | _ n ih =>
      by_cases hzero : n = 0
      · obtain rfl : data = [] := List.length_eq_zero_iff.1 (hn.trans hzero)
        exact ⟨s, by rw [copyNEcho, if_pos hzero, List.append_nil], h, rfl⟩
      have hdata : data ≠ [] := by
        rintro rfl
        exact hzero hn.symm
      obtain ⟨s₁, hensure, hne, hrest, hclosed⟩ := Source.ensure_of_rest (s := s) (by simp [h, hdata])
      have hbuf : s₁.buf ++ s₁.src.bytes = data ++ more := hrest.trans h
      obtain ⟨k, hk⟩ : ∃ k, k = min n s₁.buf.length := ⟨_, rfl⟩
      have hpos : 0 < k := by
        have := List.length_pos_iff.2 hne
        omega
      have htake : s₁.buf.take n = data.take k := by
        have hprefix := congrArg (List.take k) hbuf
        rw [List.take_append_of_le_length (by omega), List.take_append_of_le_length (by omega)] at hprefix
        rw [← hprefix]
        obtain hle | hle := le_total n s₁.buf.length
        · rw [hk, min_eq_left hle]
        · rw [hk, min_eq_right hle, List.take_length, List.take_of_length_le hle]
      have hdrop : s₁.buf.drop n ++ s₁.src.bytes = data.drop k ++ more := by
        have hsuffix := congrArg (List.drop k) hbuf
        rw [List.drop_append_of_le_length (by omega), List.drop_append_of_le_length (by omega)] at hsuffix
        rw [← hsuffix]
        congr 1
        obtain hle | hle := le_total n s₁.buf.length
        · rw [hk, min_eq_left hle]
        · rw [hk, min_eq_right hle, List.drop_length, List.drop_eq_nil_of_le hle]
      have hlen : (s₁.buf.take n).length = k := by rw [List.length_take, hk]
      obtain ⟨s', hcopy, hrest', hclosed'⟩ := ih (n - k) (by omega) (dst ++ data.take k)
        (by rw [List.length_drop, hn])
        (show (⟨s₁.buf.drop n, s₁.src⟩ : Source).rest = data.drop k ++ more from hdrop)
      refine ⟨s', ?_, hrest', hclosed'.trans hclosed⟩
      rw [copyNEcho, if_neg hzero, hensure]
      simp only [if_neg hne]
      rw [hlen, htake, hcopy, List.append_assoc, List.take_append_drop]

theorem relayLength_of_bytes {data : Bytes} {n : Nat} (hn : data.length = n)
    (h : src.bytes = data ++ more) :
    ∃ src', relayLength n src dst = (.ok (0, src'), dst ++ data) ∧ src'.bytes = more ∧
      src'.closed = src.closed := by
  induction n using Nat.strong_induction_on generalizing src dst data with
  | _ n ih =>
      by_cases hzero : n = 0
      · obtain rfl : data = [] := List.length_eq_zero_iff.1 (hn.trans hzero)
        exact ⟨src, by rw [relayLength, if_pos hzero, List.append_nil], h, rfl⟩
      have hdata : data ≠ [] := by
        rintro rfl
        exact hzero hn.symm
      have hwant : 0 < min bufSize n := by
        have : 0 < bufSize := by decide
        omega
      obtain ⟨piece, src₁, hread, hne, hlen, hbytes, hclosed⟩ :=
        Conn.read_of_bytes (c := src) hwant (by simp [h, hdata])
      have hle : piece.length ≤ data.length := hlen.trans ((min_le_right _ _).trans hn.ge)
      have hpos := List.length_pos_iff.2 hne
      rw [hbytes] at h
      have hpiece : piece = data.take piece.length := by
        have hprefix := congrArg (List.take piece.length) h
        rwa [List.take_left, List.take_append_of_le_length hle] at hprefix
      have hrest : src₁.bytes = data.drop piece.length ++ more := by
        have hsuffix := congrArg (List.drop piece.length) h
        rwa [List.drop_left, List.drop_append_of_le_length hle] at hsuffix
      obtain ⟨src', hloop, hrest', hclosed'⟩ := ih (n - piece.length) (by omega)
        (dst ++ piece) (by rw [List.length_drop, hn]) hrest
      refine ⟨src', ?_, hrest', hclosed'.trans hclosed⟩
      rw [relayLength, if_neg hzero, hread]
      simp only [if_neg hne, hloop]
      conv_lhs => rw [hpiece]
      rw [List.append_assoc, List.length_take_of_le hle, List.take_append_drop]

theorem relayUntilClose_of_closed (hclosed : src.closed = true) :
    ∃ src', relayUntilClose src dst = (.ok src', dst ++ src.bytes) ∧ src'.bytes = [] ∧
      src'.closed = true := by
  fun_induction relayUntilClose src dst with
  | case1 src dst e hread =>
      by_cases hbytes : src.bytes = []
      · rw [Conn.read_of_nil _ hbytes, hclosed] at hread
        cases hread
      · obtain ⟨piece, src', hread', -⟩ := Conn.read_of_bytes (by decide : 0 < bufSize) hbytes
        rw [hread'] at hread
        cases hread
  | case2 src dst src' hread =>
      obtain ⟨hbytes, hclosed'⟩ := Conn.read_eq hread
      have hnil : src.bytes = [] := by
        by_contra hne
        obtain ⟨piece, _, hread', hpiece, -⟩ := Conn.read_of_bytes (by decide : 0 < bufSize) hne
        rw [hread'] at hread
        exact hpiece (Prod.mk.inj (Except.ok.inj hread)).1
      exact ⟨src', by rw [hnil, List.append_nil], by simpa [hnil] using hbytes.symm, hclosed'.trans hclosed⟩
  | case3 src dst piece src' hread hne ih =>
      obtain ⟨hbytes, hclosed'⟩ := Conn.read_eq hread
      obtain ⟨src'', hloop, hrest⟩ := ih (hclosed'.trans hclosed)
      refine ⟨src'', ?_, hrest⟩
      rw [hloop, hbytes, List.append_assoc]

theorem relayTrailers_of_rest {trailers : Bytes} (htrailers : Trailers trailers)
    (h : s.rest = trailers ++ more) :
    ∃ s', relayTrailers s dst = (.ok s', dst ++ trailers) ∧ s'.rest = more ∧
      s'.src.closed = s.src.closed := by
  induction htrailers generalizing s dst with
  | done =>
      obtain ⟨s', hline, hrest, hclosed⟩ := readLineEcho_of_rest dst []
        (by decide : lf ∉ [cr]) (by decide) h
      refine ⟨s', ?_, hrest, hclosed⟩
      rw [relayTrailers, hline]
      simp [crlf]
  | @field line rest hne hlf hshort htrailers ih =>
      have hline' : lf ∉ line ++ [cr] := by
        simp only [List.mem_append, List.mem_singleton, not_or]
        exact ⟨hlf, by decide⟩
      obtain ⟨s₁, hline, hrest, hclosed⟩ := readLineEcho_of_rest dst [] hline'
        (by simp only [List.length_append, List.length_singleton, List.length_nil]; omega)
        (by rw [h]; simp [crlf] : s.rest = (line ++ [cr]) ++ lf :: (rest ++ more))
      obtain ⟨s', htail, hrest', hclosed'⟩ := ih (dst ++ (line ++ [cr]) ++ [lf]) hrest
      refine ⟨s', ?_, hrest', hclosed'.trans hclosed⟩
      have hblank : ¬([] ++ (line ++ [cr]) ++ [lf] = crlf ∨ [] ++ (line ++ [cr]) ++ [lf] = [lf]) := by
        rintro (heq | heq)
        · have hlen := congrArg List.length heq
          have hpos := List.length_pos_iff.2 hne
          simp only [List.nil_append, List.length_append, List.length_cons, List.length_nil, crlf] at hlen
          omega
        · have hlen := congrArg List.length heq
          simp at hlen
      rw [relayTrailers, hline]
      simp only [if_neg hblank, htail]
      simp [crlf]

theorem hexDigit_text :
    ∀ b : UInt8, isHexDigit b = true → Text.isWhitespace (charOf b) = false ∧ charOf b ≠ '+' ∧
      charOf b ≠ ';' ∧ charOf b ≠ '\r' ∧ charOf b ≠ '\n' ∧ b < 128 := by
  decide +kernel

theorem charOf_eq_lineEnd :
    ∀ b : UInt8, b < 128 → b ≠ cr → b ≠ lf → charOf b ≠ '\r' ∧ charOf b ≠ '\n' := by
  decide +kernel

theorem usizeFromHex_digits {digits : Bytes} (hne : digits ≠ [])
    (hdigits : ∀ b ∈ digits, isHexDigit b = true) :
    usizeFromHex (digits.map charOf) = if hexValue digits < 2 ^ 64 then some (hexValue digits) else none := by
  have hascii : utf8 (digits.map charOf) = digits :=
    fromUtf8_eq_some.1 (fromUtf8_ascii fun b hb => (hexDigit_text b (hdigits b hb)).2.2.2.2.2)
  have hall : (digits.all isHexDigit) = true := List.all_eq_true.2 hdigits
  obtain ⟨d, rest, rfl⟩ := List.exists_cons_of_ne_nil hne
  have hplus : charOf d ≠ '+' := (hexDigit_text d (hdigits d List.mem_cons_self)).2.1
  unfold usizeFromHex
  have hdrop : dropPlus ((d :: rest).map charOf) = (d :: rest).map charOf := by
    rw [List.map_cons, dropPlus]
    exact fun _ heq => hplus (List.cons.inj heq).1
  dsimp only
  rw [hdrop, hascii, hall]
  simp

/-- Blanks before an extension, or before the end of the line, are trimmed. -/
theorem trim_digits {digits blanks : Bytes} (hdigits : ∀ b ∈ digits, isHexDigit b = true)
    (hblanks : ∀ b ∈ blanks, b = 0x20 ∨ b = 0x09) :
    Text.trim ((digits ++ blanks).map charOf) = digits.map charOf := by
  have hspaces : ∀ c ∈ blanks.map charOf, Text.isWhitespace c = true := by
    simp only [List.mem_map]
    rintro _ ⟨b, hb, rfl⟩
    obtain rfl | rfl := hblanks b hb
    · decide
    · decide
  have hplain : ∀ c ∈ digits.map charOf, Text.isWhitespace c = false := by
    simp only [List.mem_map]
    rintro _ ⟨b, hb, rfl⟩
    exact (hexDigit_text b (hdigits b hb)).1
  rw [List.map_append, Text.trim_append_of_ws hspaces]
  exact Text.trim_of_noWs (fun c hc => hplain c (List.mem_of_head? hc))
    fun c hc => hplain c (List.mem_of_getLast? hc)

theorem chunkSize_of_line {n : Nat} {line : Bytes} (hline : SizeLine n line) : chunkSize line = .ok n := by
  obtain ⟨digits, blanks, extension, rfl, hne, hdigits, rfl, hblanks, hsemi, hext⟩ := hline.shape
  have hdigit := fun b hb => hexDigit_text b (hdigits b hb)
  have hblank : ∀ b ∈ blanks, b < 128 ∧ Text.isWhitespace (charOf b) = true ∧ charOf b ≠ ';' ∧
      charOf b ≠ '\r' ∧ charOf b ≠ '\n' := by
    intro b hb
    obtain rfl | rfl := hblanks b hb <;> decide
  have hascii : ∀ b ∈ digits ++ blanks ++ extension ++ crlf, b < 128 := by
    simp only [List.mem_append]
    rintro b (((hb | hb) | hb) | hb)
    · exact (hdigit b hb).2.2.2.2.2
    · exact (hblank b hb).1
    · exact (hext b hb).1
    · obtain rfl | rfl : b = cr ∨ b = lf := by simpa [crlf] using hb
      · decide
      · decide
  have hstart : ((digits ++ blanks ++ extension ++ crlf).map charOf).rdropWhile
      (fun c => c = '\r' || c = '\n') = (digits ++ blanks ++ extension).map charOf := by
    have hends : ∀ b ∈ digits ++ blanks ++ extension, charOf b ≠ '\r' ∧ charOf b ≠ '\n' := by
      simp only [List.mem_append]
      rintro b ((hb | hb) | hb)
      · exact ⟨(hdigit b hb).2.2.2.1, (hdigit b hb).2.2.2.2.1⟩
      · exact (hblank b hb).2.2.2
      · exact charOf_eq_lineEnd b (hext b hb).1 (hext b hb).2.1 (hext b hb).2.2
    have hcrlf : crlf.map charOf = ['\r', '\n'] := by decide
    rw [List.map_append, hcrlf, ← List.singleton_append, ← List.append_assoc,
      List.rdropWhile_concat_pos _ _ _ (by decide), List.rdropWhile_concat_pos _ _ _ (by decide),
      List.rdropWhile_eq_self_iff]
    intro hne' hlast
    obtain ⟨b, hb, heq⟩ := List.mem_map.1 (List.getLast_mem hne')
    have := hends b hb
    rw [← heq] at hlast
    simp [this] at hlast
  have hhex : ((digits ++ blanks ++ extension).map charOf).takeWhile (· != ';') =
      (digits ++ blanks).map charOf := by
    rw [List.map_append, List.takeWhile_append_of_pos]
    · cases extension with
      | nil => simp
      | cons b extension =>
          obtain rfl := hsemi b rfl
          have hb : charOf 0x3b = ';' := by decide
          simp [hb]
    · simp only [List.mem_map, List.mem_append]
      rintro _ ⟨b, hb | hb, rfl⟩
      · simpa using (hdigit b hb).2.2.1
      · simpa using (hblank b hb).2.2.1
  unfold chunkSize
  rw [fromUtf8_ascii hascii]
  simp only [hstart, hhex, trim_digits hdigits hblanks, usizeFromHex_digits hne hdigits, hline.small, if_true]

theorem SizeLine.text {n : Nat} {line : Bytes} (hline : SizeLine n line) :
    ∃ text, line = text ++ [lf] ∧ lf ∉ text ∧ text.length ≤ maxChunkHeader := by
  obtain ⟨digits, blanks, extension, rfl, -, hdigits, -, hblanks, -, hext⟩ := hline.shape
  refine ⟨digits ++ blanks ++ extension ++ [cr], by simp [crlf], ?_, ?_⟩
  · simp only [List.mem_append, List.mem_singleton, not_or]
    refine ⟨⟨⟨fun h => ?_, fun h => ?_⟩, fun h => (hext _ h).2.2 rfl⟩, by decide⟩
    · exact absurd (hdigits _ h) (by decide)
    · exact absurd (hblanks _ h) (by decide)
  · have := hline.short
    simp only [List.length_append, crlf, List.length_cons, List.length_nil] at this ⊢
    omega

theorem relayChunked_of_rest {body : Bytes} (hbody : Chunks body) (h : s.rest = body ++ more) :
    ∃ s', relayChunked s dst = (.ok s', dst ++ body) ∧ s'.rest = more ∧
      s'.src.closed = s.src.closed := by
  induction hbody generalizing s dst with
  | @last line trailers size fields =>
      obtain ⟨text, htext, hlf, hlen⟩ := size.text
      obtain ⟨s₁, hline, hrest, hclosed⟩ := readLineEcho_of_rest dst [] hlf (by simpa using hlen)
        (by rw [h, htext]; simp : s.rest = text ++ lf :: (trailers ++ more))
      obtain ⟨s', htail, hrest', hclosed'⟩ := relayTrailers_of_rest (dst ++ text ++ [lf]) fields hrest
      refine ⟨s', ?_, hrest', hclosed'.trans hclosed⟩
      rw [relayChunked, hline]
      have hsize : chunkSize ([] ++ text ++ [lf]) = .ok 0 := by
        rw [List.nil_append, ← htext]
        exact chunkSize_of_line size
      simp only [hsize, htail]
      rw [htext]
      simp
  | @chunk line data rest size hne chunks ih =>
      obtain ⟨text, htext, hlf, hlen⟩ := size.text
      obtain ⟨s₁, hline, hrest₁, hclosed₁⟩ := readLineEcho_of_rest dst [] hlf (by simpa using hlen)
        (by rw [h, htext]; simp : s.rest = text ++ lf :: (data ++ (crlf ++ (rest ++ more))))
      obtain ⟨s₂, hcopy, hrest₂, hclosed₂⟩ := copyNEcho_of_rest (dst ++ text ++ [lf]) rfl hrest₁
      obtain ⟨s₃, hend, hrest₃, hclosed₃⟩ := readLineEcho_of_rest (dst ++ text ++ [lf] ++ data) []
        (by decide : lf ∉ [cr]) (by decide)
        (by rw [hrest₂]; simp [crlf] : s₂.rest = [cr] ++ lf :: (rest ++ more))
      obtain ⟨s', hloop, hrest', hclosed'⟩ :=
        ih (dst ++ text ++ [lf] ++ data ++ [cr] ++ [lf]) hrest₃
      refine ⟨s', ?_, hrest', hclosed'.trans (hclosed₃.trans (hclosed₂.trans hclosed₁))⟩
      have hsize : chunkSize ([] ++ text ++ [lf]) = .ok data.length := by
        rw [List.nil_append, ← htext]
        exact chunkSize_of_line size
      obtain ⟨k, hk⟩ : ∃ k, data.length = k + 1 :=
        Nat.exists_eq_succ_of_ne_zero (List.length_pos_iff.2 hne).ne'
      rw [hk] at hsize hcopy
      rw [relayChunked, hline]
      simp only [hsize]
      rw [hcopy]
      simp only
      rw [hend]
      simp only
      rw [if_neg (by simp [crlf]), hloop, htext]
      simp [crlf]

/-- The destination gets the body, and what follows it is left for the next message. -/
theorem relayBody_of_rest {framing : BodyFraming} {initial body : Bytes} (hbody : IsBody framing body)
    (hclose : framing = .untilClose → src.closed = true ∧ more = [])
    (h : initial ++ src.bytes = body ++ more) :
    ∃ carry src', relayBody framing initial src dst = (.ok (body.length, carry, src'), dst ++ body) ∧
      carry ++ src'.bytes = more ∧ src'.closed = src.closed := by
  cases framing with
  | none =>
      obtain rfl : body = [] := hbody
      exact ⟨initial, src, by simp [relayBody], h, rfl⟩
  | contentLength n =>
      have hn : body.length = n := hbody
      obtain ⟨k, hk⟩ : ∃ k, k = min initial.length n := ⟨_, rfl⟩
      have htake : initial.take k = body.take k := by
        have hprefix := congrArg (List.take k) h
        rwa [List.take_append_of_le_length (by omega), List.take_append_of_le_length (by omega)] at hprefix
      have hdrop : initial.drop k ++ src.bytes = body.drop k ++ more := by
        have hsuffix := congrArg (List.drop k) h
        rwa [List.drop_append_of_le_length (by omega), List.drop_append_of_le_length (by omega)] at hsuffix
      -- Either the body is over in what was read, or all of that belongs to it.
      obtain hshort | hlong := le_total n initial.length
      · have hkn : k = n := by omega
        have hbodynil : body.drop k = [] := List.drop_eq_nil_of_le (by omega)
        have hbodyall : body.take k = body := List.take_of_length_le (by omega)
        refine ⟨initial.drop k, src, ?_, by simpa [hbodynil] using hdrop, rfl⟩
        have hzero : n - k = 0 := by omega
        simp only [relayBody, ← hk]
        rw [relayLength, if_pos hzero, htake, hbodyall]
        simp [Except.map, hn]
      · have hki : k = initial.length := by omega
        have hnil : initial.drop k = [] := List.drop_eq_nil_of_le (by omega)
        rw [hnil, List.nil_append] at hdrop
        obtain ⟨src', hloop, hrest, hclosed⟩ := relayLength_of_bytes (dst ++ initial.take k)
          (by rw [List.length_drop, hn] : (body.drop k).length = n - k) hdrop
        refine ⟨[], src', ?_, hrest, hclosed⟩
        simp only [relayBody, ← hk, hloop]
        rw [htake, List.append_assoc, List.take_append_drop, hnil]
        simp [Except.map, hn]
  | chunked =>
      obtain ⟨s', hloop, hrest, hclosed⟩ := relayChunked_of_rest dst hbody
        (show (⟨initial, src⟩ : Source).rest = body ++ more from h)
      refine ⟨s'.buf, s'.src, ?_, hrest, hclosed⟩
      simp only [relayBody, hloop]
      simp [Except.map]
  | untilClose =>
      obtain ⟨hclosed, rfl⟩ := hclose rfl
      obtain ⟨src', hloop, hnil, hclosed'⟩ := relayUntilClose_of_closed (dst ++ initial) hclosed
      rw [List.append_nil] at h
      refine ⟨[], src', ?_, hnil, hclosed'.trans hclosed.symm⟩
      simp only [relayBody, hloop]
      rw [List.append_assoc, h]
      simp [Except.map]

end

end Tethra.Interception
