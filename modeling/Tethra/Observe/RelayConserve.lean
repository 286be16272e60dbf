import Tethra.Lib.Quote
import Tethra.Lib.Url
import Tethra.Observe.Relay

set_option autoImplicit false

/-! # What the relay does with the bytes (`observe/src/relay.rs`)

Whatever the stream holds, what was written, what is carried over and what was not read are the input in
order, and a relay that fails has written a beginning of it. The lines and the data that the relay of chunks
reads are therefore cut from the input by their own ends, and where the input begins with a body there is only
one way to cut it: a relay that comes back stopped at the end of that body (`relayBody_conserves`). -/

namespace Tethra.Interception

open Gateway Observe

/-! ## Conservation -/

/-- A relay of `input` writes a beginning of it, and its result holds the rest. -/
def Conserves {α : Type} (rest : α → Bytes) (input dst : Bytes) (r : Relayed α) : Prop :=
  ∃ written left, r.2 = dst ++ written ∧ written ++ left = input ∧ ∀ a, r.1 = .ok a → rest a = left

section

variable {α : Type} {rest : α → Bytes} {input dst : Bytes}

theorem Conserves.error (e : Stop) : Conserves rest input dst (.error e, dst) :=
  ⟨[], input, by simp, rfl, fun _ h => by cases h⟩

theorem Conserves.ok {a : α} (h : rest a = input) : Conserves rest input dst (.ok a, dst) :=
  ⟨[], input, by simp, rfl, fun b hb => by rw [← Except.ok.inj hb, h]⟩

/-- First some bytes are written, then the relay goes on. -/
theorem Conserves.after {written left : Bytes} {r : Relayed α} (hinput : written ++ left = input)
    (h : Conserves rest left (dst ++ written) r) : Conserves rest input dst r := by
  obtain ⟨more, final, hdst, hleft, hok⟩ := h
  exact ⟨written ++ more, final, by rw [hdst, List.append_assoc], by rw [List.append_assoc, hleft, hinput], hok⟩

/-- A relay that fails has written what its last step left. -/
theorem Conserves.fails {β : Type} {rest' : β → Bytes} {r : Except Stop α} {dst' : Bytes}
    (h : Conserves rest input dst (r, dst')) (e : Stop) : Conserves rest' input dst (.error e, dst') := by
  obtain ⟨written, left, hdst, hinput, -⟩ := h
  exact ⟨written, left, hdst, hinput, fun _ h => by cases h⟩

/-- One relay, and from where it stopped another one. -/
theorem Conserves.then {β : Type} {rest' : β → Bytes} {a : α} {dst' : Bytes} {r : Relayed β}
    (h : Conserves rest input dst (.ok a, dst')) (hr : Conserves rest' (rest a) dst' r) :
    Conserves rest' input dst r := by
  obtain ⟨written, left, hdst, hinput, hok⟩ := h
  obtain rfl : dst' = dst ++ written := hdst
  rw [hok a rfl] at hr
  exact hr.after hinput

end

theorem relayLength_conserves (remaining : Nat) (src : Conn) (dst : Bytes) :
    Conserves (fun r => r.2.bytes) src.bytes dst (relayLength remaining src dst) := by
  fun_induction relayLength remaining src dst with
  | case1 src dst => exact .ok rfl
  | case2 remaining src dst hremaining e hread => exact .error e
  | case3 remaining src dst hremaining src' hread =>
      exact .ok (by simpa using (Conn.read_eq hread).1.symm)
  | case4 remaining src dst hremaining bytes src' hread hbytes ih =>
      exact ih.after (Conn.read_eq hread).1.symm

theorem Conn.read_length {c c' : Conn} {want : Nat} {bytes : Bytes} (h : c.read want = .ok (bytes, c')) :
    bytes.length ≤ want := by
  obtain ⟨reads, closed⟩ := c
  cases reads with
  | nil =>
      simp only [read] at h
      split_ifs at h
      obtain ⟨rfl, -⟩ := Prod.mk.inj (Except.ok.inj h)
      exact Nat.zero_le _
  | cons t reads =>
      simp only [read] at h
      split_ifs at h with hdrop
      · obtain ⟨rfl, -⟩ := Prod.mk.inj (Except.ok.inj h)
        exact List.drop_eq_nil_iff.1 hdrop
      · obtain ⟨rfl, -⟩ := Prod.mk.inj (Except.ok.inj h)
        exact List.length_take_le _ _

/-- A read of nothing comes at the end only. -/
theorem Conn.bytes_of_read_nil {c c' : Conn} {want : Nat} (hwant : 0 < want) (h : c.read want = .ok ([], c')) :
    c'.bytes = [] := by
  have hsame : c.bytes = c'.bytes := (Conn.read_eq h).1
  by_contra hbytes
  obtain ⟨t, c₂, hread, hne, -⟩ := Conn.read_of_bytes hwant (hsame ▸ hbytes)
  rw [h] at hread
  exact hne (Prod.mk.inj (Except.ok.inj hread)).1.symm

/-- What remains of a length is what was not written, and nothing remains unless the stream was over. -/
theorem relayLength_count {remaining left : Nat} {src src' : Conn} {dst dst' : Bytes}
    (h : relayLength remaining src dst = (.ok (left, src'), dst')) :
    dst'.length + left = dst.length + remaining ∧ left ≤ remaining ∧ (left ≠ 0 → src'.bytes = []) := by
  fun_induction relayLength remaining src dst with
  | case1 src dst =>
      cases h
      exact ⟨rfl, le_rfl, fun hne => absurd rfl hne⟩
  | case2 remaining src dst hremaining e hread => cases h
  | case3 remaining src dst hremaining src₁ hread =>
      obtain ⟨hok, rfl⟩ := Prod.mk.inj h
      obtain ⟨rfl, rfl⟩ := Prod.mk.inj (Except.ok.inj hok)
      have hwant : 0 < min bufSize remaining := by
        have : 0 < bufSize := by decide
        omega
      exact ⟨rfl, le_rfl, fun _ => Conn.bytes_of_read_nil hwant hread⟩
  | case4 remaining src dst hremaining bytes src₁ hread hbytes ih =>
      obtain ⟨hcount, hle, hend⟩ := ih h
      have hlen := Conn.read_length hread
      rw [List.length_append] at hcount
      exact ⟨by omega, by omega, hend⟩

theorem relayUntilClose_conserves (src : Conn) (dst : Bytes) :
    Conserves Conn.bytes src.bytes dst (relayUntilClose src dst) := by
  fun_induction relayUntilClose src dst with
  | case1 src dst e hread => exact .error e
  | case2 src dst src' hread => exact .ok (by simpa using (Conn.read_eq hread).1.symm)
  | case3 src dst bytes src' hread hbytes ih => exact ih.after (Conn.read_eq hread).1.symm

theorem relayUntilClose_end {src src' : Conn} {dst : Bytes} (h : (relayUntilClose src dst).1 = .ok src') :
    src'.bytes = [] := by
  fun_induction relayUntilClose src dst with
  | case1 src dst e hread => cases h
  | case2 src dst src₁ hread =>
      obtain rfl := Except.ok.inj h
      exact Conn.bytes_of_read_nil (by decide) hread
  | case3 src dst bytes src₁ hread hbytes ih => exact ih h

theorem readLineEcho_conserves (line : Bytes) (s : Source) (dst : Bytes) :
    Conserves (fun r => r.2.rest) s.rest dst (readLineEcho line s dst) := by
  fun_induction readLineEcho line s dst with
  | case1 line s dst e hbyte => exact .error e
  | case2 line s dst hbyte => exact .error _
  | case3 line s dst s₁ hbyte line₁ => exact (Conserves.ok rfl).after (Source.byte_eq hbyte).1.symm
  | case4 line s dst b s₁ hbyte line₁ hb hlong => exact (Conserves.error _).after (Source.byte_eq hbyte).1.symm
  | case5 line s dst b s₁ hbyte line₁ hb hlong ih => exact ih.after (Source.byte_eq hbyte).1.symm

theorem copyNEcho_conserves (n : Nat) (s : Source) (dst : Bytes) :
    Conserves Source.rest s.rest dst (copyNEcho n s dst) := by
  fun_induction copyNEcho n s dst with
  | case1 s dst => exact .ok rfl
  | case2 n s dst hn e hensure => exact .error e
  | case3 n s dst hn hensure => exact .error _
  | case4 n s dst hn s₁ hensure hs => exact .error _
  | case5 n s dst hn s₁ hensure hs ih =>
      refine ih.after ?_
      rw [← (Source.ensure_eq hensure).1]
      simp [Source.rest, ← List.append_assoc]

theorem relayTrailers_conserves (s : Source) (dst : Bytes) :
    Conserves Source.rest s.rest dst (relayTrailers s dst) := by
  fun_induction relayTrailers s dst with
  | case1 s dst e dst₁ hline => exact (hline ▸ readLineEcho_conserves [] s dst).fails e
  | case2 s dst line s₁ dst₁ hline hblank => exact (hline ▸ readLineEcho_conserves [] s dst).then (.ok rfl)
  | case3 s dst line s₁ dst₁ hline hblank ih => exact (hline ▸ readLineEcho_conserves [] s dst).then ih

theorem relayChunked_conserves (s : Source) (dst : Bytes) :
    Conserves Source.rest s.rest dst (relayChunked s dst) := by
  have hecho := readLineEcho_conserves []
  fun_induction relayChunked s dst with
  | case1 s dst e dst₁ hline => exact (hline ▸ hecho s dst).fails e
  | case2 s dst line s₁ dst₁ hline e hsize => exact (hline ▸ hecho s dst).fails e
  | case3 s dst line s₁ dst₁ hline hsize =>
      exact (hline ▸ hecho s dst).then (relayTrailers_conserves s₁ dst₁)
  | case4 s dst line s₁ dst₁ hline n hsize e dst₂ hcopy =>
      exact (hline ▸ hecho s dst).then ((hcopy ▸ copyNEcho_conserves (n + 1) s₁ dst₁).fails e)
  | case5 s dst line s₁ dst₁ hline n hsize s₂ dst₂ hcopy e dst₃ hend =>
      exact (hline ▸ hecho s dst).then ((hcopy ▸ copyNEcho_conserves (n + 1) s₁ dst₁).then
        ((hend ▸ hecho s₂ dst₂).fails e))
  | case6 s dst line s₁ dst₁ hline n hsize s₂ dst₂ hcopy line' s₃ dst₃ hend hbad =>
      exact (hline ▸ hecho s dst).then ((hcopy ▸ copyNEcho_conserves (n + 1) s₁ dst₁).then
        ((hend ▸ hecho s₂ dst₂).fails _))
  | case7 s dst line s₁ dst₁ hline n hsize s₂ dst₂ hcopy line' s₃ dst₃ hend hgood ih =>
      exact (hline ▸ hecho s dst).then ((hcopy ▸ copyNEcho_conserves (n + 1) s₁ dst₁).then
        ((hend ▸ hecho s₂ dst₂).then ih))

/-- The bytes a relay leaves: the carryover and what was not read. -/
def leftover (r : Nat × Bytes × Conn) : Bytes := r.2.1 ++ r.2.2.bytes

theorem Conserves.map {α β : Type} {rest : α → Bytes} {rest' : β → Bytes} {input dst : Bytes} {r : Relayed α}
    {f : α → β} (hrest : ∀ a, rest' (f a) = rest a) (h : Conserves rest input dst r) :
    Conserves rest' input dst (r.1.map f, r.2) := by
  obtain ⟨written, left, hdst, hinput, hok⟩ := h
  refine ⟨written, left, hdst, hinput, fun b hb => ?_⟩
  obtain ⟨result, dst'⟩ := r
  cases result with
  | error e => cases hb
  | ok a =>
      obtain rfl := Except.ok.inj hb
      rw [hrest, hok a rfl]

theorem relayBody_conserves_bytes (framing : BodyFraming) (initial : Bytes) (src : Conn) (dst : Bytes) :
    Conserves leftover (initial ++ src.bytes) dst (relayBody framing initial src dst) := by
  cases framing with
  | none => exact .ok rfl
  | contentLength n =>
      have hrun := relayLength_conserves (n - min initial.length n) src (dst ++ initial.take (min initial.length n))
      have hcases : initial.drop (min initial.length n) = [] ∨ n - min initial.length n = 0 := by
        rw [List.drop_eq_nil_iff]
        omega
      obtain hall | hdone := hcases
      · -- All of what was read belongs to the body.
        have htake : initial.take (min initial.length n) = initial :=
          List.take_of_length_le (List.drop_eq_nil_iff.1 hall)
        have hinput : initial.take (min initial.length n) ++ src.bytes = initial ++ src.bytes := by rw [htake]
        refine .after hinput (hrun.map fun r => ?_)
        simp [leftover, hall]
      · -- The body is over in what was read, and nothing is read behind it.
        have hinput : initial.take (min initial.length n) ++ (initial.drop (min initial.length n) ++ src.bytes) =
            initial ++ src.bytes := by rw [← List.append_assoc, List.take_append_drop]
        refine .after hinput ?_
        simp only [relayBody, hdone]
        rw [relayLength, if_pos rfl]
        exact .ok rfl
  | chunked => exact (relayChunked_conserves ⟨initial, src⟩ dst).map fun _ => rfl
  | untilClose =>
      exact .after rfl ((relayUntilClose_conserves src (dst ++ initial)).map fun _ => rfl)

/-! ## Framed bodies -/

/-- A line is read to its line feed. -/
theorem readLineEcho_ok {line line' dst dst' : Bytes} {s s' : Source}
    (h : readLineEcho line s dst = (.ok (line', s'), dst')) :
    ∃ text, lf ∉ text ∧ line' = line ++ text ++ [lf] ∧ s.rest = text ++ lf :: s'.rest := by
  fun_induction readLineEcho line s dst with
  | case1 line s dst e hbyte => cases h
  | case2 line s dst hbyte => cases h
  | case3 line s dst s₁ hbyte line₁ =>
      obtain ⟨hok, rfl⟩ := Prod.mk.inj h
      obtain ⟨rfl, rfl⟩ := Prod.mk.inj (Except.ok.inj hok)
      exact ⟨[], by simp, by simp [line₁], (Source.byte_eq hbyte).1⟩
  | case4 line s dst b s₁ hbyte line₁ hb hlong => cases h
  | case5 line s dst b s₁ hbyte line₁ hb hlong ih =>
      obtain ⟨text, hlf, rfl, hrest⟩ := ih h
      refine ⟨b :: text, by simpa [hlf] using Ne.symm hb, by simp [line₁], ?_⟩
      rw [(Source.byte_eq hbyte).1, hrest, List.cons_append]

theorem copyNEcho_ok {n : Nat} {dst dst' : Bytes} {s s' : Source}
    (h : copyNEcho n s dst = (.ok s', dst')) : ∃ data, data.length = n ∧ s.rest = data ++ s'.rest := by
  fun_induction copyNEcho n s dst with
  | case1 s dst =>
      cases h
      exact ⟨[], rfl, rfl⟩
  | case2 n s dst hn e hensure => cases h
  | case3 n s dst hn hensure => cases h
  | case4 n s dst hn s₁ hensure hs => cases h
  | case5 n s dst hn s₁ hensure hs ih =>
      obtain ⟨data, hlen, hrest⟩ := ih h
      refine ⟨s₁.buf.take n ++ data, by rw [List.length_append, hlen]; simp, ?_⟩
      rw [List.append_assoc, ← hrest, ← (Source.ensure_eq hensure).1]
      simp [Source.rest, ← List.append_assoc]

/-- What a size line says before its end: digits, blanks, and perhaps an extension of any bytes. -/
structure SizeText (n : Nat) (text : Bytes) : Prop where
  shape : ∃ digits blanks extension, text = digits ++ blanks ++ extension ∧ digits ≠ [] ∧
    (∀ b ∈ digits, isHexDigit b = true) ∧ hexValue digits = n ∧ (∀ b ∈ blanks, b = 0x20 ∨ b = 0x09) ∧
    (∀ b ∈ extension.head?, b = 0x3b) ∧ lf ∉ extension

inductive TrailerFields : Bytes → Prop where
  | done : TrailerFields crlf
  | field {line rest : Bytes} (nonempty : line ≠ []) (isLine : lf ∉ line) (fields : TrailerFields rest) :
      TrailerFields (line ++ crlf ++ rest)

/-- A chunked body, with lines of any length. -/
inductive ChunkedBody : Bytes → Prop where
  | last {size trailers : Bytes} (isSize : SizeText 0 size) (fields : TrailerFields trailers) :
      ChunkedBody (size ++ crlf ++ trailers)
  | chunk {size data rest : Bytes} (isSize : SizeText data.length size) (nonempty : data ≠ [])
      (chunks : ChunkedBody rest) : ChunkedBody (size ++ crlf ++ data ++ crlf ++ rest)

/-- A body whose framing says where it ends. -/
def Framed (framing : BodyFraming) (body : Bytes) : Prop :=
  match framing with
  | .none => body = []
  | .contentLength n => body.length = n
  | .chunked => ChunkedBody body
  | .untilClose => False

theorem SizeText.lf_notMem {n : Nat} {text : Bytes} (h : SizeText n text) : lf ∉ text := by
  obtain ⟨digits, blanks, extension, rfl, -, hdigits, -, hblanks, -, hext⟩ := h.shape
  simp only [List.mem_append, not_or]
  exact ⟨⟨fun hb => absurd (hdigits _ hb) (by decide), fun hb => absurd (hblanks _ hb) (by decide)⟩, hext⟩

/-- The text of bytes that begin in ASCII. -/
theorem fromUtf8_ascii_append {bytes rest : Bytes} {t : Str} (hascii : ∀ b ∈ bytes, b < 128)
    (h : fromUtf8 (bytes ++ rest) = some t) : ∃ u, t = bytes.map charOf ++ u := by
  induction bytes generalizing t with
  | nil => exact ⟨t, rfl⟩
  | cons b bytes ih =>
      have hutf8 := fromUtf8_eq_some.1 h
      cases t with
      | nil => simp at hutf8
      | cons c t =>
          have hb := utf8EncodeChar_charOf b (hascii b List.mem_cons_self)
          have hbytes : String.utf8EncodeChar c ++ utf8 t = String.utf8EncodeChar (charOf b) ++ (bytes ++ rest) := by
            rw [hb, utf8_eq_flatMap, ← List.flatMap_cons, ← utf8_eq_flatMap, hutf8]
            rfl
          -- Either side decodes to its first character.
          have hfirst := utf8DecodeChar?_cons c (utf8 t)
          rw [hbytes, utf8DecodeChar?_cons] at hfirst
          obtain rfl := Option.some.inj hfirst
          obtain ⟨u, rfl⟩ := ih (fun d hd => hascii d (List.mem_cons_of_mem _ hd))
            (fromUtf8_eq_some.2 (List.append_cancel_left hbytes))
          exact ⟨u, rfl⟩

/-- What stands before the extension of a size line is what is parsed of it. -/
theorem beforeExtension_eq {shown extension : Bytes} {text : Str}
    (hshown : ∀ b ∈ shown, b < 128 ∧ charOf b ≠ ';' ∧ charOf b ≠ '\r' ∧ charOf b ≠ '\n')
    (hsemi : ∀ b ∈ extension.head?, b = 0x3b) (htext : fromUtf8 (shown ++ extension ++ crlf) = some text) :
    (text.rdropWhile fun c => c = '\r' || c = '\n').takeWhile (· != ';') = shown.map charOf := by
  have hplain : ∀ c ∈ shown.map charOf, c ≠ ';' ∧ c ≠ '\r' ∧ c ≠ '\n' := by
    simp only [List.mem_map]
    rintro _ ⟨b, hb, rfl⟩
    exact (hshown b hb).2
  have hkeeps : ∀ c ∈ shown.map charOf, (c != ';') = true := fun c hc => by simpa using (hplain c hc).1
  cases extension with
  | nil =>
      -- The line is all ASCII, and the trim takes the CRLF away.
      have hall : ∀ b ∈ shown ++ crlf, b < 128 := by
        intro b hb
        obtain hb | hb := List.mem_append.1 hb
        · exact (hshown b hb).1
        · obtain rfl | rfl : b = cr ∨ b = lf := by simpa [crlf] using hb
          · decide
          · decide
      rw [List.append_nil, fromUtf8_ascii hall, List.map_append] at htext
      rw [← Option.some.inj htext, Url.rdropWhile_append_of_stop]
      · have hend : (crlf.map charOf).rdropWhile (fun c => c = '\r' || c = '\n') = [] := by
          have hcrlf : crlf.map charOf = ['\r', '\n'] := by decide
          rw [hcrlf, List.rdropWhile_eq_nil_iff]
          simp
        rw [hend]
        exact Url.takeWhile_append_of_stop hkeeps (by simp)
      · intro c hc
        have := hplain c (List.mem_of_getLast? hc)
        simp [this]
  | cons b extension =>
      -- The text is known up to the semicolon only; nothing behind it is looked at.
      obtain rfl : b = 0x3b := hsemi b rfl
      have hstart : shown ++ 0x3b :: extension ++ crlf = (shown ++ [0x3b]) ++ (extension ++ crlf) := by simp
      have hall : ∀ b ∈ shown ++ [0x3b], b < 128 := by
        intro b hb
        obtain hb | hb := List.mem_append.1 hb
        · exact (hshown b hb).1
        · obtain rfl := List.mem_singleton.1 hb
          decide
      rw [hstart] at htext
      obtain ⟨u, rfl⟩ := fromUtf8_ascii_append hall htext
      have hsemi : (shown ++ [0x3b]).map charOf = shown.map charOf ++ [';'] := by
        rw [List.map_append]
        rfl
      rw [hsemi, Url.rdropWhile_append_of_stop (by simp), List.append_assoc]
      exact Url.takeWhile_append_of_stop hkeeps (by simp)

/-- A size line that is read is read as the size it says. -/
theorem chunkSize_eq {n m : Nat} {size : Bytes} (hsize : SizeText n size)
    (h : chunkSize (size ++ crlf) = .ok m) : m = n := by
  obtain ⟨digits, blanks, extension, rfl, hne, hdigits, rfl, hblanks, hsemi, -⟩ := hsize.shape
  have hshown : ∀ b ∈ digits ++ blanks, b < 128 ∧ charOf b ≠ ';' ∧ charOf b ≠ '\r' ∧ charOf b ≠ '\n' := by
    intro b hb
    obtain hb | hb := List.mem_append.1 hb
    · obtain ⟨-, -, hsemi, hcr, hlf, hascii⟩ := hexDigit_text b (hdigits b hb)
      exact ⟨hascii, hsemi, hcr, hlf⟩
    · obtain rfl | rfl := hblanks b hb <;> decide
  unfold chunkSize at h
  cases htext : fromUtf8 (digits ++ blanks ++ extension ++ crlf) with
  | none =>
      rw [htext] at h
      cases h
  | some text =>
      rw [htext] at h
      simp only [beforeExtension_eq hshown hsemi htext, trim_digits hdigits hblanks,
        usizeFromHex_digits hne hdigits] at h
      by_cases hsmall : hexValue digits < 2 ^ 64
      · rw [if_pos hsmall] at h
        exact (Except.ok.inj h).symm
      · rw [if_neg hsmall] at h
        cases h

/-- A line of the input that is read is read alone. -/
theorem readLineEcho_line {line' more text dst dst' : Bytes} {s s' : Source} (hlf : lf ∉ text)
    (hrest : s.rest = text ++ crlf ++ more) (h : readLineEcho [] s dst = (.ok (line', s'), dst')) :
    line' = text ++ crlf ∧ s'.rest = more := by
  obtain ⟨read, hread, rfl, hrest'⟩ := readLineEcho_ok h
  have hcr : lf ∉ text ++ [cr] := by simpa [hlf] using (by decide : lf ≠ cr)
  obtain ⟨rfl, hmore⟩ := Quote.append_stop_inj hread hcr
    (hrest'.symm.trans (by rw [hrest]; simp [crlf] : s.rest = (text ++ [cr]) ++ lf :: more))
  exact ⟨by simp [crlf], hmore⟩

theorem relayTrailers_ok {trailers more dst dst' : Bytes} {s s' : Source} (hfields : TrailerFields trailers)
    (hrest : s.rest = trailers ++ more) (h : relayTrailers s dst = (.ok s', dst')) : s'.rest = more := by
  induction hfields generalizing s dst with
  | done =>
      rw [relayTrailers] at h
      split at h
      · cases h
      · rename_i line s₁ dst₁ hline
        obtain ⟨rfl, hmore⟩ := readLineEcho_line (List.not_mem_nil) hrest hline
        rw [if_pos (Or.inl (List.nil_append _))] at h
        cases h
        exact hmore
  | @field line rest hne hline hfields ih =>
      rw [relayTrailers] at h
      split at h
      · cases h
      · rename_i line₁ s₁ dst₁ hecho
        obtain ⟨rfl, hmore⟩ := readLineEcho_line hline (by rw [hrest, List.append_assoc]) hecho
        have hlen := List.length_pos_iff.2 hne
        -- A field line is longer than the CRLF and not empty, so the loop reads on.
        rw [if_neg ?_] at h
        · exact ih hmore h
        · rintro (hblank | hblank)
          · have := congrArg List.length hblank
            simp only [List.length_append] at this
            omega
          · have := congrArg List.length hblank
            simp [crlf] at this

/-- What a size line that was read announces is what comes next in the body. -/
theorem chunk_of_line {body more dst dst' line : Bytes} {s s' : Source} (hbody : ChunkedBody body)
    (hrest : s.rest = body ++ more) (h : readLineEcho [] s dst = (.ok (line, s'), dst')) {n : Nat}
    (hn : chunkSize line = .ok n) :
    (n = 0 ∧ ∃ trailers, TrailerFields trailers ∧ s'.rest = trailers ++ more) ∨
      ∃ data chunks, data.length = n ∧ n ≠ 0 ∧ ChunkedBody chunks ∧ s'.rest = data ++ (crlf ++ (chunks ++ more)) := by
  cases hbody with
  | @last size trailers hsize hfields =>
      obtain ⟨rfl, hmore⟩ := readLineEcho_line hsize.lf_notMem (by rw [hrest, List.append_assoc]) h
      exact .inl ⟨chunkSize_eq hsize hn, trailers, hfields, hmore⟩
  | @chunk size data chunks hsize hne hchunks =>
      obtain ⟨rfl, hmore⟩ := readLineEcho_line hsize.lf_notMem
        (by rw [hrest]; simp only [List.append_assoc] : s.rest = size ++ crlf ++ (data ++ (crlf ++ (chunks ++ more)))) h
      obtain rfl := chunkSize_eq hsize hn
      exact .inr ⟨data, chunks, rfl, (List.length_pos_iff.2 hne).ne', hchunks, hmore⟩

theorem relayChunked_ok {body more dst dst' : Bytes} {s s' : Source} (hbody : ChunkedBody body)
    (hrest : s.rest = body ++ more) (h : relayChunked s dst = (.ok s', dst')) : s'.rest = more := by
  fun_induction relayChunked s dst generalizing body with
  | case1 s dst e dst₁ hline => cases h
  | case2 s dst line s₁ dst₁ hline e hsize => cases h
  | case3 s dst line s₁ dst₁ hline hsize =>
      obtain ⟨-, trailers, hfields, hrest₁⟩ | ⟨data, chunks, -, hzero, -, -⟩ :=
        chunk_of_line hbody hrest hline hsize
      · exact relayTrailers_ok hfields hrest₁ h
      · exact absurd rfl hzero
  | case4 s dst line s₁ dst₁ hline n hsize e dst₂ hcopy => cases h
  | case5 s dst line s₁ dst₁ hline n hsize s₂ dst₂ hcopy e dst₃ hend => cases h
  | case6 s dst line s₁ dst₁ hline n hsize s₂ dst₂ hcopy line' s₃ dst₃ hend hbad => cases h
  | case7 s dst line s₁ dst₁ hline n hsize s₂ dst₂ hcopy line' s₃ dst₃ hend hgood ih =>
      obtain ⟨hzero, -⟩ | ⟨data, chunks, hlen, -, hchunks, hrest₁⟩ :=
        chunk_of_line hbody hrest hline hsize
      · cases hzero
      · obtain ⟨copied, hcopied, hrest₂⟩ := copyNEcho_ok hcopy
        obtain ⟨-, hmore⟩ := List.append_inj (hrest₂.symm.trans hrest₁) (hcopied.trans hlen.symm)
        obtain ⟨-, hrest₃⟩ := readLineEcho_line (List.not_mem_nil) hmore hend
        exact ih hchunks hrest₃ h

/-- A body of a given length is relayed to that length, or to the end of the stream. -/
theorem relayBody_contentLength {initial dst written carry : Bytes} {src src' : Conn} {n m : Nat}
    (h : relayBody (.contentLength n) initial src dst = (.ok (m, carry, src'), dst ++ written)) :
    m = written.length ∧ m ≤ n ∧ (m ≠ n → carry ++ src'.bytes = []) := by
  obtain ⟨hok, hdst⟩ := Prod.mk.inj h
  cases hrun : relayLength (n - min initial.length n) src (dst ++ initial.take (min initial.length n)) with
  | mk result dst' =>
      rw [hrun] at hok hdst
      cases result with
      | error e => cases hok
      | ok r =>
          obtain ⟨left, src₁⟩ := r
          obtain ⟨rfl, hcarry, rfl⟩ : n - left = m ∧ initial.drop (min initial.length n) = carry ∧ src₁ = src' := by
            simpa [Except.map] using hok
          obtain rfl : dst' = dst ++ written := hdst
          obtain ⟨hcount, hle, hend⟩ := relayLength_count hrun
          simp only [List.length_append, List.length_take] at hcount
          refine ⟨by omega, by omega, fun hne => ?_⟩
          -- Something is missing, so all of what was read went into the body, and the stream is over.
          have hall : carry = [] := by
            rw [← hcarry, List.drop_eq_nil_iff]
            omega
          rw [hall, hend (by omega)]
          rfl

/-- The count a relay gives is what it wrote. -/
theorem relayBody_count {framing : BodyFraming} {initial dst written carry : Bytes} {src src' : Conn} {n : Nat}
    (h : relayBody framing initial src dst = (.ok (n, carry, src'), dst ++ written)) : n = written.length := by
  cases framing with
  | none =>
      obtain ⟨hok, hdst⟩ := Prod.mk.inj h
      obtain rfl : written = [] := by simpa using hdst
      exact (Prod.mk.inj (Except.ok.inj hok)).1.symm
  | contentLength m => exact (relayBody_contentLength h).1
  | chunked =>
      obtain ⟨hok, hdst⟩ := Prod.mk.inj h
      cases hrun : relayChunked ⟨initial, src⟩ dst with
      | mk result dst' =>
          rw [hrun] at hok hdst
          obtain rfl : dst' = dst ++ written := hdst
          cases result with
          | error e => cases hok
          | ok s =>
              obtain ⟨rfl, -⟩ := Prod.mk.inj (Except.ok.inj hok)
              simp
  | untilClose =>
      obtain ⟨hok, hdst⟩ := Prod.mk.inj h
      cases hrun : relayUntilClose src (dst ++ initial) with
      | mk result dst' =>
          rw [hrun] at hok hdst
          obtain rfl : dst' = dst ++ written := hdst
          cases result with
          | error e => cases hok
          | ok s =>
              obtain ⟨rfl, -⟩ := Prod.mk.inj (Except.ok.inj hok)
              simp

/-- A body whose framing says where it ends is relayed to its end. -/
theorem relayBody_ok {framing : BodyFraming} {initial body more dst dst' carry : Bytes} {src src' : Conn} {n : Nat}
    (hbody : Framed framing body) (hinput : initial ++ src.bytes = body ++ more)
    (h : relayBody framing initial src dst = (.ok (n, carry, src'), dst')) : carry ++ src'.bytes = more := by
  cases framing with
  | none =>
      obtain rfl : body = [] := hbody
      obtain ⟨-, rfl, rfl⟩ : 0 = n ∧ initial = carry ∧ src = src' := by
        simpa using Except.ok.inj (Prod.mk.inj h).1
      exact hinput
  | contentLength m =>
      have hm : body.length = m := hbody
      obtain ⟨written, left, hdst, hwritten, hleft⟩ := relayBody_conserves_bytes (.contentLength m) initial src dst
      rw [h] at hdst hleft
      obtain rfl : dst' = dst ++ written := hdst
      obtain rfl : carry ++ src'.bytes = left := hleft _ rfl
      obtain ⟨rfl, hle, hend⟩ := relayBody_contentLength h
      -- A short body would mean the end of the connection, and the rest of the body was still there.
      have hfull : written.length = m := by
        by_contra hne
        have hlen := congrArg List.length (hwritten.trans hinput)
        rw [hend hne, List.append_nil, List.length_append] at hlen
        omega
      exact (List.append_inj (hwritten.trans hinput) (hfull.trans hm.symm)).2
  | chunked =>
      obtain ⟨hok, hdst⟩ := Prod.mk.inj h
      cases hrun : relayChunked ⟨initial, src⟩ dst with
      | mk result dst₁ =>
          rw [hrun] at hok
          cases result with
          | error e => cases hok
          | ok s =>
              obtain ⟨-, hcarry⟩ := Prod.mk.inj (Except.ok.inj hok)
              obtain ⟨rfl, rfl⟩ := Prod.mk.inj hcarry
              exact relayChunked_ok hbody (show (⟨initial, src⟩ : Source).rest = body ++ more from hinput) hrun
  | untilClose => exact hbody.elim

theorem relayBody_untilClose {initial dst carry : Bytes} {src src' : Conn} {n : Nat}
    (h : (relayBody .untilClose initial src dst).1 = .ok (n, carry, src')) : carry ++ src'.bytes = [] := by
  cases hrun : relayUntilClose src (dst ++ initial) with
  | mk result dst' =>
      cases result with
      | error e => simp [relayBody, hrun, Except.map] at h
      | ok src₁ =>
          obtain ⟨-, rfl, rfl⟩ : _ ∧ [] = carry ∧ src₁ = src' := by
            simpa [relayBody, hrun, Except.map] using h
          exact relayUntilClose_end (congrArg Prod.fst hrun)

/-- However the bytes come, what is written, carried over and unread is the input in order, also where the relay
fails. A relay that comes back from a framed body stopped at its end, and it does come back from a body whose
lines have the length and the characters that the parser takes. -/
theorem relayBody_conserves (framing : BodyFraming) (initial : Bytes) (src : Conn) (dst : Bytes) :
    (∃ written left, (relayBody framing initial src dst).2 = dst ++ written ∧
      written ++ left = initial ++ src.bytes ∧
      ∀ n carry src', (relayBody framing initial src dst).1 = .ok (n, carry, src') →
        n = written.length ∧ carry ++ src'.bytes = left ∧
        (framing = .untilClose → left = []) ∧
        ∀ body more, Framed framing body → initial ++ src.bytes = body ++ more → written = body ∧ left = more) ∧
    ∀ body more, IsBody framing body → (framing = .untilClose → src.closed = true ∧ more = []) →
      initial ++ src.bytes = body ++ more →
      ∃ carry src', relayBody framing initial src dst = (.ok (body.length, carry, src'), dst ++ body) ∧
        carry ++ src'.bytes = more := by
  refine ⟨?_, fun body more hbody hclose h => ?_⟩
  · obtain ⟨written, left, hdst, hinput, hleft⟩ := relayBody_conserves_bytes framing initial src dst
    refine ⟨written, left, hdst, hinput, fun n carry src' hok => ?_⟩
    have hrun : relayBody framing initial src dst = (.ok (n, carry, src'), dst ++ written) := Prod.ext hok hdst
    obtain rfl : carry ++ src'.bytes = left := hleft _ hok
    refine ⟨relayBody_count hrun, rfl, ?_, fun body more hbody hsplit => ?_⟩
    · rintro rfl
      exact relayBody_untilClose hok
    · have hmore := relayBody_ok hbody hsplit hrun
      rw [hmore] at hinput ⊢
      exact ⟨List.append_cancel_right (hinput.trans hsplit), rfl⟩
  · obtain ⟨carry, src', hrun, hmore, -⟩ := relayBody_of_rest dst hbody hclose h
    exact ⟨carry, src', hrun, hmore⟩

end Tethra.Interception
