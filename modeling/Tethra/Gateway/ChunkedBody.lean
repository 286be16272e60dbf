import Tethra.Gateway.Stream

set_option autoImplicit false

/-! # Strict chunked bodies

The grammar of the bodies that the relay accepts: chunks of at least a byte, each behind a size line of
plain hexadecimal digits, a last size line of value zero, trailer fields, and a blank line, all with
strict CRLF. The relay succeeds exactly on the streams that start with such a body, however they are
cut into reads (`relayChunkedStrict_relays`). -/

namespace Tethra.Gateway

/-- A line of one to sixteen hexadecimal digits, with its value. -/
structure IsChunkSize (line : Bytes) (n : Nat) : Prop where
  nonempty : line ≠ []
  short : line.length ≤ 16
  digits : ∀ b ∈ line, isHexDigit b = true
  value : hexValue line = n

/-- A chunk: its size line and as many bytes as it says. -/
structure Chunk where
  size : Bytes
  data : Bytes
  sized : IsChunkSize size data.length
  nonempty : data ≠ []

def Chunk.bytes (c : Chunk) : Bytes := c.size ++ crlf ++ (c.data ++ crlf)

/-- A trailer field, as long as a line may be. -/
structure IsTrailer (line : Bytes) : Prop where
  nonempty : line ≠ []
  isLine : IsLine line
  short : line.length ≤ maxChunkLine

def trailerLines (trailers : List Bytes) : Bytes := trailers.flatMap (· ++ crlf)

structure ChunkedBody where
  chunks : List Chunk
  last : Bytes
  trailers : List Bytes
  lastSized : IsChunkSize last 0
  trailersValid : ∀ t ∈ trailers, IsTrailer t
  trailersFit : (trailers.map List.length).sum ≤ maxTrailer

/-- The body on the wire, with the given trailer fields. -/
def ChunkedBody.wireWith (body : ChunkedBody) (trailers : List Bytes) : Bytes :=
  body.chunks.flatMap Chunk.bytes ++ (body.last ++ crlf ++ (trailerLines trailers ++ crlf))

def ChunkedBody.bytes (body : ChunkedBody) : Bytes := body.wireWith body.trailers

/-- The same chunks with the trailer fields that may be relayed. -/
def ChunkedBody.relayedBytes (body : ChunkedBody) : Bytes :=
  body.wireWith (body.trailers.filter trailerIsRelayable)

def ChunkedBody.data (body : ChunkedBody) : Bytes := body.chunks.flatMap Chunk.data

/-! ## Size lines -/

theorem isHexDigit_line :
    ∀ b : UInt8, isHexDigit b = true → b < 128 ∧ (b ≠ cr ∧ b ≠ lf) ∧ hexDigit b < 16 := by
  decide +kernel

theorem hexValue_concat (digits : Bytes) (b : UInt8) :
    hexValue (digits ++ [b]) = hexValue digits * 16 + hexDigit b := by
  simp [hexValue]

theorem hexValue_lt {digits : Bytes} (h : ∀ b ∈ digits, isHexDigit b = true) :
    hexValue digits < 16 ^ digits.length := by
  induction digits using List.reverseRecOn with
  | nil => simp [hexValue]
  | append_singleton digits b ih =>
      have hb : hexDigit b < 16 := (isHexDigit_line b (h b (by simp))).2.2
      have hdigits := ih fun c hc => h c (List.mem_append_left _ hc)
      rw [hexValue_concat, List.length_append, List.length_singleton, pow_succ]
      omega

theorem IsChunkSize.isLine {line : Bytes} {n : Nat} (h : IsChunkSize line n) : IsLine line :=
  fun b hb => (isHexDigit_line b (h.digits b hb)).2.1

theorem IsChunkSize.length_le {line : Bytes} {n : Nat} (h : IsChunkSize line n) :
    line.length ≤ maxChunkLine := h.short.trans (by decide)

theorem parseChunkSize_eq_ok {line : Bytes} {n : Nat} :
    parseChunkSize line = .ok n ↔ IsChunkSize line n := by
  unfold parseChunkSize
  constructor
  · intro h
    split_ifs at h with hlen
    · cases h
    rw [not_or] at hlen
    split at h
    · cases h
    rename_i text htext
    rw [fromUtf8_eq_some.1 htext] at h
    split_ifs at h with hdigits
    · cases h
    · refine ⟨hlen.1, not_lt.1 hlen.2, ?_, Except.ok.inj h⟩
      simpa using hdigits
    · cases h
  · rintro ⟨hnonempty, hshort, hdigits, rfl⟩
    have hascii : ∀ b ∈ line, b < 128 := fun b hb => (isHexDigit_line b (hdigits b hb)).1
    have htext := fromUtf8_ascii hascii
    have hfits : hexValue line < 2 ^ 64 := by
      calc hexValue line < 16 ^ line.length := hexValue_lt hdigits
        _ ≤ 16 ^ 16 := Nat.pow_le_pow_right (by decide) hshort
        _ = 2 ^ 64 := by norm_num
    have hall : line.all isHexDigit = true := List.all_eq_true.2 hdigits
    rw [if_neg (by simp [hnonempty, hshort]), htext]
    simp only [fromUtf8_eq_some.1 htext, hall, Bool.not_true, Bool.false_eq_true, if_false,
      if_pos hfits]

/-! ## The trailer section -/

theorem relayTrailers_ok {n : Nat} {r r' : Relay} (hn : n ≤ maxTrailer)
    (h : relayTrailers n r = .ok r') :
    ∃ trailers, (∀ t ∈ trailers, IsTrailer t) ∧ n + (trailers.map List.length).sum ≤ maxTrailer ∧
      r.source.rest = trailerLines trailers ++ crlf ++ r'.source.rest := by
  induction hlen : r.source.rest.length using Nat.strong_induction_on generalizing n r with
  | _ k ih =>
      unfold relayTrailers at h
      split at h
      · cases h
      rename_i trailer r₁ hread
      obtain ⟨hline, hshort, hrest⟩ := readLineStrict_ok hread
      split_ifs at h with hempty hfits
      · obtain rfl := Except.ok.inj h
        refine ⟨[], by simp, by simpa using hn, ?_⟩
        rw [hrest, hempty]
        rfl
      · cases h
      · have hlt : (r₁.writeTrailer trailer).source.rest.length < k := by
          rw [Relay.source_writeTrailer, ← hlen]
          exact readLineStrict_shortens hread
        obtain ⟨trailers, hvalid, hsum, hrest'⟩ := ih _ hlt (not_lt.1 hfits) h rfl
        refine ⟨trailer :: trailers, ?_, ?_, ?_⟩
        · intro t ht
          rcases List.mem_cons.1 ht with rfl | ht
          · exact ⟨hempty, hline, hshort⟩
          · exact hvalid t ht
        · simp only [List.map_cons, List.sum_cons]
          omega
        · rw [Relay.source_writeTrailer] at hrest'
          rw [hrest, hrest']
          simp [trailerLines]

theorem relayTrailers_of_rest {trailers : List Bytes} {n : Nat} {r : Relay} {behind : Bytes}
    (hvalid : ∀ t ∈ trailers, IsTrailer t) (hfits : n + (trailers.map List.length).sum ≤ maxTrailer)
    (h : r.source.rest = trailerLines trailers ++ crlf ++ behind) :
    ∃ source, source.rest = behind ∧ relayTrailers n r = .ok ⟨source,
      r.dst ++ (trailerLines (trailers.filter trailerIsRelayable) ++ crlf), r.tap,
      r.relayed + (trailerLines trailers ++ crlf).length⟩ := by
  induction trailers generalizing n r with
  | nil =>
      obtain ⟨source, hbehind, hread⟩ :=
        @readLineStrict_of_rest r maxChunkLine false [] behind nofun (by decide) h
      refine ⟨source, hbehind, ?_⟩
      unfold relayTrailers
      rw [hread]
      rfl
  | cons trailer trailers ih =>
      have htrailer := hvalid trailer (List.mem_cons_self ..)
      simp only [List.map_cons, List.sum_cons] at hfits
      have hrest : r.source.rest = trailer ++ crlf ++ (trailerLines trailers ++ crlf ++ behind) := by
        rw [h]
        simp [trailerLines]
      obtain ⟨source, hbehind, hread⟩ :=
        readLineStrict_of_rest false htrailer.isLine htrailer.short hrest
      unfold relayTrailers
      rw [hread]
      simp only [htrailer.nonempty, if_false]
      rw [if_neg (by omega)]
      have htail : ∀ t ∈ trailers, IsTrailer t := fun t ht => hvalid t (List.mem_cons_of_mem _ ht)
      have hfits' : n + trailer.length + (trailers.map List.length).sum ≤ maxTrailer := by omega
      obtain ⟨source', hbehind', hrelay⟩ := @ih (n + trailer.length)
        (Relay.writeTrailer ⟨source, r.dst, r.tap, r.relayed + (trailer ++ crlf).length⟩ trailer)
        htail hfits' (by rw [Relay.source_writeTrailer]; exact hbehind)
      refine ⟨source', hbehind', ?_⟩
      simp only [Bool.false_eq_true, if_false]
      rw [hrelay]
      unfold Relay.writeTrailer
      split_ifs with hrelayable
      · simp [Relay.write, trailerLines, hrelayable]
        omega
      · simp [trailerLines, hrelayable]
        omega

/-! ## Chunk data -/

theorem relayData_ok {n : Nat} {r r' : Relay} (h : relayData n r = .ok r') :
    ∃ data, data.length = n ∧ r.source.rest = data ++ r'.source.rest := by
  fun_induction relayData n r with
  | case1 r =>
      obtain rfl := Except.ok.inj h
      exact ⟨[], rfl, rfl⟩
  | case2 => cases h
  | case3 remaining r hremaining piece source htake hpiece ih =>
      have hrest := r.source.rest_take (min copyBuf remaining)
      have hlen := r.source.length_take_le (min copyBuf remaining)
      rw [htake] at hrest hlen
      obtain ⟨data, hdata, hrest'⟩ := ih h
      refine ⟨piece ++ data, ?_, ?_⟩
      · rw [List.length_append, hdata]
        simp only at hlen
        omega
      · rw [← hrest, List.append_assoc, ← hrest']
        rfl

theorem relayData_of_rest {data : Bytes} {r : Relay} {behind : Bytes}
    (h : r.source.rest = data ++ behind) :
    ∃ source, source.rest = behind ∧ relayData data.length r = .ok ⟨source, r.dst ++ data,
      r.tap.map (· ++ data), r.relayed + data.length⟩ := by
  induction hn : data.length using Nat.strong_induction_on generalizing data r with
  | _ n ih =>
      unfold relayData
      split_ifs with hzero
      · obtain rfl : data = [] := List.length_eq_zero_iff.1 (hn.trans hzero)
        exact ⟨r.source, h, by cases r; simp [hzero]⟩
      · have hwant : 0 < min copyBuf n := Nat.lt_min.2 ⟨by decide, Nat.pos_of_ne_zero hzero⟩
        have hdata : data ≠ [] := fun hnil => hzero (by rw [← hn, hnil]; rfl)
        have hne : r.source.rest ≠ [] := by
          rw [h]
          exact List.append_ne_nil_of_left_ne_nil hdata _
        cases htake : r.source.take (min copyBuf n) with
        | mk piece source =>
            have hrest := r.source.rest_take (min copyBuf n)
            have hlen := r.source.length_take_le (min copyBuf n)
            have hpiece := Source.take_ne_nil hwant hne
            rw [htake] at hrest hlen hpiece
            simp only at hrest hlen hpiece
            have hprefix : piece <+: data := by
              refine List.prefix_of_prefix_length_le ⟨source.rest, hrest.trans h⟩ ⟨behind, rfl⟩ ?_
              omega
            obtain ⟨more, rfl⟩ := hprefix
            have hbehind : source.rest = more ++ behind := by
              rw [h, List.append_assoc] at hrest
              exact List.append_cancel_left hrest
            have hpos := List.length_pos_iff.2 hpiece
            rw [List.length_append] at hn
            obtain ⟨source', hbehind', hrelay⟩ :=
              @ih more.length (by omega) more (r.pass piece source) hbehind rfl
            refine ⟨source', hbehind', ?_⟩
            have hleft : n - piece.length = more.length := by omega
            simp only [hpiece, dite_false, hleft, hrelay]
            rw [← hn]
            cases r with
            | mk rs dst tap relayed =>
                cases tap <;> simp [Relay.pass, Nat.add_assoc]

/-! ## The chunks -/

theorem relayChunks_ok {r r' : Relay} (h : relayChunks r = .ok r') :
    ∃ body : ChunkedBody, r.source.rest = body.bytes ++ r'.source.rest := by
  induction hlen : r.source.rest.length using Nat.strong_induction_on generalizing r with
  | _ k ih =>
      unfold relayChunks at h
      split at h
      · cases h
      rename_i line r₁ hsize
      have hrest := (readLineStrict_ok hsize).2.2
      split at h
      · cases h
      rename_i size hparse
      have hsized := parseChunkSize_eq_ok.1 hparse
      split_ifs at h with hzero
      · rw [hzero] at hsized
        obtain ⟨trailers, hvalid, hfits, hrest'⟩ := relayTrailers_ok (Nat.zero_le _) h
        refine ⟨⟨[], line, trailers, hsized, hvalid, by simpa using hfits⟩, ?_⟩
        rw [hrest, hrest']
        simp [ChunkedBody.bytes, ChunkedBody.wireWith]
      · split at h
        · cases h
        rename_i r₂ hdata
        split at h
        · cases h
        rename_i after r₃ hafter
        split_ifs at h with hempty
        · cases h
        obtain ⟨data, hdatalen, hrest₁⟩ := relayData_ok hdata
        have hrest₂ := (readLineStrict_ok hafter).2.2
        have hlt : r₃.source.rest.length < k := by
          rw [← hlen]
          exact (readLineStrict_shortens hafter).trans_le
            ((relayData_shortens hdata).trans (readLineStrict_shortens hsize).le)
        obtain ⟨body, hbody⟩ := ih _ hlt h rfl
        have hnonempty : data ≠ [] := by
          rintro rfl
          exact hzero hdatalen.symm
        subst hdatalen
        let chunk : Chunk := ⟨line, data, hsized, hnonempty⟩
        refine ⟨{ body with chunks := chunk :: body.chunks }, ?_⟩
        rw [hrest, hrest₁, hrest₂, hbody, not_not.1 hempty]
        simp [ChunkedBody.bytes, ChunkedBody.wireWith, chunk, Chunk.bytes]

/-- What the relay does with a body that is there. -/
theorem relayChunks_of_rest {chunks : List Chunk} {last : Bytes} {trailers : List Bytes} {r : Relay}
    {behind : Bytes} (hlast : IsChunkSize last 0) (hvalid : ∀ t ∈ trailers, IsTrailer t)
    (hfits : (trailers.map List.length).sum ≤ maxTrailer)
    (h : r.source.rest = chunks.flatMap Chunk.bytes ++
      (last ++ crlf ++ (trailerLines trailers ++ crlf)) ++ behind) :
    ∃ source, source.rest = behind ∧ relayChunks r = .ok ⟨source,
      r.dst ++ (chunks.flatMap Chunk.bytes ++
        (last ++ crlf ++ (trailerLines (trailers.filter trailerIsRelayable) ++ crlf))),
      r.tap.map (· ++ chunks.flatMap Chunk.data),
      r.relayed + (chunks.flatMap Chunk.bytes ++
        (last ++ crlf ++ (trailerLines trailers ++ crlf))).length⟩ := by
  induction chunks generalizing r with
  | nil =>
      have hrest : r.source.rest = last ++ crlf ++ (trailerLines trailers ++ crlf ++ behind) := by
        rw [h]
        simp
      obtain ⟨source, hbehind, hread⟩ :=
        readLineStrict_of_rest true hlast.isLine hlast.length_le hrest
      have hfits' : 0 + (trailers.map List.length).sum ≤ maxTrailer := by simpa using hfits
      obtain ⟨source', hbehind', htrailers⟩ := @relayTrailers_of_rest trailers 0
        ⟨source, r.dst ++ (last ++ crlf), r.tap, r.relayed + (last ++ crlf).length⟩ behind
        hvalid hfits' hbehind
      refine ⟨source', hbehind', ?_⟩
      unfold relayChunks
      rw [hread]
      simp only [parseChunkSize_eq_ok.2 hlast, if_true]
      rw [htrailers]
      cases r with
      | mk rs dst tap relayed =>
          cases tap <;> simp [Nat.add_assoc]
  | cons chunk chunks ih =>
      -- the size line, the data and its line end are read off the stream, the rest by induction
      let tail := last ++ crlf ++ (trailerLines trailers ++ crlf)
      have hrest : r.source.rest = chunk.size ++ crlf ++
          (chunk.data ++ (crlf ++ (chunks.flatMap Chunk.bytes ++ tail ++ behind))) := by
        rw [h]
        simp [Chunk.bytes, tail]
      obtain ⟨s₁, hs₁, hsize⟩ :=
        readLineStrict_of_rest true chunk.sized.isLine chunk.sized.length_le hrest
      rw [if_pos rfl] at hsize
      obtain ⟨s₂, hs₂, hdata⟩ := @relayData_of_rest chunk.data
        ⟨s₁, r.dst ++ (chunk.size ++ crlf), r.tap, r.relayed + (chunk.size ++ crlf).length⟩ _ hs₁
      obtain ⟨s₃, hs₃, hafter⟩ := @readLineStrict_of_rest
        ⟨s₂, r.dst ++ (chunk.size ++ crlf) ++ chunk.data, r.tap.map (· ++ chunk.data),
          r.relayed + (chunk.size ++ crlf).length + chunk.data.length⟩ 1 true [] _ (List.forall_mem_nil _) (by decide) hs₂
      rw [if_pos rfl] at hafter
      obtain ⟨source, hbehind, hrelay⟩ := @ih ⟨s₃,
        r.dst ++ (chunk.size ++ crlf) ++ chunk.data ++ ([] ++ crlf), r.tap.map (· ++ chunk.data),
        r.relayed + (chunk.size ++ crlf).length + chunk.data.length + ([] ++ crlf).length⟩ hs₃
      refine ⟨source, hbehind, ?_⟩
      have hpos : chunk.data.length ≠ 0 := (List.length_pos_iff.2 chunk.nonempty).ne'
      unfold relayChunks
      rw [hsize]
      simp only [parseChunkSize_eq_ok.2 chunk.sized, if_neg hpos]
      rw [hdata]
      simp only
      rw [hafter]
      simp only [ne_eq, not_true, if_false]
      rw [hrelay]
      cases r with
      | mk rs dst tap relayed =>
          cases tap <;> simp [Chunk.bytes, Nat.add_assoc]

/-! ## The relay -/

/-- For every stream, cut into reads and carry in any way: the relay succeeds exactly when the stream
    starts with a strict chunked body; then it wrote that body without the trailer fields that may not
    be relayed, the tap got its data, what is left is what comes behind it, and the count is its
    length. -/
theorem relayChunkedStrict_relays (src : List Segment) (dst initial : Bytes) (tap : Option Bytes) :
    ((∃ out, relayChunkedStrict src dst initial tap = .ok out) ↔
      ∃ (body : ChunkedBody) (behind : Bytes),
        initial ++ (src.map Subtype.val).flatten = body.bytes ++ behind) ∧
    ∀ out, relayChunkedStrict src dst initial tap = .ok out →
      ∀ (body : ChunkedBody) (behind : Bytes),
        initial ++ (src.map Subtype.val).flatten = body.bytes ++ behind →
        out.dst = dst ++ body.relayedBytes ∧
        out.tap = tap.map (· ++ body.data) ∧
        out.carryover ++ (out.source.src.map Subtype.val).flatten = behind ∧
        out.relayed = body.bytes.length := by
  have hrelay : ∀ (body : ChunkedBody) (behind : Bytes),
      initial ++ (src.map Subtype.val).flatten = body.bytes ++ behind →
      ∃ source : Source, source.rest = behind ∧ relayChunkedStrict src dst initial tap = .ok ⟨source,
        dst ++ body.relayedBytes, tap.map (· ++ body.data), 0 + body.bytes.length⟩ := by
    intro body behind hbody
    exact @relayChunks_of_rest _ _ _ ⟨⟨src, initial⟩, dst, tap, 0⟩ _ body.lastSized
      body.trailersValid body.trailersFit hbody
  refine ⟨⟨?_, ?_⟩, ?_⟩
  · rintro ⟨out, hout⟩
    obtain ⟨body, hbody⟩ := relayChunks_ok hout
    exact ⟨body, _, hbody⟩
  · rintro ⟨body, behind, hbody⟩
    obtain ⟨source, -, hok⟩ := hrelay body behind hbody
    exact ⟨_, hok⟩
  · intro out hout body behind hbody
    obtain ⟨source, hrest, hok⟩ := hrelay body behind hbody
    rw [hout] at hok
    obtain rfl := Except.ok.inj hok
    exact ⟨rfl, rfl, hrest, Nat.zero_add _⟩

end Tethra.Gateway
