import Tethra.Gateway.ChunkedBody
import Tethra.Gateway.HeadRead
import Tethra.Gateway.UpstreamHead

set_option autoImplicit false

/-! # Response fields and trailers (`gateway/src/head.rs`, `gateway/src/stream.rs`)

The builder of the client's response head strips the names of a fixed list and those that the
response's `Connection` fields nominate. The relay of a chunked body filters the trailer section by
the fixed list alone. -/

namespace Tethra.Gateway

open Observe

/-- Response headers that are not relayed to the client. -/
def stripFromResponse (lower : Str) (named : List Str) : Bool :=
  lower = "set-cookie".toList || "access-control-".toList.isPrefixOf lower ||
    lower = "content-length".toList || hopByHop.contains lower || "proxy-".toList.isPrefixOf lower ||
    named.contains lower

/-- The start line and the fields that the heads for the client have in common. -/
def clientHeadStart (head : ResponseHead) : Bytes :=
  wire "HTTP/1.1 " ++ wire (toString head.status) ++
    (if head.reason = [] then [] else wire " " ++ utf8 head.reason) ++ crlf ++
    head.headers.flatMap fun f =>
      if stripFromResponse f.lower (connectionNamed head.headers) then []
      else fieldLine (utf8 f.name) f.value

/-- An interim head for the client. -/
def buildClientInterimHead (head : ResponseHead) : Bytes := clientHeadStart head ++ crlf

/-- The head builder strips a field of this name. -/
def ResponseHead.Strips (head : ResponseHead) (name : Str) : Prop :=
  stripFromResponse name (connectionNamed head.headers) = true

instance (head : ResponseHead) (name : Str) : Decidable (head.Strips name) :=
  inferInstanceAs (Decidable (_ = true))

/-- A name of the fixed list. -/
def AlwaysStripped (name : Str) : Prop := stripFromResponse name [] = true

instance (name : Str) : Decidable (AlwaysStripped name) := inferInstanceAs (Decidable (_ = true))

def IsFieldName (name : Str) : Prop := validateToken name "header name" = .ok ()

/-- The lower-case name of a trailer line, if it has one. -/
def trailerName (line : Bytes) : Option Str :=
  if line.contains 0x3a then
    (fromUtf8 (line.takeWhile (· != 0x3a))).map fun name => asciiLower (Text.trim name)
  else none

theorem strips_iff {head : ResponseHead} {name : Str} :
    head.Strips name ↔ AlwaysStripped name ∨ name ∈ connectionNamed head.headers := by
  unfold ResponseHead.Strips AlwaysStripped stripFromResponse
  rw [Bool.or_eq_true, List.contains_iff_mem, List.contains_nil, Bool.or_false]

/-- The trailer filter drops the names of the fixed list, and no other field name. -/
theorem trailerIsRelayable_iff {line : Bytes} {name : Str} (h : trailerName line = some name) :
    trailerIsRelayable line = true ↔ name ≠ [] ∧ ¬AlwaysStripped name := by
  unfold trailerName at h
  split_ifs at h with hcolon
  obtain ⟨raw, hraw, rfl⟩ := Option.map_eq_some_iff.1 h
  unfold trailerIsRelayable AlwaysStripped stripFromResponse
  rw [hraw, hcolon]
  dsimp only
  have hte : "transfer-encoding".toList ∈ hopByHop := by decide
  have htrailer : "trailer".toList ∈ hopByHop := by decide
  -- the two names that only the trailer filter spells out are hop-by-hop
  generalize "transfer-encoding".toList = te at hte ⊢
  generalize "trailer".toList = trailer at htrailer ⊢
  generalize "set-cookie".toList = cookie
  generalize "access-control-".toList = access
  generalize "content-length".toList = len
  generalize "proxy-".toList = proxy
  generalize asciiLower (Text.trim raw) = lower
  by_cases hhop : lower ∈ hopByHop
  · simp [hhop]
  · have hne : lower ≠ te := fun heq => hhop (heq ▸ hte)
    have hne' : lower ≠ trailer := fun heq => hhop (heq ▸ htrailer)
    generalize access.isPrefixOf lower = hasAccess
    generalize proxy.isPrefixOf lower = hasProxy
    simp [hhop, hne, hne', and_assoc]

/-- What the relay writes of a chunked response has no trailer with a name that the head builder
    would strip. -/
def ResponseHead.TrailersObey (head : ResponseHead) : Prop :=
  ∀ (src : List Segment) (dst initial : Bytes) (tap : Option Bytes) (out : Relay)
    (body : ChunkedBody) (behind : Bytes),
    initial ++ (src.map Subtype.val).flatten = body.bytes ++ behind →
    relayChunkedStrict src dst initial tap = .ok out →
    ∃ sent : List Bytes, sent.Sublist body.trailers ∧ out.dst = dst ++ body.wireWith sent ∧
      ∀ line ∈ sent, ∀ name, trailerName line = some name → IsFieldName name → ¬head.Strips name

/-- The relay of a stream that starts with a chunked body. -/
theorem relay_of_body {src : List Segment} {dst initial : Bytes} {tap : Option Bytes}
    {body : ChunkedBody} {behind : Bytes}
    (h : initial ++ (src.map Subtype.val).flatten = body.bytes ++ behind) :
    ∃ out, relayChunkedStrict src dst initial tap = .ok out ∧
      out.dst = dst ++ body.wireWith (body.trailers.filter trailerIsRelayable) := by
  obtain ⟨source, -, hok⟩ := @relayChunks_of_rest _ _ _ ⟨⟨src, initial⟩, dst, tap, 0⟩ _
    body.lastSized body.trailersValid body.trailersFit h
  exact ⟨_, hok, rfl⟩

/-- A body without data and with one trailer. -/
def oneTrailer (line : Bytes) (h : IsTrailer line) : ChunkedBody where
  chunks := []
  last := [0x30]
  trailers := [line]
  lastSized := ⟨by decide, by decide, List.forall_mem_singleton.2 (by decide), by decide⟩
  trailersValid := by simpa using h
  trailersFit := by
    have hshort := h.short
    unfold maxChunkLine at hshort
    unfold maxTrailer
    simp
    omega

theorem wireWith_nil_ne (body : ChunkedBody) (line : Bytes) :
    body.wireWith [] ≠ body.wireWith [line] := by
  intro h
  have hlen := congrArg List.length h
  simp [ChunkedBody.wireWith, trailerLines, crlf] at hlen

/-- A relayed trailer with a nominated name is sent. -/
theorem not_obey {head : ResponseHead} {line : Bytes} {name : Str} (hline : IsTrailer line)
    (hname : trailerName line = some name) (hfield : IsFieldName name) (hstrips : head.Strips name)
    (hrelayed : trailerIsRelayable line = true) : ¬head.TrailersObey := by
  intro h
  have hstream : (oneTrailer line hline).bytes ++ (([] : List Segment).map Subtype.val).flatten
      = (oneTrailer line hline).bytes ++ [] := rfl
  obtain ⟨out, hok, hdst⟩ := @relay_of_body _ [] _ none _ _ hstream
  obtain ⟨sent, hsub, hsent, hnone⟩ := h _ _ _ _ _ _ _ hstream hok
  have hfilter : (oneTrailer line hline).trailers.filter trailerIsRelayable = [line] := by
    simp [oneTrailer, hrelayed]
  rw [hdst, hfilter] at hsent
  have hwire := List.append_cancel_left hsent
  rcases List.sublist_singleton.1 hsub with rfl | rfl
  · exact wireWith_nil_ne _ _ hwire.symm
  · exact hnone line (List.mem_singleton_self _) name hname hfield hstrips

/-! ## Field names -/

theorem not_whitespace_of_token :
    ∀ b : UInt8, isTokenByte b = true → Text.isWhitespace (charOf b) = false := by
  decide +kernel

theorem trim_of_token {name : Str} (h : (utf8 name).all isTokenByte = true) :
    Text.trim name = name := by
  have hno : ∀ c ∈ name, Text.isWhitespace c = false := by
    intro c hc
    rw [eq_map_charOf_of_visible (all_visible_of_token h)] at hc
    obtain ⟨b, hb, rfl⟩ := List.mem_map.1 hc
    exact not_whitespace_of_token b (List.all_eq_true.1 h b hb)
  exact Text.trim_of_noWs (fun c hc => hno c (List.mem_of_mem_head? hc))
    fun c hc => hno c (List.mem_of_mem_getLast? hc)

theorem asciiLower_of_named {headers : List HeaderField} {name : Str}
    (h : name ∈ connectionNamed headers) : asciiLower name = name := by
  obtain ⟨f, -, hf⟩ := List.mem_flatMap.1 h
  split_ifs at hf
  split at hf
  · obtain ⟨option, -, rfl⟩ := List.mem_map.1 (List.mem_filter.1 hf).1
    exact asciiLower_asciiLower _
  · cases hf
  · cases hf

/-- The trailer line of a field name without a value. -/
theorem trailerName_of_fieldName {name : Str} (h : IsFieldName name)
    (hlower : asciiLower name = name) : trailerName (utf8 name ++ [colon]) = some name := by
  have htoken := (validateToken_ok h).2
  have hcolon : ∀ b ∈ utf8 name, (b != 0x3a) = true := by
    intro b hb
    rw [bne_iff_ne]
    rintro rfl
    exact absurd (List.all_eq_true.1 htoken _ hb) (by decide)
  have htake : (utf8 name ++ [colon]).takeWhile (· != 0x3a) = utf8 name := by
    rw [List.takeWhile_append_of_pos hcolon]
    simp [colon]
  unfold trailerName
  rw [htake, fromUtf8_utf8, Option.map_some, trim_of_token htoken, hlower]
  simp [colon]

theorem length_fieldName {name : Str} (h : IsFieldName name) : (utf8 name).length ≤ 256 := by
  unfold IsFieldName validateToken at h
  split_ifs at h with hbad
  rw [not_or, not_or] at hbad
  exact not_lt.1 hbad.2.1

theorem isTrailer_of_fieldName {name : Str} (h : IsFieldName name) :
    IsTrailer (utf8 name ++ [colon]) := by
  have htoken := (validateToken_ok h).2
  have hlen := length_fieldName h
  refine ⟨by simp, fun b hb => ?_, ?_⟩
  · rcases List.mem_append.1 hb with hb | hb
    · have hbyte := List.all_eq_true.1 htoken b hb
      constructor <;> rintro rfl <;> exact absurd hbyte (by decide)
    · rw [List.mem_singleton.1 hb]
      decide
  · rw [List.length_append, List.length_singleton]
    unfold maxChunkLine
    omega

/-- The trailers of a response obey its head's filter exactly when its `Connection` fields nominate no
    field name outside the fixed list. -/
theorem trailers_obey_iff (head : ResponseHead) : head.TrailersObey ↔
    ∀ name ∈ connectionNamed head.headers, IsFieldName name → AlwaysStripped name := by
  constructor
  · intro hobey name hnamed hfield
    by_contra hnot
    have hname := trailerName_of_fieldName hfield (asciiLower_of_named hnamed)
    have hrelayed := (trailerIsRelayable_iff hname).2 ⟨(validateToken_ok hfield).1, hnot⟩
    exact not_obey (isTrailer_of_fieldName hfield) hname hfield (strips_iff.2 (Or.inr hnamed))
      hrelayed hobey
  · intro hnamed src dst initial tap out body behind hstream hok
    obtain ⟨out', hok', hdst⟩ := @relay_of_body src dst initial tap body behind hstream
    obtain rfl : out = out' := Except.ok.inj (hok.symm.trans hok')
    refine ⟨_, List.filter_sublist, hdst, fun line hline name hname hfield hstrips => ?_⟩
    have hnot := ((trailerIsRelayable_iff hname).1 (List.mem_filter.1 hline).2).2
    rcases strips_iff.1 hstrips with halways | hmem
    · exact hnot halways
    · exact hnot (hnamed name hmem hfield)

/-- A response that nominates a field of its own. -/
def nominating : ResponseHead where
  status := 200
  reason := []
  version := .http11
  headers := [⟨"connection".toList, wire "x-hop", by decide, by decide⟩]
  contentLength := none
  chunked := true
  upstreamWantsClose := false
  statusKnown := by decide

/-- The nominated field is relayed as a trailer. -/
theorem nominating_trailer : ¬∀ head : ResponseHead, head.TrailersObey := by
  intro h
  have hfield : IsFieldName "x-hop".toList := show validateToken _ _ = _ by decide
  have hname := trailerName_of_fieldName hfield (by decide)
  have hnot : ¬AlwaysStripped "x-hop".toList := by decide
  have hrelayed := (trailerIsRelayable_iff hname).2 ⟨by decide, hnot⟩
  have hstrips : nominating.Strips "x-hop".toList := by decide
  exact not_obey (isTrailer_of_fieldName hfield) hname hfield hstrips hrelayed (h nominating)

end Tethra.Gateway
