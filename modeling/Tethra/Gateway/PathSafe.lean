import Tethra.Gateway.UpstreamHead
import Tethra.Lib.Percent
import Tethra.Lib.Segments

set_option autoImplicit false

/-! # Paths that decode to others (`gateway/src/forward.rs`)

`path_is_safe` refuses the escapes of a dot, a slash, a backslash and a percent sign, and the raw
shapes of a traversal. An upstream that decodes again meets what a first round has put together out of
a percent sign without digits and escapes of digits; and the escapes of control bytes are not refused. -/

namespace Tethra.Gateway

open Observe Percent

/-- `str::contains`. -/
def containsText (t needle : Str) : Bool := t.tails.any (needle.isPrefixOf ·)

/-- Reject traversal and parser-disagreement shapes before any prefix strip. -/
def pathIsSafe (path : Str) : Bool :=
  if path.head? ≠ some '/' || path.contains '\\' then false
  else if (path.splitOn '/').any fun seg => seg = ['.'] || seg = ['.', '.'] then false
  else
    let lower := asciiLower path
    if containsText lower ['%', '2', 'e'] || containsText lower ['%', '2', 'f'] ||
        containsText lower ['%', '5', 'c'] then false
    else if containsText lower ['%', '2', '5'] then false
    else !(path.splitOn '/').any fun seg => containsText seg ['.', '.']

def slashByte : UInt8 := 0x2f

def dotByte : UInt8 := 0x2e

def backslashByte : UInt8 := 0x5c

def isControlByte (b : UInt8) : Bool := b < 0x20 || b = 0x7f

/-- A path that cannot climb: no dot segments, no backslash and no control byte. -/
structure CleanPath (path : Bytes) : Prop where
  segments : ∀ seg ∈ path.splitOn slashByte, seg ≠ [dotByte] ∧ seg ≠ [dotByte, dotByte]
  bytes : ∀ b ∈ path, b ≠ backslashByte ∧ isControlByte b = false

/-- It is clean after any number of rounds of decoding. -/
def StaysClean (path : Bytes) : Prop := ∀ n, CleanPath (decode^[n] path)

/-- The segment stands in the path, it and the slashes around it spelled in any way. -/
def SpellsSegment (path seg : Bytes) : Prop :=
  ∃ before σ text after, path = before ++ (σ ++ (text ++ after)) ∧ Spells σ slashByte ∧
    Spelled text seg ∧ (after = [] ∨ ∃ τ rest, after = τ ++ rest ∧ Spells τ slashByte)

/-- No escape, nested to any depth, of a backslash or of a control byte, and no dot segment. -/
structure NoHiddenSpelling (path : Bytes) : Prop where
  bytes : ∀ w b, w <:+: path → 1 < w.length → Spells w b → b ≠ backslashByte ∧ isControlByte b = false
  dot : ¬SpellsSegment path [dotByte]
  dots : ¬SpellsSegment path [dotByte, dotByte]

/-! ## What one pass reads -/

theorem inert_of_unclean :
    ∀ b : UInt8, (b = backslashByte ∨ isControlByte b = true) → Inert b := by
  decide +kernel

theorem inert_slash : Inert slashByte := by decide

theorem inert_dot : Inert dotByte := by decide

theorem push_inert {b : UInt8} (hb : Inert b) (stack : Bytes) : push b stack = b :: stack :=
  push_of_not_digit hb.2 stack

theorem run_inert {bs : Bytes} (h : ∀ b ∈ bs, Inert b) (stack : Bytes) :
    run stack bs = bs.reverse ++ stack := by
  induction bs generalizing stack with
  | nil => rfl
  | cons b bs ih =>
      obtain ⟨hb, hbs⟩ := List.forall_mem_cons.1 h
      rw [run_cons, push_inert hb, ih hbs, List.reverse_cons, List.append_assoc,
        List.singleton_append]

/-- What stays clean is clean when it is read in one pass. -/
theorem StaysClean.decoded {path : Bytes} (h : StaysClean path) : CleanPath (decoded path) := by
  obtain ⟨n, hn⟩ := exists_decode_eq path
  rw [← hn]
  exact h n

/-- A byte that is in no escape is read where it is spelled. -/
theorem mem_decoded {path w : Bytes} {b : UInt8} (hw : w <:+: path) (h : Spells w b) (hb : Inert b) :
    b ∈ decoded path := by
  obtain ⟨before, after, rfl⟩ := hw
  obtain ⟨above, habove⟩ := exists_run_inert hb (run [] before) after
  unfold decoded
  rw [run_append, run_append, run_spells h, push_inert hb, habove]
  simp

theorem mem_splitOn_decoded {path seg : Bytes} (h : SpellsSegment path seg)
    (hseg : ∀ b ∈ seg, Inert b) (hslash : slashByte ∉ seg) :
    seg ∈ (decoded path).splitOn slashByte := by
  obtain ⟨before, σ, text, after, rfl, hσ, htext, hends⟩ := h
  have hread : run [] (before ++ (σ ++ (text ++ after)))
      = run (seg.reverse ++ slashByte :: run [] before) after := by
    rw [run_append, run_append, run_append, run_spells hσ, push_inert inert_slash,
      run_spelled htext, run_inert hseg]
  unfold decoded
  rw [hread]
  rcases hends with rfl | ⟨τ, rest, rfl, hτ⟩
  · have hmem : seg ∈ ((run [] before).reverse ++ slashByte :: (seg ++ [])).splitOn slashByte :=
      Segments.mem_splitOn_of_between hslash (Or.inl rfl)
    simpa using hmem
  · obtain ⟨above, habove⟩ :=
      exists_run_inert inert_slash (seg.reverse ++ slashByte :: run [] before) rest
    rw [run_append, run_spells hτ, push_inert inert_slash, habove]
    have hmem : seg ∈ ((run [] before).reverse ++ slashByte :: (seg ++ slashByte :: above.reverse)).splitOn
        slashByte := Segments.mem_splitOn_of_between hslash (Or.inr ⟨above.reverse, rfl⟩)
    simpa using hmem

/-! ## What the rounds read -/

theorem decode_cons_of_ne {b : UInt8} (hb : b ≠ percent) (bs : Bytes) :
    decode (b :: bs) = b :: decode bs := by
  match bs with
  | [] => rfl
  | [c] => rfl
  | h :: l :: rest => rw [decode, if_neg hb]

theorem iterate_decode_slash (bs : Bytes) (n : ℕ) :
    ∃ more, decode^[n] (slashByte :: bs) = slashByte :: more := by
  induction n generalizing bs with
  | zero => exact ⟨bs, rfl⟩
  | succ n ih =>
      rw [Function.iterate_succ_apply, decode_cons_of_ne (by decide)]
      exact ih _

/-- A segment that is read stands in the path. -/
theorem spellsSegment_of_mem {path more seg : Bytes} (h : Spelled path (slashByte :: more))
    (hseg : seg ∈ (slashByte :: more).splitOn slashByte) (hne : seg ≠ []) : SpellsSegment path seg := by
  have hfirst : (slashByte :: more).splitOn slashByte = [] :: more.splitOn slashByte :=
    Segments.splitOn_cons_sep more
  have hbetween := (Segments.between_of_splitOn hfirst).2
  rw [hfirst, List.mem_cons] at hseg
  obtain ⟨before, rest, heq, hends⟩ := hbetween seg (hseg.resolve_left hne)
  rw [heq] at h
  obtain ⟨u, v, rfl, -, hv⟩ := h.split
  obtain ⟨σ, v, rfl, hσ, hv⟩ := @Spelled.split v [slashByte] _ hv
  obtain ⟨text, after, rfl, htext, hafter⟩ := hv.split
  refine ⟨u, σ, text, after, rfl, hσ.singleton, htext, ?_⟩
  rcases hends with rfl | ⟨rest, rfl⟩
  · cases hafter
    exact Or.inl rfl
  · obtain ⟨τ, rest, rfl, hτ, -⟩ := @Spelled.split after [slashByte] _ hafter
    exact Or.inr ⟨τ, rest, rfl, hτ.singleton⟩

/-- A byte that is read is spelled by a part of the path. -/
theorem exists_spells_of_mem {path bs : Bytes} {b : UInt8} (h : Spelled path bs) (hb : b ∈ bs) :
    ∃ w, w <:+: path ∧ Spells w b := by
  obtain ⟨before, after, rfl⟩ := List.append_of_mem hb
  obtain ⟨u, v, rfl, -, hv⟩ := h.split
  obtain ⟨w, v, rfl, hw, -⟩ := @Spelled.split v [b] _ hv
  exact ⟨w, ⟨u, v, List.append_assoc _ _ _⟩, hw.singleton⟩

/-- A path behind a slash, with no raw backslash and no raw control byte, stays clean exactly when it
    has no hidden spelling. -/
theorem staysClean_iff {bs : Bytes}
    (hraw : ∀ b ∈ slashByte :: bs, b ≠ backslashByte ∧ isControlByte b = false) :
    StaysClean (slashByte :: bs) ↔ NoHiddenSpelling (slashByte :: bs) := by
  have hdots : ∀ b ∈ [dotByte, dotByte], Inert b := by simp [inert_dot]
  have hslash : slashByte ∉ [dotByte, dotByte] := by decide
  constructor
  -- enough rounds read the path as one pass does, and the pass reads each spelling as its byte
  · intro h
    have hclean := h.decoded
    refine ⟨fun w b hw _ hspells => ?_, fun hdot => ?_, fun hdot => ?_⟩
    · by_contra hbad
      rw [not_and_or, not_not, Bool.not_eq_false] at hbad
      have hmem := mem_decoded hw hspells (inert_of_unclean b hbad)
      have hok := hclean.bytes b hmem
      rcases hbad with hbad | hbad
      · exact hok.1 hbad
      · rw [hok.2] at hbad
        cases hbad
    · have hmem := mem_splitOn_decoded hdot (fun b hb => hdots b (List.mem_cons_of_mem _ hb))
        fun hin => hslash (List.mem_cons_of_mem _ hin)
      exact (hclean.segments _ hmem).1 rfl
    · exact (hclean.segments _ (mem_splitOn_decoded hdot hdots hslash)).2 rfl
  -- the path spells what any number of rounds makes of it
  · intro h n
    have hspelled := spelled_iterate (slashByte :: bs) n
    obtain ⟨more, hmore⟩ := iterate_decode_slash bs n
    rw [hmore] at hspelled ⊢
    refine ⟨fun seg hseg => ⟨?_, ?_⟩, fun b hb => ?_⟩
    · rintro rfl
      exact h.dot (spellsSegment_of_mem hspelled hseg (List.cons_ne_nil _ _))
    · rintro rfl
      exact h.dots (spellsSegment_of_mem hspelled hseg (List.cons_ne_nil _ _))
    · obtain ⟨w, hw, hspells⟩ := exists_spells_of_mem hspelled hb
      by_cases hlen : 1 < w.length
      · exact h.bytes w b hw hlen hspells
      · rw [hspells.eq_singleton (not_lt.1 hlen)] at hw
        exact hraw b (hw.subset (List.mem_singleton_self b))

/-! ## The path for the upstream -/

/-- What stands in the path behind the prefix of the route. -/
def pathTail (path : Str) : Str :=
  let (first, tail) := splitSegment (path.drop 1)
  if first = ['p'] then (splitSegment ((splitSegment (tail.drop 1)).2.drop 1)).2 else tail

theorem drop_of_stripSlash {path rest : Str} (h : stripSlash path = some rest) : path.drop 1 = rest := by
  unfold stripSlash at h
  split at h
  · exact Option.some.inj h
  · cases h

theorem upstreamPath_eq {table : RouteTable} {path : Str} {res : Resolution}
    (h : resolve table path = some res) : res.upstreamPath = normalizeTail (pathTail path) := by
  unfold pathTail
  obtain ⟨rest, hrest, h⟩ := Option.bind_eq_some_iff.1 h
  rw [drop_of_stripSlash hrest]
  split_ifs at h with hlinked
  · obtain ⟨after, hafter, h⟩ := Option.bind_eq_some_iff.1 h
    obtain ⟨link, -, h⟩ := Option.bind_eq_some_iff.1 h
    obtain ⟨after2, hafter2, h⟩ := Option.bind_eq_some_iff.1 h
    obtain ⟨route, -, h⟩ := Option.bind_eq_some_iff.1 h
    split_ifs at h
    obtain rfl := Option.some.inj h
    simp [hlinked, drop_of_stripSlash hafter, drop_of_stripSlash hafter2]
  · obtain ⟨route, -, h⟩ := Option.bind_eq_some_iff.1 h
    obtain rfl := Option.some.inj h
    simp [hlinked]

theorem splitSegment_tail (t : Str) : (splitSegment t).2 = [] ∨ ∃ u, (splitSegment t).2 = '/' :: u := by
  unfold splitSegment
  rcases htail : t.dropWhile (· ≠ '/') with _ | ⟨c, u⟩
  · exact Or.inl rfl
  · have hc := List.head?_dropWhile_not (fun c : Char => decide (c ≠ '/')) t
    rw [htail] at hc
    have hslash : c = '/' := by simpa using hc
    exact Or.inr ⟨u, by rw [hslash]⟩

/-- The tail is empty or begins with a slash. -/
theorem pathTail_slash (path : Str) : pathTail path = [] ∨ ∃ u, pathTail path = '/' :: u := by
  unfold pathTail
  dsimp only
  split_ifs
  · exact splitSegment_tail _
  · exact splitSegment_tail _

theorem not_control_of_visible : ∀ b : UInt8, isVisible b = true → isControlByte b = false := by
  decide +kernel

/-- The only character with a visible byte is the byte's own. -/
theorem eq_charOf_of_visible {c : Char} {b : UInt8} (hvisible : (utf8 [c]).all isVisible = true)
    (hb : b ∈ utf8 [c]) : c = charOf b := by
  obtain ⟨d, hbytes, hd⟩ := List.map_eq_singleton_iff.1 (eq_map_charOf_of_visible hvisible).symm
  rw [hbytes, List.mem_singleton] at hb
  rw [hb, hd]

/-- A safe path of an accepted head has no raw backslash and no raw control byte, and so the path for
    the upstream. -/
theorem raw_upstreamPath {table : RouteTable} {head : RequestHead} {res : Resolution}
    (hsafe : pathIsSafe head.pathOnly = true) (h : resolve table head.pathOnly = some res) :
    ∀ b ∈ utf8 res.upstreamPath, b ≠ backslashByte ∧ isControlByte b = false := by
  have hslash : ∀ b ∈ utf8 ['/'], b ≠ backslashByte ∧ isControlByte b = false :=
    List.forall_mem_singleton.2 (by decide)
  have hnone : '\\' ∉ head.pathOnly := by
    unfold pathIsSafe at hsafe
    split_ifs at hsafe with hshape
    simp only [Bool.or_eq_true, not_or, Bool.not_eq_true] at hshape
    simpa using hshape.2
  intro b hb
  obtain ⟨c, hc, hb⟩ := mem_utf8.1 hb
  rcases mem_of_resolve h hc with rfl | hin
  · exact hslash b hb
  · have hvisible : (utf8 [c]).all isVisible = true := List.all_eq_true.2 fun b hb =>
      List.all_eq_true.1 (all_visible_of_target head) b
        (mem_utf8.2 ⟨c, (List.takeWhile_sublist _).mem hin, hb⟩)
    refine ⟨?_, not_control_of_visible b (List.all_eq_true.1 hvisible b hb)⟩
    rintro rfl
    have hchar : charOf backslashByte = '\\' := by decide
    rw [eq_charOf_of_visible hvisible hb, hchar] at hin
    exact hnone hin

theorem noHiddenSpelling_nil : NoHiddenSpelling [] := by
  have hno : ∀ seg, ¬SpellsSegment [] seg := by
    rintro seg ⟨before, σ, text, after, heq, hσ, -, -⟩
    have hpos := hσ.length_pos
    have hlen := congrArg List.length heq
    simp only [List.length_nil, List.length_append] at hlen
    omega
  refine ⟨fun w b hw hlen _ => ?_, hno _, hno _⟩
  rw [List.infix_nil] at hw
  rw [hw] at hlen
  exact absurd hlen (by decide)

theorem staysClean_slash : StaysClean [slashByte] := by
  intro n
  have hfix : decode^[n] [slashByte] = [slashByte] := Function.iterate_fixed rfl n
  rw [hfix]
  have hsplit : [slashByte].splitOn slashByte = [[], []] := by decide
  refine ⟨fun seg hseg => ?_, List.forall_mem_singleton.2 (by decide)⟩
  rw [hsplit] at hseg
  simp only [List.mem_cons, List.not_mem_nil, or_false, or_self] at hseg
  rw [hseg]
  exact ⟨nofun, nofun⟩

theorem utf8_slash (t : Str) : utf8 ('/' :: t) = slashByte :: utf8 t := by
  rw [← List.singleton_append, utf8_append]
  rfl

/-- The path that an accepted request is sent with stays clean under every number of rounds of
    decoding exactly when what stands behind the route's prefix has no hidden spelling. -/
theorem upstreamPath_staysClean_iff {table : RouteTable} {head : RequestHead} {res : Resolution}
    (hsafe : pathIsSafe head.pathOnly = true) (h : resolve table head.pathOnly = some res) :
    StaysClean (utf8 res.upstreamPath) ↔ NoHiddenSpelling (utf8 (pathTail head.pathOnly)) := by
  have hraw := raw_upstreamPath hsafe h
  rw [upstreamPath_eq h] at hraw ⊢
  rcases pathTail_slash head.pathOnly with htail | ⟨t, htail⟩
  · rw [htail]
    exact iff_of_true staysClean_slash noHiddenSpelling_nil
  · have hpath : normalizeTail (pathTail head.pathOnly) = pathTail head.pathOnly := by
      rw [htail]
      rfl
    rw [hpath, htail, utf8_slash] at hraw
    rw [hpath, htail, utf8_slash]
    exact staysClean_iff hraw

/-! ## Two requests -/

/-- A `GET` without fields. -/
def getHead (target : Str) (h : validateToken "GET".toList "method" = .ok () ∧
    validateTargetCharset target = .ok () ∧ validateRequestFraming [] = .ok .none) : RequestHead where
  method := "GET".toList
  target := target
  version := .http11
  headers := []
  framing := .none
  methodToken := h.1
  targetVisible := h.2.1
  framed := h.2.2

def modelsHead : RequestHead := getHead "/openai/v1/models".toList (by decide)

/-- Without a percent sign there are no hidden spellings. -/
theorem upstreamPath_staysClean_iff_models :
    ∃ res, resolve chatTable modelsHead.pathOnly = some res ∧
      (StaysClean (utf8 res.upstreamPath) ↔ NoHiddenSpelling (utf8 "/v1/models".toList)) := by
  have htail : pathTail modelsHead.pathOnly = "/v1/models".toList := by decide
  obtain ⟨res, hres⟩ : ∃ res, resolve chatTable modelsHead.pathOnly = some res :=
    Option.isSome_iff_exists.1 (by decide)
  refine ⟨res, hres, ?_⟩
  rw [← htail]
  exact upstreamPath_staysClean_iff (by decide) hres

/-- Percent signs without digits keep escapes of a digit and a letter, which the first round reads. -/
def nestedHead : RequestHead := getHead "/openai/%%32e%%32e/x".toList (by decide)

theorem nested_dots :
    ¬∀ (table : RouteTable) (head : RequestHead) (res : Resolution),
      pathIsSafe head.pathOnly = true → resolve table head.pathOnly = some res →
        StaysClean (utf8 res.upstreamPath) := by
  intro hall
  obtain ⟨res, hres⟩ : ∃ res, resolve chatTable nestedHead.pathOnly = some res :=
    Option.isSome_iff_exists.1 (by decide)
  have hpath : utf8 res.upstreamPath = wire "/%%32e%%32e/x" := by
    rw [upstreamPath_eq hres]
    decide
  have hclean := hall chatTable nestedHead res (by decide) hres 2
  rw [hpath] at hclean
  have hseg : [dotByte, dotByte] ∈ (decode^[2] (wire "/%%32e%%32e/x")).splitOn slashByte := by decide
  exact (hclean.segments _ hseg).2 rfl

end Tethra.Gateway
