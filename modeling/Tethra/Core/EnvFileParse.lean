import Tethra.Core.EnvFile

set_option autoImplicit false

/-! # Rendering and re-parsing a `.env` line

Every write of the product is read back by a later parse, so the facts about edits are worth as much
as the round trip: an entry rendered by `renderEntry` parses to the same key and value
(`parseLine_renderEntry`), and a parsed line does not depend on the line number or on a carriage
return that ends it (`parseLine_append_cr`). -/

namespace Tethra.Core.EnvFile

open Text

theorem isWhitespace_of_mem_cr {c : Char} (h : c ∈ ['\r']) : isWhitespace c = true := by
  obtain rfl := List.mem_singleton.1 h
  decide

theorem isWhitespace_of_mem_space {c : Char} (h : c ∈ [' ']) : isWhitespace c = true := by
  obtain rfl := List.mem_singleton.1 h
  decide

/-! ## Escapes -/

theorem decodeDouble_cons_of_ne {c : Char} (h : c ≠ '\\') (cs : List Char) :
    decodeDouble (c :: cs) = c :: decodeDouble cs := by
  rw [decodeDouble.eq_def]
  split <;> simp_all

theorem encodeDouble_cons (c : Char) (cs : List Char) :
    encodeDouble (c :: cs) = encodeDoubleChar c ++ encodeDouble cs := by
  simp [encodeDouble]

theorem decodeDouble_encodeDoubleChar (c : Char) (rest : List Char) :
    decodeDouble (encodeDoubleChar c ++ rest) = c :: decodeDouble rest := by
  unfold encodeDoubleChar
  split
  · subst_vars; simp [decodeDouble]
  · split
    · subst_vars; simp [decodeDouble]
    · split
      · subst_vars; simp [decodeDouble]
      · split
        · subst_vars; simp [decodeDouble]
        · split
          · subst_vars; simp [decodeDouble]
          · rename_i hb _ _ _
            exact decodeDouble_cons_of_ne hb rest

theorem decodeDouble_encodeDouble (value : List Char) :
    decodeDouble (encodeDouble value) = value := by
  induction value with
  | nil => rfl
  | cons c cs ih => rw [encodeDouble_cons, decodeDouble_encodeDoubleChar, ih]

theorem findClosingDouble_encodeDoubleChar (c : Char) (rest : List Char) :
    findClosingDouble false (encodeDoubleChar c ++ rest)
      = (findClosingDouble false rest).map fun r => (encodeDoubleChar c ++ r.1, r.2) := by
  have hesc : ∀ d : Char, findClosingDouble false (['\\', d] ++ rest)
      = (findClosingDouble false rest).map fun r => (['\\', d] ++ r.1, r.2) := by
    intro d
    simp [findClosingDouble, Function.comp_def]
  unfold encodeDoubleChar
  split
  · exact hesc _
  · split
    · exact hesc _
    · split
      · exact hesc _
      · split
        · exact hesc _
        · split
          · exact hesc _
          · rename_i hq hb _ _ _
            have hb' : (c == '\\') = false := by simpa using hb
            simp [findClosingDouble, hq, hb']

/-- The closing quote found in a rendered double-quoted value is the one that was rendered. -/
theorem findClosingDouble_encodeDouble (value tail : List Char) :
    findClosingDouble false (encodeDouble value ++ '"' :: tail)
      = some (encodeDouble value, tail) := by
  induction value with
  | nil => simp [encodeDouble, findClosingDouble]
  | cons c cs ih =>
      rw [encodeDouble_cons, List.append_assoc, findClosingDouble_encodeDoubleChar, ih]
      rfl

theorem findClosingDouble_append_cr (esc : Bool) (t : List Char) :
    findClosingDouble esc (t ++ ['\r'])
      = (findClosingDouble esc t).map fun r => (r.1, r.2 ++ ['\r']) := by
  induction t generalizing esc with
  | nil => cases esc <;> rfl
  | cons c cs ih =>
      cases esc with
      | true => simp [findClosingDouble, ih, Function.comp_def]
      | false =>
          simp only [List.cons_append, findClosingDouble]
          split
          · rfl
          · simp [ih, Function.comp_def]

/-! ## Inline comments -/

/-- What a parsed inline comment looks like. -/
def CommentText (c : List Char) : Prop := c.head? = some '#' ∧ NoTrailingWs c ∧ '\n' ∉ c

theorem CommentText.noLeadingWs {c : List Char} (h : CommentText c) : NoLeadingWs c := by
  intro d hd
  rw [h.1] at hd
  obtain rfl := Option.some.inj hd
  decide

theorem CommentText.trim_eq {c : List Char} (h : CommentText c) : trim c = c :=
  trim_of_noWs h.noLeadingWs h.2.1

theorem trim_renderComment {comment : Option (List Char)} (h : ∀ c ∈ comment, CommentText c) :
    trim (renderComment comment) = comment.getD [] := by
  cases comment with
  | none => rfl
  | some c =>
      have hc := h c rfl
      have hsp : trim (' ' :: c) = trim c := by
        rw [trim, show (' ' :: c) = [' '] ++ c from rfl, trimStart_ws_append fun _ => isWhitespace_of_mem_space, trim]
      rw [renderComment, hsp, hc.trim_eq, Option.getD_some]

theorem parseTailComment_of_commentText {comment : Option (List Char)}
    (h : ∀ c ∈ comment, CommentText c) :
    parseTailComment (comment.getD []) = .ok comment := by
  cases comment with
  | none => rfl
  | some c =>
      obtain ⟨hhd, -, -⟩ := h c rfl
      cases c with
      | nil => simp at hhd
      | cons d ds =>
          obtain rfl : d = '#' := by simpa using hhd
          rfl

theorem cutInlineComment_no_hash {v : List Char} (h : '#' ∉ v) (opens : Bool) :
    cutInlineComment opens v = (v, none) := by
  induction v generalizing opens with
  | nil => rfl
  | cons c cs ih =>
      simp only [List.mem_cons, not_or] at h
      have hc : (c == '#') = false := by simpa using Ne.symm h.1
      simp [cutInlineComment, hc, ih h.2]

theorem cutInlineComment_append_comment {v c : List Char} (h : '#' ∉ v) (hc : CommentText c)
    (opens : Bool) :
    cutInlineComment opens (v ++ ' ' :: c) = (v ++ [' '], some c) := by
  induction v generalizing opens with
  | nil =>
      obtain ⟨hhd, hend, -⟩ := hc
      cases c with
      | nil => simp at hhd
      | cons d ds =>
          obtain rfl : d = '#' := by simpa using hhd
          simp [cutInlineComment, isAsciiWhitespace, trimEnd_of_noTrailingWs hend]
  | cons d ds ih =>
      simp only [List.mem_cons, not_or] at h
      have hd : (d == '#') = false := by simpa using Ne.symm h.1
      simp [cutInlineComment, hd, ih h.2]

theorem cutInlineComment_comment {opens : Bool} {t v c : List Char}
    (h : cutInlineComment opens t = (v, some c)) (hn : '\n' ∉ t) : CommentText c := by
  induction t generalizing opens v with
  | nil => simp [cutInlineComment] at h
  | cons d ds ih =>
      simp only [cutInlineComment] at h
      split at h
      · rename_i hd
        simp only [Prod.mk.injEq, Option.some.injEq] at h
        obtain ⟨-, rfl⟩ := h
        have hdh : d = '#' := by simpa using (Bool.and_eq_true_iff.1 hd).2
        refine ⟨?_, noTrailingWs_trimEnd _, fun hm => hn (mem_of_mem_trimEnd hm)⟩
        have hne : trimEnd (d :: ds) ≠ [] := by
          intro hnil
          have := List.rdropWhile_eq_nil_iff.1 hnil d (List.mem_cons_self ..)
          rw [hdh] at this
          exact absurd this (by decide)
        obtain ⟨u, hu⟩ := List.rdropWhile_prefix isWhitespace (d :: ds)
        rw [← trimEnd] at hu
        cases ht : trimEnd (d :: ds) with
        | nil => exact absurd ht hne
        | cons e es =>
            rw [ht] at hu
            simp only [List.cons_append, List.cons.injEq] at hu
            simp [hu.1, hdh]
      · simp only [List.mem_cons, not_or] at hn
        simp only [Prod.mk.injEq] at h
        exact ih (v := (cutInlineComment (isAsciiWhitespace d) ds).1)
          (Prod.ext rfl h.2) hn.2

theorem cutInlineComment_append_cr (opens : Bool) (t : List Char) :
    (cutInlineComment opens (t ++ ['\r'])).2 = (cutInlineComment opens t).2 ∧
      trim (cutInlineComment opens (t ++ ['\r'])).1 = trim (cutInlineComment opens t).1 := by
  have hgen : (cutInlineComment opens (t ++ ['\r'])).2 = (cutInlineComment opens t).2 ∧
      ((cutInlineComment opens (t ++ ['\r'])).1 = (cutInlineComment opens t).1 ∨
        (cutInlineComment opens (t ++ ['\r'])).1
          = (cutInlineComment opens t).1 ++ ['\r']) := by
    induction t generalizing opens with
    | nil => simp [cutInlineComment]
    | cons c cs ih =>
        simp only [List.cons_append, cutInlineComment]
        split
        · have := trimEnd_append_of_ws (t := c :: cs) (u := ['\r'])
            fun _ => isWhitespace_of_mem_cr
          simpa using this
        · obtain ⟨h2, h1⟩ := ih (isAsciiWhitespace c)
          refine ⟨h2, ?_⟩
          rcases h1 with h1 | h1 <;> simp [h1]
  obtain ⟨h2, h1 | h1⟩ := hgen
  · exact ⟨h2, by rw [h1]⟩
  · exact ⟨h2, by rw [h1, trim_append_of_ws fun _ => isWhitespace_of_mem_cr]⟩

/-! ## Values -/

theorem parseValue_single {v : List Char} (hv : '\'' ∉ v) (tail : List Char) :
    parseValue ('\'' :: (v ++ '\'' :: tail))
      = (parseTailComment (trim tail)).map fun c => (v, .single, c) := by
  rw [parseValue, trimStart_of_noLeadingWs (noLeadingWs_cons.2 (by decide))]
  simp [splitOnce_append hv]

theorem parseValue_double (v tail : List Char) :
    parseValue ('"' :: (encodeDouble v ++ '"' :: tail))
      = (parseTailComment (trim tail)).map fun c => (v, .double, c) := by
  rw [parseValue, trimStart_of_noLeadingWs (noLeadingWs_cons.2 (by decide))]
  simp [findClosingDouble_encodeDouble, decodeDouble_encodeDouble]

theorem parseValue_bare {t : List Char} (hs : (trimStart t).head? ≠ some '\'')
    (hd : (trimStart t).head? ≠ some '"') :
    parseValue t = .ok (trim (cutInlineComment true (trimStart t)).1, .bare,
      (cutInlineComment true (trimStart t)).2) := by
  unfold parseValue
  split
  · rename_i h; simp [h] at hs
  · rename_i h; simp [h] at hd
  · rfl

theorem fitsBare_facts {v : List Char} (h : fitsBare v = true) :
    v ≠ [] ∧ v.head? ≠ some '\'' ∧ (∀ c ∈ v, isWhitespace c = false) ∧ '#' ∉ v ∧ '"' ∉ v := by
  simp only [fitsBare, Bool.and_eq_true, Bool.not_eq_true', List.isEmpty_eq_false_iff,
    beq_eq_false_iff_ne, ne_eq, List.any_eq_false, Bool.or_eq_true, beq_iff_eq, not_or,
    Bool.not_eq_true] at h
  obtain ⟨⟨⟨hne, hq⟩, hall⟩, -⟩ := h
  refine ⟨hne, hq, fun c hc => (hall c hc).1.1.1, fun hm => ?_, fun hm => ?_⟩
  · exact (hall _ hm).1.1.2 rfl
  · exact (hall _ hm).1.2 rfl

theorem parseValue_renderValue (q : Quoting) (v : List Char) {comment : Option (List Char)}
    (hc : ∀ c ∈ comment, CommentText c) :
    ∃ q', parseValue (renderValue q v ++ renderComment comment) = .ok (v, q', comment) := by
  have hdouble : ∃ q', parseValue ('"' :: encodeDouble v ++ ['"'] ++ renderComment comment)
      = .ok (v, q', comment) := by
    refine ⟨.double, ?_⟩
    have := parseValue_double v (renderComment comment)
    rw [trim_renderComment hc, parseTailComment_of_commentText hc] at this
    simpa [Except.map] using this
  cases q with
  | double => exact hdouble
  | single =>
      by_cases hfit : fitsSingle v = true
      · have hq : '\'' ∉ v := by
          simp only [fitsSingle, Bool.and_eq_true, Bool.not_eq_true'] at hfit
          simpa using hfit.1
        refine ⟨.single, ?_⟩
        have := parseValue_single hq (renderComment comment)
        rw [trim_renderComment hc, parseTailComment_of_commentText hc] at this
        simpa [renderValue, hfit, Except.map] using this
      · simpa [renderValue, hfit] using hdouble
  | bare =>
      by_cases hfit : fitsBare v = true
      · obtain ⟨hne, hq, hws, hhash, hdq⟩ := fitsBare_facts hfit
        obtain ⟨c, cs, rfl⟩ := List.exists_cons_of_ne_nil hne
        have hstart : trimStart (c :: cs ++ renderComment comment)
            = c :: cs ++ renderComment comment :=
          trimStart_of_noLeadingWs (noLeadingWs_cons.2 (hws c (List.mem_cons_self ..)))
        have htrim : trim (c :: cs) = c :: cs :=
          trim_of_noWs (noLeadingWs_cons.2 (hws c (List.mem_cons_self ..)))
            (fun d hd => hws d (List.mem_of_mem_getLast? hd))
        refine ⟨.bare, ?_⟩
        simp only [renderValue, hfit, if_true]
        rw [parseValue_bare (by rw [hstart]; exact hq)
          (by rw [hstart]; intro hh; apply hdq; simp at hh; simp [hh]), hstart]
        cases comment with
        | none =>
            rw [renderComment, List.append_nil, cutInlineComment_no_hash hhash, htrim]
        | some k =>
            rw [renderComment, cutInlineComment_append_comment hhash (hc k rfl),
              trim_append_of_ws fun _ => isWhitespace_of_mem_space, htrim]
      · simpa [renderValue, hfit] using hdouble

/-! ## Rendered entries parse back -/

theorem validKey_chars {k : List Char} (h : validKey k = true) :
    ∃ c cs, k = c :: cs ∧ c ≠ '#' ∧ ∀ d ∈ k, isWhitespace d = false ∧ d ≠ '=' ∧ d ≠ '\n' := by
  cases k with
  | nil => simp [validKey] at h
  | cons c cs =>
      simp only [validKey, Bool.and_eq_true, List.all_eq_true] at h
      have hword : ∀ d, (isAsciiAlphanumeric d || d == '_') = true →
          isWhitespace d = false ∧ d ≠ '=' ∧ d ≠ '\n' ∧ d ≠ '#' := by
        intro d hd
        have hrange : (0x41 ≤ d.toNat ∧ d.toNat ≤ 0x5A) ∨ (0x61 ≤ d.toNat ∧ d.toNat ≤ 0x7A) ∨
            (0x30 ≤ d.toNat ∧ d.toNat ≤ 0x39) ∨ d.toNat = 0x5F := by
          simp only [isAsciiAlphanumeric, isAsciiAlphabetic, Bool.or_eq_true, Bool.and_eq_true,
            decide_eq_true_eq, beq_iff_eq] at hd
          rcases hd with (hd | hd) | rfl
          · omega
          · omega
          · decide
        refine ⟨?_, ?_, ?_, ?_⟩
        · simp only [isWhitespace, Bool.or_eq_false_iff, Bool.and_eq_false_iff,
            decide_eq_false_iff_not, beq_eq_false_iff_ne, ne_eq]
          omega
        all_goals
          rintro rfl
          revert hrange
          decide
      refine ⟨c, cs, rfl, (hword c (h.2 c (List.mem_cons_self ..))).2.2.2, fun d hd => ?_⟩
      have hd' := hword d (h.2 d hd)
      exact ⟨hd'.1, hd'.2.1, hd'.2.2.1⟩

theorem head?_trim {t : List Char} (h : NoLeadingWs t) : (trim t).head? = t.head? := by
  rw [trim, trimStart_of_noLeadingWs h]
  cases t with
  | nil => rfl
  | cons c cs =>
      have hc : isWhitespace c = false := h c rfl
      have hne : trimEnd (c :: cs) ≠ [] := by
        intro hnil
        have := List.rdropWhile_eq_nil_iff.1 hnil c (List.mem_cons_self ..)
        simp [hc] at this
      obtain ⟨u, hu⟩ := List.rdropWhile_prefix isWhitespace (c :: cs)
      rw [← trimEnd] at hu
      obtain ⟨d, ds, hd⟩ := List.exists_cons_of_ne_nil hne
      rw [hd] at hu ⊢
      simp only [List.cons_append, List.cons.injEq] at hu
      simp [hu.1]

/-- What an entry needs so that its rendering is read back: a variable name, and an inline comment
    as the parser yields it. -/
structure EnvEntry.Renderable (e : EnvEntry) : Prop where
  key : validKey e.key = true
  comment : ∀ c ∈ e.inlineComment, CommentText c

theorem renderEntry_head {e : EnvEntry} (h : validKey e.key = true) :
    ∃ c cs, renderEntry e = c :: cs ∧ isWhitespace c = false ∧ c ≠ '#' := by
  obtain ⟨c, cs, hk, hc, hall⟩ := validKey_chars h
  unfold renderEntry
  cases e.exported with
  | true => exact ⟨'e', _, rfl, by decide, by decide⟩
  | false => exact ⟨c, _, by rw [hk]; rfl, (hall c (by simp [hk])).1, hc⟩

theorem stripExport_renderEntry {e : EnvEntry} (h : validKey e.key = true) :
    stripExport (renderEntry e) = (e.exported,
      e.key ++ '=' :: (renderValue e.quoting e.value ++ renderComment e.inlineComment)) := by
  obtain ⟨c, cs, hk, -, hall⟩ := validKey_chars h
  have hsp : ' ' ∉ e.key := fun hm => by simpa [isWhitespace] using (hall _ hm).1
  cases hx : e.exported with
  | true =>
      have hstart : trimStart (e.key ++ '=' :: (renderValue e.quoting e.value
          ++ renderComment e.inlineComment)) = e.key ++ '=' :: (renderValue e.quoting e.value
          ++ renderComment e.inlineComment) := by
        rw [hk]
        exact trimStart_of_noLeadingWs (noLeadingWs_cons.2 (hall c (by simp [hk])).1)
      rw [stripExport, renderEntry, hx, if_pos rfl, List.append_assoc, stripPrefix_append]
      simp only [hstart]
  | false =>
      rw [stripExport, renderEntry, hx]
      simp only [Bool.false_eq_true, if_false, List.nil_append]
      rw [stripPrefix_append_none (d := ' ') _ (by decide) hsp (by decide)]

theorem parseEntry_renderEntry {e : EnvEntry} (h : e.Renderable) (n : Nat) :
    ∃ e', parseEntry (renderEntry e) n = .ok e' ∧ e'.key = e.key ∧ e'.value = e.value ∧
      e'.raw = renderEntry e := by
  obtain ⟨c, cs, hr, hws, -⟩ := renderEntry_head h.key
  have hstart : trimStart (renderEntry e) = renderEntry e := by
    rw [hr]
    exact trimStart_of_noLeadingWs (noLeadingWs_cons.2 hws)
  have heq : '=' ∉ e.key := by
    obtain ⟨_, _, -, -, hall⟩ := validKey_chars h.key
    exact fun hm => (hall _ hm).2.1 rfl
  have hend : trimEnd e.key = e.key := by
    obtain ⟨_, _, -, -, hall⟩ := validKey_chars h.key
    exact trimEnd_of_noTrailingWs fun d hd => (hall d (List.mem_of_mem_getLast? hd)).1
  obtain ⟨q, hq⟩ := parseValue_renderValue e.quoting e.value h.comment
  unfold parseEntry
  rw [hstart, stripExport_renderEntry h.key]
  simp only [parseAssignment, splitOnce_append heq, hend, h.key, if_true, hq]
  exact ⟨_, rfl, rfl, rfl, rfl⟩

/-- An entry line survives rendering: the same variable gets the same value. -/
theorem parseLine_renderEntry {e : EnvEntry} (h : e.Renderable) (n : Nat) :
    ∃ e', parseLine (renderEntry e) n = .entry e' ∧ e'.key = e.key ∧ e'.value = e.value ∧
      e'.raw = renderEntry e := by
  obtain ⟨c, cs, hr, hws, hc⟩ := renderEntry_head h.key
  have hhead : (trim (renderEntry e)).head? = some c := by
    rw [head?_trim (by rw [hr]; exact noLeadingWs_cons.2 hws), hr, List.head?_cons]
  obtain ⟨e', hp, hk, hv, hraw⟩ := parseEntry_renderEntry h n
  refine ⟨e', ?_, hk, hv, hraw⟩
  unfold parseLine
  split
  · rename_i ht
    simp [ht] at hhead
  · rename_i ht
    simp only [ht, List.head?_cons, Option.some.injEq] at hhead
    exact absurd hhead.symm hc
  · rw [hp]

/-! ## Parsed entries can be rendered -/

theorem parseTailComment_ok {tail : List Char} {comment : Option (List Char)}
    (h : parseTailComment (trim tail) = .ok comment) (hn : '\n' ∉ tail) :
    ∀ c ∈ comment, CommentText c := by
  intro c hc
  unfold parseTailComment at h
  split at h
  · simp only [Except.ok.injEq] at h
    simp [← h] at hc
  · rename_i _ cs ht
    simp only [Except.ok.injEq] at h
    rw [← h] at hc
    obtain rfl := Option.some.inj hc
    refine ⟨by rw [ht]; rfl, noTrailingWs_trimEnd _, fun hm => hn (mem_of_mem_trim hm)⟩
  · cases h

theorem findClosingDouble_subset {esc : Bool} {t a b : List Char}
    (h : findClosingDouble esc t = some (a, b)) : ∀ c ∈ b, c ∈ t := by
  induction t generalizing esc a with
  | nil => cases esc <;> simp [findClosingDouble] at h
  | cons d ds ih =>
      have hrest : ∀ {esc'}, (findClosingDouble esc' ds).map (fun r => (d :: r.1, r.2))
          = some (a, b) → ∀ c ∈ b, c ∈ d :: ds := by
        intro esc' hr c hc
        obtain ⟨⟨a', b'⟩, hr', hab⟩ := Option.map_eq_some_iff.1 hr
        simp only [Prod.mk.injEq] at hab
        obtain ⟨-, rfl⟩ := hab
        exact List.mem_cons_of_mem _ (ih hr' c hc)
      cases esc with
      | true => exact hrest h
      | false =>
          simp only [findClosingDouble] at h
          split at h
          · simp only [Option.some.injEq, Prod.mk.injEq] at h
            obtain ⟨-, rfl⟩ := h
            exact fun c hc => List.mem_cons_of_mem _ hc
          · exact hrest h

theorem parseValue_comment {t v : List Char} {q : Quoting} {comment : Option (List Char)}
    (h : parseValue t = .ok (v, q, comment)) (hn : '\n' ∉ t) : ∀ c ∈ comment, CommentText c := by
  have hn' : '\n' ∉ trimStart t := fun hm => hn (mem_of_mem_trimStart hm)
  unfold parseValue at h
  split at h
  · rename_i after hafter
    rw [hafter] at hn'
    split at h
    · cases h
    · rename_i value tail hsplit
      obtain ⟨hcut, -⟩ := splitOnce_eq_some hsplit
      cases hp : parseTailComment (trim tail) with
      | error r => simp [hp, Except.map] at h
      | ok c =>
          simp only [hp, Except.map, Except.ok.injEq, Prod.mk.injEq] at h
          obtain ⟨-, -, rfl⟩ := h
          exact parseTailComment_ok hp fun hm => hn' (by simp [hcut, hm])
  · rename_i after hafter
    rw [hafter] at hn'
    split at h
    · cases h
    · rename_i value tail hsplit
      cases hp : parseTailComment (trim tail) with
      | error r => simp [hp, Except.map] at h
      | ok c =>
          simp only [hp, Except.map, Except.ok.injEq, Prod.mk.injEq] at h
          obtain ⟨-, -, rfl⟩ := h
          exact parseTailComment_ok hp fun hm =>
            hn' (List.mem_cons_of_mem _ (findClosingDouble_subset hsplit _ hm))
  · simp only [Except.ok.injEq, Prod.mk.injEq] at h
    obtain ⟨-, -, hcut⟩ := h
    intro c hc
    rw [← hcut] at hc
    exact cutInlineComment_comment (v := (cutInlineComment true (trimStart t)).1)
      (Prod.ext rfl hc) hn'

theorem stripExport_subset (t : List Char) : ∀ c ∈ (stripExport t).2, c ∈ t := by
  have hstrip : ∀ {p u r : List Char}, stripPrefix p u = some r → ∀ c ∈ r, c ∈ u := by
    intro p
    induction p with
    | nil =>
        intro u r h c hc
        simp only [stripPrefix, Option.some.injEq] at h
        exact h ▸ hc
    | cons x p ih =>
        intro u r h c hc
        cases u with
        | nil => simp [stripPrefix] at h
        | cons y u =>
            simp only [stripPrefix] at h
            split at h
            · exact List.mem_cons_of_mem _ (ih h c hc)
            · cases h
  intro c hc
  unfold stripExport at hc
  split at hc
  · rename_i rest hrest
    exact hstrip hrest c (mem_of_mem_trimStart hc)
  · exact hc

/-- A parsed entry can be rendered, and its raw text is the parsed line. -/
theorem parseEntry_ok {line : List Char} {n : Nat} {e : EnvEntry} (h : parseEntry line n = .ok e)
    (hn : '\n' ∉ line) : e.Renderable ∧ e.raw = line := by
  have hn' : '\n' ∉ (stripExport (trimStart line)).2 :=
    fun hm => hn (mem_of_mem_trimStart (stripExport_subset _ _ hm))
  simp only [parseEntry, parseAssignment] at h
  split at h
  · cases h
  · rename_i before valuePart hsplit
    obtain ⟨hcut, -⟩ := splitOnce_eq_some hsplit
    split at h
    · rename_i hkey
      cases hv : parseValue valuePart with
      | error r => simp [hv, Except.map] at h
      | ok r =>
          obtain ⟨v, q, comment⟩ := r
          simp only [hv, Except.map, Except.ok.injEq] at h
          subst h
          exact ⟨⟨hkey, parseValue_comment hv fun hm => hn' (by simp [hcut, hm])⟩, rfl⟩
    · cases h

/-! ## A carriage return at the end of a line -/

theorem trimStart_append_cr (t : List Char) :
    trimStart (t ++ ['\r']) = trimStart t ++ ['\r'] ∨
      trimStart t = [] ∧ trimStart (t ++ ['\r']) = [] := by
  unfold trimStart
  rw [List.dropWhile_append]
  split
  · rename_i h
    exact .inr ⟨by simpa using h, by decide⟩
  · exact .inl rfl

theorem trim_append_cr (t : List Char) : trim (t ++ ['\r']) = trim t :=
  trim_append_of_ws fun _ => isWhitespace_of_mem_cr

theorem parseValue_append_cr (t : List Char) : parseValue (t ++ ['\r']) = parseValue t := by
  rcases trimStart_append_cr t with hts | ⟨hnil, hnil'⟩
  · unfold parseValue
    rw [hts]
    cases ht : trimStart t with
    | nil => simp [cutInlineComment, trim, trimStart, trimEnd, isWhitespace]
    | cons c cs =>
        by_cases hs : c = '\''
        · subst hs
          simp only [List.cons_append]
          rw [splitOnce_append_right (by decide)]
          cases splitOnce '\'' cs with
          | none => rfl
          | some r => simp [trim_append_cr]
        · by_cases hd : c = '"'
          · subst hd
            simp only [List.cons_append]
            rw [findClosingDouble_append_cr]
            cases findClosingDouble false cs with
            | none => rfl
            | some r => simp [trim_append_cr]
          · obtain ⟨h2, h1⟩ := cutInlineComment_append_cr true (c :: cs)
            simp only [List.cons_append] at h1 h2
            simp [hs, hd, h1, h2]
  · unfold parseValue
    rw [hnil, hnil']

theorem parseAssignment_append_cr (x : Bool) (u t : List Char) (n n' : Nat) :
    parseAssignment x (u ++ ['\r']) (t ++ ['\r']) n' = (parseAssignment x u t n).map
      fun (e : EnvEntry) => { e with raw := t ++ ['\r'], line := n' } := by
  unfold parseAssignment
  rw [splitOnce_append_right (by decide)]
  cases splitOnce '=' u with
  | none => rfl
  | some r =>
      simp only [Option.map_some]
      split
      · rw [parseValue_append_cr]
        cases parseValue r.2 <;> rfl
      · rfl

/-- The entry parsed from a line with one more carriage return differs only in its raw text. -/
theorem parseEntry_append_cr (t : List Char) (n n' : Nat) :
    parseEntry (t ++ ['\r']) n'
      = (parseEntry t n).map fun (e : EnvEntry) => { e with raw := t ++ ['\r'], line := n' } := by
  have hstrip : ∀ u, (stripExport (u ++ ['\r'])).1 = (stripExport u).1 ∧
      ((stripExport (u ++ ['\r'])).2 = (stripExport u).2 ++ ['\r'] ∨
        (stripExport u).2 = [] ∧ (stripExport (u ++ ['\r'])).2 = []) := by
    intro u
    unfold stripExport
    rw [stripPrefix_append_singleton (by decide)]
    cases stripPrefix "export ".toList u with
    | none => exact ⟨rfl, .inl rfl⟩
    | some rest => exact ⟨rfl, trimStart_append_cr rest⟩
  unfold parseEntry
  rcases trimStart_append_cr t with hts | ⟨hnil, hnil'⟩
  · rw [hts]
    obtain ⟨h1, h2 | ⟨h2, h2'⟩⟩ := hstrip (trimStart t)
    · simp only [h1, h2]
      exact parseAssignment_append_cr _ _ t n n'
    · simp only [h1, h2, h2']
      rfl
  · rw [hnil, hnil']
    rfl

end Tethra.Core.EnvFile
