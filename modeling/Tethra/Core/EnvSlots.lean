import Tethra.Core.EnvFileParse
import Tethra.Lib.SlotsConflict

set_option autoImplicit false

/-! # A `.env` text as slots

What an edit of a `.env` file is about is the list of its slots (`Slots.Slot`): the assignments of the
variables in question, and every other line as it stands. A line's text is taken without the carriage
returns before its line feed, which belong to the line ending, and an empty piece after the last line
feed is no line.

`contentSlots` reads the slots off a file's content, `EnvDocument.slots` off a parsed document. The
edits of the document are the edits of its slots (`slots_set`, `slots_setWithComment`, …), and
`contentSlots_render` and `reparse` carry this through rendering and parsing, so that facts about
slots are facts about files. -/

namespace Tethra.Core.EnvFile

open Text Slots

abbrev EnvSlot := Slot (List Char) (List Char) (List Char)

/-! ## The slots of a document -/

/-- The slot of a line, with respect to the variables in `W`. -/
def EnvLine.slot (W : List Char → Bool) : EnvLine → EnvSlot
  | .entry e => if W e.key then .occ e.key e.value else .other (stripCrs e.raw)
  | l => .other (stripCrs l.raw)

def EnvDocument.slots (W : List Char → Bool) (d : EnvDocument) : List EnvSlot :=
  d.lines.map (EnvLine.slot W)

def EnvLine.isComment : EnvLine → Bool
  | .comment _ => true
  | _ => false

/-- A line text that is an ownership marker. -/
def isMarkerText (t : List Char) : Bool := (parseLine t 0).isMarker

/-- A line that the rendered file shows as it is: parsing its text gives the same slot. -/
structure EnvLine.Faithful (l : EnvLine) : Prop where
  noNewline : '\n' ∉ l.raw
  slot : ∀ W, l.slot W = (parseLine (stripCrs l.raw) 0).slot W
  comment : l.isComment = (parseLine (stripCrs l.raw) 0).isComment
  renderable : ∀ e, l = .entry e → e.Renderable

/-! ### A parsed line is faithful -/

theorem stripCrs_stripCrs (t : List Char) : stripCrs (stripCrs t) = stripCrs t := by
  exact List.rdropWhile_idempotent _ t

theorem parseEntry_raw {t : List Char} {n : Nat} {e : EnvEntry} (h : parseEntry t n = .ok e) :
    e.raw = t := by
  simp only [parseEntry, parseAssignment] at h
  split at h
  · cases h
  · split at h
    · rename_i valuePart _ _
      cases hv : parseValue valuePart with
      | error r => simp [hv, Except.map] at h
      | ok r =>
          simp only [hv, Except.map, Except.ok.injEq] at h
          rw [← h]
    · cases h

theorem raw_parseLine (t : List Char) (n : Nat) : (parseLine t n).raw = t := by
  unfold parseLine
  split
  · rfl
  · rfl
  · cases h : parseEntry t n with
    | error r => rfl
    | ok e => exact parseEntry_raw h

theorem parseAssignment_line (x : Bool) (u t : List Char) (n n' : Nat) :
    parseAssignment x u t n'
      = (parseAssignment x u t n).map fun (e : EnvEntry) => { e with line := n' } := by
  unfold parseAssignment
  cases splitOnce '=' u with
  | none => rfl
  | some r =>
      simp only
      split
      · cases parseValue r.2 <;> rfl
      · rfl

theorem slot_parseLine_line (W : List Char → Bool) (t : List Char) (n n' : Nat) :
    (parseLine t n').slot W = (parseLine t n).slot W ∧
      (parseLine t n').isComment = (parseLine t n).isComment := by
  unfold parseLine
  split
  · exact ⟨rfl, rfl⟩
  · exact ⟨rfl, rfl⟩
  · have hline : parseEntry t n'
        = (parseEntry t n).map fun (e : EnvEntry) => { e with line := n' } :=
      parseAssignment_line _ _ t n n'
    rw [hline]
    cases parseEntry t n <;> exact ⟨rfl, rfl⟩

theorem slot_parseLine_append_cr (W : List Char → Bool) (t : List Char) (n : Nat) :
    (parseLine (t ++ ['\r']) n).slot W = (parseLine t n).slot W ∧
      (parseLine (t ++ ['\r']) n).isComment = (parseLine t n).isComment := by
  unfold parseLine
  rw [trim_append_cr]
  split
  · exact ⟨by simp [EnvLine.slot, EnvLine.raw], rfl⟩
  · exact ⟨by simp [EnvLine.slot, EnvLine.raw], rfl⟩
  · rw [parseEntry_append_cr t n n]
    cases h : parseEntry t n with
    | error r => exact ⟨by simp [Except.map, EnvLine.slot, EnvLine.raw], rfl⟩
    | ok e =>
        have hraw : e.raw = t := parseEntry_raw h
        exact ⟨by simp [Except.map, EnvLine.slot, hraw], rfl⟩

theorem slot_parseLine_stripCrs (W : List Char → Bool) (t : List Char) (n : Nat) :
    (parseLine t n).slot W = (parseLine (stripCrs t) 0).slot W ∧
      (parseLine t n).isComment = (parseLine (stripCrs t) 0).isComment := by
  induction t using List.reverseRecOn with
  | nil => exact slot_parseLine_line W [] 0 n
  | append_singleton t c ih =>
      by_cases hc : c = '\r'
      · subst hc
        rw [stripCrs_append_cr]
        have hcr := slot_parseLine_append_cr W t n
        exact ⟨hcr.1.trans ih.1, hcr.2.trans ih.2⟩
      · have hstrip : stripCrs (t ++ [c]) = t ++ [c] :=
          List.rdropWhile_concat_neg _ _ _ (by simpa using hc)
        rw [hstrip]
        exact slot_parseLine_line W (t ++ [c]) 0 n

theorem faithful_parseLine {t : List Char} (ht : '\n' ∉ t) (n : Nat) :
    (parseLine t n).Faithful where
  noNewline := by rwa [raw_parseLine]
  slot W := by rw [raw_parseLine, (slot_parseLine_stripCrs W t n).1]
  comment := by rw [raw_parseLine, (slot_parseLine_stripCrs (fun _ => true) t n).2]
  renderable e he := by
    unfold parseLine at he
    split at he
    · cases he
    · cases he
    · cases h : parseEntry t n with
      | error r =>
          rw [h] at he
          cases he
      | ok e' =>
          rw [h] at he
          obtain rfl : e' = e := by simpa using he
          exact (parseEntry_ok h ht).1

/-! ### Markers -/

theorem isMarker_eq (l : EnvLine) :
    l.isMarker = (l.isComment && decide (gatewayMarkerTag <:+: l.raw)) := by
  cases l <;> rfl

theorem cr_not_mem_tag : '\r' ∉ gatewayMarkerTag := by decide

theorem EnvLine.Faithful.isMarker {l : EnvLine} (h : l.Faithful) :
    l.isMarker = isMarkerText (stripCrs l.raw) := by
  rw [isMarkerText, isMarker_eq, isMarker_eq, h.comment, raw_parseLine]
  congr 1
  rw [decide_eq_decide]
  exact (isInfix_stripCrs cr_not_mem_tag l.raw).symm

theorem EnvLine.Faithful.slot_isMarker {l : EnvLine} (h : l.Faithful) (W : List Char → Bool) :
    (l.slot W).isMarker isMarkerText = l.isMarker := by
  cases l with
  | entry e =>
      simp only [EnvLine.slot]
      split
      · rfl
      · rw [isMarker_other]
        exact h.isMarker.symm
  | blank raw => exact h.isMarker.symm
  | comment raw => exact h.isMarker.symm
  | malformed raw n r => exact h.isMarker.symm

theorem slot_isFor {W : List Char → Bool} {key : List Char} (hW : W key = true) (l : EnvLine) :
    (l.slot W).isFor key = l.isEntryFor key := by
  cases l with
  | entry e =>
      simp only [EnvLine.slot, EnvLine.isEntryFor]
      split
      · rfl
      · rename_i hk
        have hne : e.key ≠ key := fun h => hk (h ▸ hW)
        simp [hne]
  | blank raw => rfl
  | comment raw => rfl
  | malformed raw n r => rfl

/-! ## Edits of the document are edits of its slots -/

def EnvDocument.Faithful (d : EnvDocument) : Prop := ∀ l ∈ d.lines, l.Faithful

section Edits

variable {W : List Char → Bool} {key : List Char}

theorem present_slots (hW : W key = true) (ls : List EnvLine) :
    present key (ls.map (EnvLine.slot W)) = ls.any (EnvLine.isEntryFor key) := by
  rw [present, List.any_map]
  congr 1
  funext l
  exact slot_isFor hW l

theorem before_slots (hW : W key = true) (ls : List EnvLine) :
    before key (ls.map (EnvLine.slot W)) = (linesBefore key ls).map (EnvLine.slot W) := by
  rw [before, linesBefore, List.takeWhile_map]
  congr 2
  funext l
  simp [slot_isFor hW l]

theorem after_slots (hW : W key = true) (ls : List EnvLine) :
    after key (ls.map (EnvLine.slot W)) = (linesFrom key ls).map (EnvLine.slot W) := by
  rw [after, linesFrom, List.dropWhile_map]
  congr 2
  funext l
  simp [slot_isFor hW l]

theorem values_slots (hW : W key = true) (d : EnvDocument) :
    Slots.values key (d.slots W) = d.values key := by
  unfold EnvDocument.values EnvDocument.entries EnvDocument.slots
  induction d.lines with
  | nil => rfl
  | cons l ls ih =>
      cases l with
      | entry e =>
          by_cases hk : e.key = key
          · simp [EnvLine.slot, EnvLine.asEntry, hk, hW, values_cons_occ, ih]
          · by_cases hWe : W e.key = true <;>
              simp [EnvLine.slot, EnvLine.asEntry, hk, hWe, values_cons_occ, ih]
      | blank raw => exact ih
      | comment raw => exact ih
      | malformed raw n r => exact ih

theorem get_value (d : EnvDocument) (key : List Char) :
    (d.get key).map EnvEntry.value = (d.values key).getLast? := by
  rw [EnvDocument.get, EnvDocument.values, List.getLast?_map]

theorem slot_setValueFor (hW : W key = true) (value : List Char) (l : EnvLine) :
    (l.setValueFor key value).slot W = (l.slot W).setFor key value := by
  cases l with
  | entry e =>
      by_cases hk : e.key = key
      · simp [EnvLine.setValueFor, EnvLine.slot, EnvEntry.setValue, Slot.setFor, hk, hW]
      · by_cases hWe : W e.key = true <;>
          simp [EnvLine.setValueFor, EnvLine.slot, Slot.setFor, hk, hWe]
  | blank raw => rfl
  | comment raw => rfl
  | malformed raw n r => rfl

theorem slots_set (hW : W key = true) (value : List Char) (d : EnvDocument) :
    (d.set key value).slots W = Slots.set key value (d.slots W) := by
  unfold EnvDocument.set EnvDocument.slots Slots.set
  rw [present_slots hW]
  split
  · simp only [List.map_map]
    apply List.map_congr_left
    intro l _
    exact slot_setValueFor hW value l
  · simp [EnvLine.slot, EnvEntry.new, hW]

theorem slots_assignOccurrences (hW : W key = true) (last : List Char) (values : List (List Char))
    (ls : List EnvLine) :
    (assignOccurrences key last values ls).map (EnvLine.slot W)
      = assign key last values (ls.map (EnvLine.slot W)) := by
  induction ls generalizing values with
  | nil => rfl
  | cons l ls ih =>
      rw [List.map_cons, assignOccurrences, assign, slot_isFor hW]
      split
      · rw [List.map_cons, slot_setValueFor hW, ih]
      · rw [List.map_cons, ih]

theorem slots_setEachOccurrence (hW : W key = true) (values : List (List Char))
    (d : EnvDocument) :
    (d.setEachOccurrence key values).slots W = assignAll key values (d.slots W) := by
  unfold EnvDocument.setEachOccurrence assignAll
  cases values.getLast? with
  | none => rfl
  | some last => exact slots_assignOccurrences hW last values d.lines

theorem slots_dropMarker {ls : List EnvLine} (h : ∀ l ∈ ls, l.Faithful) :
    (EnvFile.dropMarker ls).map (EnvLine.slot W)
      = Slots.dropMarker isMarkerText (ls.map (EnvLine.slot W)) := by
  unfold EnvFile.dropMarker Slots.dropMarker
  rw [List.getLast?_map]
  cases hl : ls.getLast? with
  | none => rfl
  | some l =>
      simp only [Option.map_some]
      rw [(h l (List.mem_of_mem_getLast? hl)).slot_isMarker]
      split
      · rw [List.map_dropLast]
      · rfl

theorem slots_removeLoop (hW : W key = true) {before ls : List EnvLine}
    (hb : ∀ l ∈ before, l.Faithful) (h : ∀ l ∈ ls, l.Faithful) :
    (removeLoop key before ls).map (EnvLine.slot W)
      = (ls.map (EnvLine.slot W)).foldl (removeStep isMarkerText key)
          (before.map (EnvLine.slot W)) := by
  induction ls generalizing before with
  | nil => rfl
  | cons l ls ih =>
      have hls : ∀ l ∈ ls, l.Faithful := fun l hl => h l (List.mem_cons_of_mem _ hl)
      rw [List.map_cons, List.foldl_cons, removeLoop, removeStep, slot_isFor hW]
      split
      · rw [← slots_dropMarker hb]
        refine ih (fun l hl => hb l ?_) hls
        unfold EnvFile.dropMarker at hl
        split at hl
        · split at hl
          · exact List.mem_of_mem_dropLast hl
          · exact hl
        · exact hl
      · rw [ih (fun l' hl' => ?_) hls]
        · simp
        · rcases List.mem_append.1 hl' with hl' | hl'
          · exact hb l' hl'
          · rw [List.mem_singleton.1 hl']
            exact h l (List.mem_cons_self ..)

theorem slots_removeWithComment (hW : W key = true) {d : EnvDocument} (h : d.Faithful) :
    (d.removeWithComment key).slots W = remove isMarkerText key (d.slots W) :=
  slots_removeLoop hW (fun _ hl => by cases hl) h

theorem slots_removeMarkerAbove (hW : W key = true) {d : EnvDocument} (h : d.Faithful) :
    (d.removeMarkerAbove key).1.slots W = strip isMarkerText key (d.slots W) := by
  have hbefore : ∀ l ∈ linesBefore key d.lines, l.Faithful :=
    fun l hl => h l ((List.takeWhile_prefix _).subset hl)
  unfold EnvDocument.removeMarkerAbove strip EnvDocument.slots
  rw [present_slots hW]
  split
  · simp only [List.map_append]
    rw [slots_dropMarker hbefore, before_slots hW, after_slots hW]
  · rfl

/-! ### Placing a marker -/

/-- What a rendered marker line looks like. -/
structure MarkerLine (m : List Char) : Prop where
  noNewline : '\n' ∉ m
  head : (trim m).head? = some '#'
  tag : gatewayMarkerTag <:+: trim m

theorem trim_isInfix (t : List Char) : trim t <:+: t :=
  (List.rdropWhile_prefix _ _).isInfix.trans (List.dropWhile_suffix _).isInfix

theorem trim_stripCrs (t : List Char) : trim (stripCrs t) = trim t := by
  obtain ⟨u, hu, hws⟩ := exists_eq_stripCrs_append t
  conv_rhs => rw [hu]
  rw [trim_append_of_ws hws]

theorem parseLine_of_head {t : List Char} (h : (trim t).head? = some '#') (n : Nat) :
    parseLine t n = .comment t := by
  cases ht : trim t with
  | nil => simp [ht] at h
  | cons c cs =>
      obtain rfl : c = '#' := by simpa [ht] using h
      unfold parseLine
      split
      · rename_i hnil
        simp [ht] at hnil
      · rfl
      · rename_i hne
        exact absurd ht (hne cs)

/-- A line that reads like the marker, up to surrounding whitespace, is a marker. -/
theorem MarkerLine.isMarkerText {m t : List Char} (hm : MarkerLine m) (h : trim t = trim m) :
    isMarkerText t = true := by
  have hhead : (trim t).head? = some '#' := by rw [h, hm.head]
  have htag : gatewayMarkerTag <:+: t := (h ▸ hm.tag).trans (trim_isInfix t)
  rw [EnvFile.isMarkerText, parseLine_of_head hhead]
  exact decide_eq_true htag

/-- The marking of slots that `set_with_comment` does with the line `m`. -/
def marking {m : List Char} (hm : MarkerLine m) : Marking (List Char) where
  isMarker := isMarkerText
  keeps t := trim t = trim m
  marker := stripCrs m
  isMarker_of_keeps t h := hm.isMarkerText (by simpa using h)
  isMarker_marker := hm.isMarkerText (trim_stripCrs m)

/-- Whether a line is a comment that reads like the marker `m`. -/
def EnvLine.keeps (m : List Char) : EnvLine → Bool
  | .comment raw => trim raw = trim m
  | _ => false

theorem placeMarker_eq (key m : List Char) (ls : List EnvLine) :
    placeMarker key m ls
      = if (linesBefore key ls).getLast?.any (EnvLine.keeps m) then ls
        else if (linesBefore key ls).getLast?.any EnvLine.isMarker then
          (linesBefore key ls).dropLast ++ .comment m :: linesFrom key ls
        else linesBefore key ls ++ .comment m :: linesFrom key ls := by
  unfold placeMarker
  cases hl : (linesBefore key ls).getLast? with
  | none => simp [hl]
  | some l => cases l <;> simp [hl, EnvLine.keeps, EnvLine.isMarker]

theorem EnvLine.Faithful.slot_keeps {l : EnvLine} (h : l.Faithful) {m : List Char}
    (hm : MarkerLine m) : (l.slot W).isMarker (marking hm).keeps = l.keeps m := by
  -- a line that is no comment does not read like a marker
  have hnot : l.isComment = false → (marking hm).keeps (stripCrs l.raw) = false := by
    intro hno
    by_contra hk
    have hmk : EnvFile.isMarkerText (stripCrs l.raw) = true :=
      (marking hm).isMarker_of_keeps _ (by simpa using hk)
    rw [← h.isMarker, isMarker_eq, hno] at hmk
    cases hmk
  cases l with
  | entry e =>
      simp only [EnvLine.slot]
      split
      · rfl
      · exact hnot rfl
  | blank raw => exact hnot rfl
  | malformed raw n r => exact hnot rfl
  | comment raw =>
      show decide (trim (stripCrs raw) = trim m) = decide (trim raw = trim m)
      rw [trim_stripCrs]

theorem markerAbove_slots (hW : W key = true) {mk : List Char → Bool} {p : EnvLine → Bool}
    {ls : List EnvLine} (h : ∀ l ∈ ls, (l.slot W).isMarker mk = p l) :
    markerAbove mk key (ls.map (EnvLine.slot W)) = (linesBefore key ls).getLast?.any p := by
  rw [markerAbove, before_slots hW, List.getLast?_map]
  cases hl : (linesBefore key ls).getLast? with
  | none => rfl
  | some l => exact h l ((List.takeWhile_prefix _).subset (List.mem_of_mem_getLast? hl))

theorem slots_placeMarker (hW : W key = true) {m : List Char} (hm : MarkerLine m)
    {ls : List EnvLine} (h : ∀ l ∈ ls, l.Faithful) :
    (placeMarker key m ls).map (EnvLine.slot W)
      = annotate (marking hm).isMarker (marking hm).keeps key (marking hm).marker
          (ls.map (EnvLine.slot W)) := by
  have hkeeps := markerAbove_slots hW fun l hl => (h l hl).slot_keeps (W := W) hm
  have hmarker : markerAbove (marking hm).isMarker key (ls.map (EnvLine.slot W)) = _ :=
    markerAbove_slots hW fun l hl => (h l hl).slot_isMarker W
  rw [placeMarker_eq, annotate, hkeeps, hmarker, before_slots hW, after_slots hW]
  split
  · rfl
  · split
    · rw [List.map_append, List.map_dropLast]
      rfl
    · rw [List.map_append]
      rfl

theorem slots_setWithComment (hW : W key = true) {comment : List Char}
    (hm : MarkerLine (renderMarker comment)) {d : EnvDocument} {value : List Char}
    (h : (d.set key value).Faithful) :
    (d.setWithComment key value comment).slots W
      = annotate (marking hm).isMarker (marking hm).keeps key (marking hm).marker
          (Slots.set key value (d.slots W)) := by
  rw [← slots_set hW]
  exact slots_placeMarker hW hm h

end Edits

/-! ## Edits keep a document faithful -/

theorem newline_not_mem_renderValue (q : Quoting) (v : List Char) :
    '\n' ∉ renderValue q v := by
  have hdouble : '\n' ∉ '"' :: encodeDouble v ++ ['"'] := by
    have hchar : ∀ c, '\n' ∉ encodeDoubleChar c := by
      intro c
      unfold encodeDoubleChar
      split
      · decide
      · split
        · decide
        · split
          · decide
          · split
            · decide
            · split
              · decide
              · rename_i hn _ _
                simpa using Ne.symm hn
    simp [encodeDouble, hchar]
  unfold renderValue
  split
  · split
    · rename_i hfit
      simp only [fitsSingle, Bool.and_eq_true, Bool.not_eq_true', List.any_eq_false] at hfit
      intro hm
      have hv : '\n' ∈ v := by simpa using hm
      exact hfit.2 _ hv (by decide)
    · exact hdouble
  · split
    · rename_i hfit
      intro hm
      have hws := (fitsBare_facts hfit).2.2.1 _ hm
      revert hws
      decide
    · exact hdouble
  · exact hdouble

theorem newline_not_mem_renderEntry {e : EnvEntry} (h : e.Renderable) :
    '\n' ∉ renderEntry e := by
  have hkey : '\n' ∉ e.key := by
    obtain ⟨_, _, -, -, hall⟩ := validKey_chars h.key
    exact fun hm => (hall _ hm).2.2 rfl
  have hexport : '\n' ∉ (if e.exported then "export ".toList else []) := by
    split <;> decide
  have hcomment : '\n' ∉ renderComment e.inlineComment := by
    cases hc : e.inlineComment with
    | none => simp [renderComment]
    | some c =>
        have := (h.comment c hc).2.2
        simpa [renderComment] using this
  have hvalue := newline_not_mem_renderValue e.quoting e.value
  unfold renderEntry
  simp only [List.mem_append, List.mem_cons, not_or]
  exact ⟨⟨hexport, hkey⟩, by decide, hvalue, hcomment⟩

theorem faithful_of_parse {l : EnvLine} (hn : '\n' ∉ l.raw)
    (hslot : ∀ W, (parseLine l.raw 0).slot W = l.slot W)
    (hcomment : (parseLine l.raw 0).isComment = l.isComment)
    (hrender : ∀ e, l = .entry e → e.Renderable) : l.Faithful where
  noNewline := hn
  slot W := by rw [← hslot, (slot_parseLine_stripCrs W l.raw 0).1]
  comment := by rw [← hcomment, (slot_parseLine_stripCrs (fun _ => true) l.raw 0).2]
  renderable := hrender

theorem faithful_entry {e : EnvEntry} (h : e.Renderable) (hraw : e.raw = renderEntry e) :
    (EnvLine.entry e).Faithful := by
  obtain ⟨e', hp, hk, hv, hr⟩ := parseLine_renderEntry h 0
  refine faithful_of_parse ?_ ?_ ?_ ?_
  · rw [EnvLine.raw, hraw]
    exact newline_not_mem_renderEntry h
  · intro W
    rw [EnvLine.raw, hraw, hp, EnvLine.slot, EnvLine.slot, hk, hv, hr, hraw]
  · rw [EnvLine.raw, hraw, hp]
    rfl
  · intro e₁ he
    obtain rfl : e = e₁ := by simpa using he
    exact h

theorem MarkerLine.faithful {m : List Char} (hm : MarkerLine m) : (EnvLine.comment m).Faithful := by
  refine faithful_of_parse hm.noNewline ?_ ?_ ?_
  · intro W
    rw [EnvLine.raw, parseLine_of_head hm.head]
  · rw [EnvLine.raw, parseLine_of_head hm.head]
  · intro e he
    cases he

theorem EnvLine.Faithful.setValueFor {l : EnvLine} (h : l.Faithful) (key value : List Char) :
    (l.setValueFor key value).Faithful := by
  cases l with
  | entry e =>
      unfold EnvLine.setValueFor
      simp only
      split
      · have hr := h.renderable e rfl
        exact faithful_entry ⟨hr.key, hr.comment⟩ rfl
      · exact h
  | blank raw => exact h
  | comment raw => exact h
  | malformed raw n r => exact h

theorem faithful_new {key : List Char} (hk : validKey key = true) (value : List Char) :
    (EnvLine.entry (EnvEntry.new key value)).Faithful :=
  faithful_entry ⟨hk, fun c hc => by cases hc⟩ rfl

theorem EnvDocument.Faithful.set {d : EnvDocument} (h : d.Faithful) {key : List Char}
    (hk : validKey key = true) (value : List Char) : (d.set key value).Faithful := by
  unfold EnvDocument.set
  split
  · intro l hl
    obtain ⟨l', hl', rfl⟩ := List.mem_map.1 hl
    exact (h l' hl').setValueFor key value
  · intro l hl
    rcases List.mem_append.1 hl with hl | hl
    · exact h l hl
    · rw [List.mem_singleton.1 hl]
      exact faithful_new hk value

/-- A key that occurs in a faithful document is a variable name. -/
theorem EnvDocument.Faithful.validKey {d : EnvDocument} (h : d.Faithful) {e : EnvEntry}
    (he : e ∈ d.entries) : validKey e.key = true := by
  obtain ⟨l, hl, hle⟩ := List.mem_filterMap.1 he
  cases l with
  | entry e' =>
      obtain rfl : e' = e := by simpa [EnvLine.asEntry] using hle
      exact ((h _ hl).renderable e' rfl).key
  | blank raw => cases hle
  | comment raw => cases hle
  | malformed raw n r => cases hle

theorem mem_placeMarker {key m : List Char} {ls : List EnvLine} {l : EnvLine}
    (h : l ∈ placeMarker key m ls) : l ∈ ls ∨ l = .comment m := by
  have hb : ∀ l ∈ linesBefore key ls, l ∈ ls := (List.takeWhile_prefix _).subset
  have ha : ∀ l ∈ linesFrom key ls, l ∈ ls := (List.dropWhile_suffix _).subset
  rw [placeMarker_eq] at h
  split at h
  · exact .inl h
  · split at h
    · simp only [List.mem_append, List.mem_cons] at h
      rcases h with h | h | h
      · exact .inl (hb l (List.mem_of_mem_dropLast h))
      · exact .inr h
      · exact .inl (ha l h)
    · simp only [List.mem_append, List.mem_cons] at h
      rcases h with h | h | h
      · exact .inl (hb l h)
      · exact .inr h
      · exact .inl (ha l h)

theorem EnvDocument.Faithful.setWithComment {d : EnvDocument} (h : d.Faithful) {key : List Char}
    (hk : EnvFile.validKey key = true) (value : List Char) {comment : List Char}
    (hm : MarkerLine (renderMarker comment)) : (d.setWithComment key value comment).Faithful := by
  intro l hl
  rcases mem_placeMarker hl with hl | rfl
  · exact h.set hk value l hl
  · exact hm.faithful

theorem EnvDocument.Faithful.setEachOccurrence {d : EnvDocument} (h : d.Faithful)
    (key : List Char) (values : List (List Char)) : (d.setEachOccurrence key values).Faithful := by
  have hassign : ∀ (last : List Char) (values : List (List Char)) (ls : List EnvLine),
      (∀ l ∈ ls, l.Faithful) → ∀ l ∈ assignOccurrences key last values ls, l.Faithful := by
    intro last values ls
    induction ls generalizing values with
    | nil => exact fun h => h
    | cons l ls ih =>
        intro h l' hl'
        have hls : ∀ l ∈ ls, l.Faithful := fun l hl => h l (List.mem_cons_of_mem _ hl)
        rw [assignOccurrences] at hl'
        split at hl'
        · rcases List.mem_cons.1 hl' with rfl | hl'
          · exact (h l (List.mem_cons_self ..)).setValueFor key _
          · exact ih values.tail hls l' hl'
        · rcases List.mem_cons.1 hl' with rfl | hl'
          · exact h l' (List.mem_cons_self ..)
          · exact ih values hls l' hl'
  unfold EnvDocument.setEachOccurrence
  split
  · exact h
  · exact hassign _ values d.lines h

theorem mem_dropMarker {ls : List EnvLine} {l : EnvLine} (h : l ∈ EnvFile.dropMarker ls) :
    l ∈ ls := by
  unfold EnvFile.dropMarker at h
  split at h
  · split at h
    · exact List.mem_of_mem_dropLast h
    · exact h
  · exact h

theorem mem_removeLoop {key : List Char} {before ls : List EnvLine} {l : EnvLine}
    (h : l ∈ removeLoop key before ls) : l ∈ before ∨ l ∈ ls := by
  induction ls generalizing before with
  | nil => exact .inl h
  | cons l' ls ih =>
      rw [removeLoop] at h
      split at h
      · rcases ih h with h | h
        · exact .inl (mem_dropMarker h)
        · exact .inr (List.mem_cons_of_mem _ h)
      · rcases ih h with h | h
        · rcases List.mem_append.1 h with h | h
          · exact .inl h
          · exact .inr (List.mem_singleton.1 h ▸ List.mem_cons_self ..)
        · exact .inr (List.mem_cons_of_mem _ h)

theorem EnvDocument.Faithful.removeWithComment {d : EnvDocument} (h : d.Faithful)
    (key : List Char) : (d.removeWithComment key).Faithful := by
  intro l hl
  rcases mem_removeLoop hl with hl | hl
  · cases hl
  · exact h l hl

theorem EnvDocument.Faithful.removeMarkerAbove {d : EnvDocument} (h : d.Faithful)
    (key : List Char) : (d.removeMarkerAbove key).1.Faithful := by
  unfold EnvDocument.removeMarkerAbove
  split
  · intro l hl
    rcases List.mem_append.1 hl with hl | hl
    · exact h l ((List.takeWhile_prefix _).subset (mem_dropMarker hl))
    · exact h l ((List.dropWhile_suffix _).subset hl)
  · exact h

end Tethra.Core.EnvFile
