import Tethra.Core.EnvSlots

set_option autoImplicit false

/-! # The slots of a file's content

`contentLines` cuts a content into its lines, `contentSlots` reads each as a slot. Rendering a
faithful document gives a content with the document's slots (`contentSlots_render`), and a content
read back parses to a document with the same slots, up to an open last line that is empty
(`reparse`). -/

namespace Tethra.Core.EnvFile

open Text Slots

/-! ## Lines -/

/-- The lines of a content, without their endings. -/
def contentLines (content : List Char) : List (List Char) :=
  let pieces := (content.splitOn '\n').map stripCrs
  if pieces.getLast? = some [] then pieces.dropLast else pieces

/-- The slot of a line of a content. -/
def lineSlot (W : List Char → Bool) (t : List Char) : EnvSlot := (parseLine t 0).slot W

def contentSlots (W : List Char → Bool) (content : List Char) : List EnvSlot :=
  (contentLines content).map (lineSlot W)

/-- The lines that assign none of the variables in `W`, in order. -/
def otherLines (W : List Char → Bool) (content : List Char) : List (List Char) :=
  (contentLines content).filter fun t => !((parseLine t 0).asEntry.any fun e => W e.key)

/-- Drop an empty slot that ends the list. -/
def dropBlank (s : List EnvSlot) : List EnvSlot :=
  if s.getLast? = some (.other []) then s.dropLast else s

/-- The slots that a document shows in its file: an open last line that is empty is none. -/
def EnvDocument.fileSlots (W : List Char → Bool) (d : EnvDocument) : List EnvSlot :=
  if d.trailingNewline then d.slots W else dropBlank (d.slots W)

theorem dropBlank_append_blank (s : List EnvSlot) : dropBlank (s ++ [.other []]) = s := by
  simp [dropBlank]

theorem dropBlank_append_of_ne {l : EnvSlot} (h : l ≠ .other []) (s : List EnvSlot) :
    dropBlank (s ++ [l]) = s ++ [l] := by
  simp [dropBlank, h]

theorem lineSlot_nil (W : List Char → Bool) : lineSlot W [] = .other [] := rfl

theorem lineSlot_eq (W : List Char → Bool) (t : List Char) :
    lineSlot W t = .other (stripCrs t) ∨ ∃ k v, lineSlot W t = .occ k v := by
  unfold lineSlot
  have hraw := raw_parseLine t 0
  cases hl : parseLine t 0 with
  | entry e =>
      rw [hl, EnvLine.raw] at hraw
      by_cases hk : W e.key = true
      · exact .inr ⟨e.key, e.value, by simp [EnvLine.slot, hk]⟩
      · exact .inl (by simp [EnvLine.slot, hk, hraw])
  | blank raw =>
      rw [hl] at hraw
      exact .inl (by rw [← hraw]; rfl)
  | comment raw =>
      rw [hl] at hraw
      exact .inl (by rw [← hraw]; rfl)
  | malformed raw n r =>
      rw [hl] at hraw
      exact .inl (by rw [← hraw]; rfl)

theorem lineSlot_eq_blank {W : List Char → Bool} {t : List Char} (h : lineSlot W t = .other []) :
    stripCrs t = [] := by
  rcases lineSlot_eq W t with hs | ⟨k, v, hs⟩
  · rw [h] at hs
    simpa using hs.symm
  · rw [h] at hs
    cases hs

/-! ## Cutting a content at its line feeds -/

/-- A content is a list of lines that a line feed ends, and an open last line, which may be empty. -/
theorem exists_cut (content : List Char) :
    ∃ init last, content.splitOn '\n' = init ++ [last] ∧
      (∀ t ∈ init ++ [last], '\n' ∉ t) ∧
      content = init.flatMap (· ++ ['\n']) ++ last := by
  induction content with
  | nil => exact ⟨[], [], by simp, by simp, rfl⟩
  | cons c cs ih =>
      obtain ⟨init, last, hcut, hno, heq⟩ := ih
      rw [List.splitOn_cons_eq_if_modifyHead]
      by_cases hc : c = '\n'
      · refine ⟨[] :: init, last, by simp [hc, hcut], ?_, by simp [hc, heq]⟩
        intro t ht
        rcases List.mem_cons.1 ht with rfl | ht
        · simp
        · exact hno t ht
      · have hbeq : (c == '\n') = false := by simpa using hc
        rw [hbeq, hcut]
        cases init with
        | nil =>
            refine ⟨[], c :: last, rfl, ?_, by simp [heq]⟩
            intro t ht
            obtain rfl : t = c :: last := by simpa using ht
            simpa [Ne.symm hc] using hno last (by simp)
        | cons i init =>
            refine ⟨(c :: i) :: init, last, rfl, ?_, by simp [heq]⟩
            intro t ht
            rcases List.mem_cons.1 ht with rfl | ht
            · simpa [Ne.symm hc] using hno i (by simp)
            · exact hno t (List.mem_cons_of_mem _ ht)

theorem ends_iff (init : List (List Char)) {last : List Char} (h : '\n' ∉ last) :
    (let c := init.flatMap (· ++ ['\n']) ++ last
     c.isEmpty || c.getLast? == some '\n') = last.isEmpty := by
  cases last using List.reverseRecOn with
  | append_singleton last d =>
      have hd : d ≠ '\n' := fun hd => h (by simp [hd])
      have hbeq : (d == '\n') = false := by simpa using hd
      have hne : ∀ a : List Char, (a ++ (last ++ [d])).isEmpty = false := by simp
      simp only
      rw [hne, ← List.append_assoc, List.getLast?_concat, ← List.nil_append (last ++ [d]), hne]
      simpa using hd
  | nil =>
      cases init using List.reverseRecOn with
      | nil => rfl
      | append_singleton init i => simp

theorem splitOn_eq_of_cut {init : List (List Char)} {last : List Char}
    (h : ∀ t ∈ init ++ [last], '\n' ∉ t) :
    (init.flatMap (· ++ ['\n']) ++ last).splitOn '\n' = init ++ [last] := by
  induction init with
  | nil => exact List.splitOn_eq_singleton (h last (by simp))
  | cons i init ih =>
      have hrest := ih fun t ht => h t (List.mem_cons_of_mem _ ht)
      rw [List.flatMap_cons, List.append_assoc, List.append_assoc, List.singleton_append,
        List.splitOn_append_cons_self_of_not_mem (h i (by simp)), hrest]
      rfl

section Cut

variable {init : List (List Char)} {last : List Char}

theorem contentLines_of_cut (h : ∀ t ∈ init ++ [last], '\n' ∉ t) :
    contentLines (init.flatMap (· ++ ['\n']) ++ last)
      = init.map stripCrs ++ if stripCrs last = [] then [] else [stripCrs last] := by
  rw [contentLines, splitOn_eq_of_cut h]
  simp only [List.map_append, List.map_cons, List.map_nil, List.getLast?_concat,
    Option.some.injEq]
  split
  · rw [List.dropLast_concat, List.append_nil]
  · rfl

theorem fragments_of_cut (h : ∀ t ∈ init ++ [last], '\n' ∉ t) :
    fragments (init.flatMap (· ++ ['\n']) ++ last)
      = init ++ if last = [] then [] else [last] := by
  have hends := ends_iff init (h last (by simp))
  simp only at hends
  rw [fragments, splitOn_eq_of_cut h]
  simp only [hends, List.getLast?_concat]
  cases last with
  | nil => simp
  | cons c cs => simp

theorem slots_parse_of_cut (W : List Char → Bool) (h : ∀ t ∈ init ++ [last], '\n' ∉ t) :
    (EnvDocument.parse (init.flatMap (· ++ ['\n']) ++ last)).slots W
      = (init ++ if last = [] then [] else [last]).map fun t => lineSlot W (stripCrs t) := by
  simp only [EnvDocument.slots, EnvDocument.parse, fragments_of_cut h]
  apply List.ext_getElem
  · simp
  · intro i hi hi'
    simp only [List.getElem_map, List.getElem_mapIdx]
    rw [lineSlot, (slot_parseLine_stripCrs W _ _).1, stripCrs_stripCr]

theorem trailingNewline_parse_of_cut (h : ∀ t ∈ init ++ [last], '\n' ∉ t) :
    (EnvDocument.parse (init.flatMap (· ++ ['\n']) ++ last)).trailingNewline = last.isEmpty :=
  ends_iff init (h last (by simp))

end Cut

theorem faithful_parse (content : List Char) : (EnvDocument.parse content).Faithful := by
  obtain ⟨init, last, -, hno, rfl⟩ := exists_cut content
  have hfrag : ∀ t ∈ init ++ (if last = [] then [] else [last]), '\n' ∉ t := by
    intro t ht
    refine hno t ?_
    rcases List.mem_append.1 ht with ht | ht
    · exact List.mem_append_left _ ht
    · split at ht
      · cases ht
      · exact List.mem_append_right _ ht
  intro l hl
  simp only [EnvDocument.parse, fragments_of_cut hno, List.mem_mapIdx] at hl
  obtain ⟨i, hi, rfl⟩ := hl
  exact faithful_parseLine (not_mem_stripCr (hfrag _ (List.getElem_mem hi))) _

/-- A content without lines is empty. -/
theorem trailingNewline_of_lines_nil {content : List Char}
    (h : (EnvDocument.parse content).lines = []) :
    (EnvDocument.parse content).trailingNewline = true := by
  obtain ⟨init, last, -, hno, rfl⟩ := exists_cut content
  have hslots := slots_parse_of_cut (fun _ => true) hno
  rw [EnvDocument.slots, h] at hslots
  rw [trailingNewline_parse_of_cut hno]
  cases last with
  | nil => rfl
  | cons c cs => simp at hslots

/-- Parsing shows the content's slots. -/
theorem fileSlots_parse (W : List Char → Bool) (content : List Char) :
    (EnvDocument.parse content).fileSlots W = contentSlots W content := by
  obtain ⟨init, last, -, hno, rfl⟩ := exists_cut content
  rw [EnvDocument.fileSlots, trailingNewline_parse_of_cut hno, slots_parse_of_cut W hno,
    contentSlots, contentLines_of_cut hno]
  cases last with
  | nil => simp
  | cons c cs =>
      simp only [List.isEmpty_cons, Bool.false_eq_true, if_false, reduceCtorEq, List.map_append,
        List.map_map, List.map_cons, List.map_nil]
      split
      · rename_i hblank
        rw [hblank, lineSlot_nil, dropBlank_append_blank]
        simp [Function.comp_def]
      · rename_i hne
        rw [dropBlank_append_of_ne fun h => hne (by
          have := lineSlot_eq_blank h
          rwa [stripCrs_stripCrs] at this)]
        simp [Function.comp_def]

/-! ## Rendering -/

/-- What a line ending adds to a line, besides its line feed. -/
def Newline.cr : Newline → List Char
  | .lf => []
  | .crLf => ['\r']

theorem Newline.asStr_eq (nl : Newline) : nl.asStr = nl.cr ++ ['\n'] := by
  cases nl <;> rfl

/-- The lines of the rendered text that a line feed ends, and the open last line. -/
def EnvDocument.cut (d : EnvDocument) : List (List Char) × List Char :=
  let raws := d.lines.map EnvLine.raw
  if d.trailingNewline then (raws, []) else (raws.dropLast, raws.getLastD [])

theorem intercalate_concat (sep : List Char) (init : List (List Char)) (last : List Char) :
    sep.intercalate (init ++ [last]) = init.flatMap (· ++ sep) ++ last := by
  induction init with
  | nil => simp
  | cons i init ih =>
      rw [List.cons_append, List.intercalate_cons_of_ne_nil (by simp), ih]
      simp

theorem render_eq (d : EnvDocument) :
    d.render = (d.cut.1.map (· ++ d.newline.cr)).flatMap (· ++ ['\n']) ++ d.cut.2 := by
  have hflat : ∀ ts : List (List Char), (ts.map (· ++ d.newline.cr)).flatMap (· ++ ['\n'])
      = ts.flatMap (· ++ d.newline.asStr) := by
    intro ts
    simp [List.flatMap_map, Newline.asStr_eq, List.append_assoc]
  rw [hflat]
  unfold EnvDocument.render EnvDocument.cut
  cases d.lines using List.reverseRecOn with
  | nil => cases d.trailingNewline <;> simp
  | append_singleton ls l =>
      rw [List.map_append, List.map_cons, List.map_nil, intercalate_concat]
      cases d.trailingNewline <;> simp

theorem EnvDocument.Faithful.newline_not_mem {d : EnvDocument} (h : d.Faithful) :
    ∀ t ∈ d.cut.1.map (· ++ d.newline.cr) ++ [d.cut.2], '\n' ∉ t := by
  have hraw : ∀ t ∈ d.lines.map EnvLine.raw, '\n' ∉ t := by
    intro t ht
    obtain ⟨l, hl, rfl⟩ := List.mem_map.1 ht
    exact (h l hl).noNewline
  have hcr : '\n' ∉ d.newline.cr := by cases d.newline <;> decide
  have hinit : ∀ t ∈ d.cut.1, '\n' ∉ t := by
    intro t ht
    unfold EnvDocument.cut at ht
    split at ht
    · exact hraw t ht
    · exact hraw t (List.mem_of_mem_dropLast ht)
  have hlast : '\n' ∉ d.cut.2 := by
    unfold EnvDocument.cut
    split
    · simp
    · cases hg : (d.lines.map EnvLine.raw).getLast? with
      | none => simp [List.getLastD_eq_getLast?, hg]
      | some t =>
          have := hraw t (List.mem_of_mem_getLast? hg)
          simpa [List.getLastD_eq_getLast?, hg] using this
  intro t ht
  rcases List.mem_append.1 ht with ht | ht
  · obtain ⟨u, hu, rfl⟩ := List.mem_map.1 ht
    have := hinit u hu
    simp [this, hcr]
  · rw [List.mem_singleton.1 ht]
    exact hlast

theorem stripCrs_append_newline_cr (nl : Newline) (t : List Char) :
    stripCrs (t ++ nl.cr) = stripCrs t := by
  cases nl with
  | lf => simp [Newline.cr]
  | crLf => exact stripCrs_append_cr t

theorem EnvDocument.Faithful.slots_eq {d : EnvDocument} (h : d.Faithful)
    (W : List Char → Bool) :
    d.slots W = (d.lines.map EnvLine.raw).map fun t => lineSlot W (stripCrs t) := by
  rw [EnvDocument.slots, List.map_map]
  apply List.map_congr_left
  intro l hl
  exact (h l hl).slot W

/-- Rendering shows the document's slots. -/
theorem contentSlots_render (W : List Char → Bool) {d : EnvDocument} (h : d.Faithful) :
    contentSlots W d.render = d.fileSlots W := by
  rw [render_eq, contentSlots, contentLines_of_cut h.newline_not_mem, EnvDocument.fileSlots,
    h.slots_eq]
  unfold EnvDocument.cut
  cases d.trailingNewline with
  | true => simp [Function.comp_def, stripCrs_append_newline_cr]
  | false =>
      cases d.lines using List.reverseRecOn with
      | nil => rfl
      | append_singleton ls l =>
          simp only [Bool.false_eq_true, if_false, List.map_append, List.map_cons, List.map_nil,
            List.dropLast_concat, List.getLastD_concat, List.map_map, Function.comp_def,
            stripCrs_append_newline_cr]
          split
          · rename_i hblank
            rw [hblank, lineSlot_nil, dropBlank_append_blank]
            simp
          · rename_i hne
            rw [dropBlank_append_of_ne fun hs => hne (by
              have := lineSlot_eq_blank hs
              rwa [stripCrs_stripCrs] at this)]
            simp

/-- Reading a rendered document back gives its slots again, except that an open last line which is
    empty is gone, and its line feed now ends the text. -/
theorem reparse (W : List Char → Bool) {d : EnvDocument} (h : d.Faithful)
    (hclosed : d.lines = [] → d.trailingNewline = true) :
    let d' := EnvDocument.parse d.render
    (d'.slots W = d.slots W ∧ d'.trailingNewline = d.trailingNewline) ∨
      (d.slots W = d'.slots W ++ [.other []] ∧ d.trailingNewline = false ∧
        d'.trailingNewline = true) := by
  intro d'
  have hslots := slots_parse_of_cut W h.newline_not_mem
  have htrail := trailingNewline_parse_of_cut h.newline_not_mem
  rw [← render_eq] at hslots htrail
  show (EnvDocument.slots W (EnvDocument.parse d.render) = _ ∧ _) ∨ _
  rw [hslots, htrail, h.slots_eq]
  unfold EnvDocument.cut
  cases ht : d.trailingNewline with
  | true =>
      refine .inl ⟨?_, by simp⟩
      simp [Function.comp_def, stripCrs_append_newline_cr]
  | false =>
      cases hl : d.lines using List.reverseRecOn with
      | nil =>
          rw [hclosed hl] at ht
          cases ht
      | append_singleton ls l =>
          simp only [Bool.false_eq_true, if_false, List.map_append, List.map_cons, List.map_nil,
            List.dropLast_concat, List.getLastD_concat, List.map_map, Function.comp_def,
            stripCrs_append_newline_cr]
          cases hr : l.raw with
          | nil =>
              refine .inr ⟨?_, by simp⟩
              simp [lineSlot_nil]
          | cons c cs => exact .inl ⟨by simp, by simp⟩

/-- The slots a file shows, when the document behind it has the slots `s`. -/
def shown (trailingNewline : Bool) (s : List EnvSlot) : List EnvSlot :=
  if trailingNewline then s else dropBlank s

theorem fileSlots_eq (W : List Char → Bool) (d : EnvDocument) :
    d.fileSlots W = shown d.trailingNewline (d.slots W) := rfl

/-- Editing a file that was written and read back shows what editing the document itself would. -/
theorem shown_edit_reparse {W : List Char → Bool} {d : EnvDocument} (h : d.Faithful)
    (hclosed : d.lines = [] → d.trailingNewline = true) {R : List EnvSlot → List EnvSlot}
    (hblank : ∀ s, d.slots W = s ++ [.other []] → R (s ++ [.other []]) = R s ++ [.other []]) :
    shown (EnvDocument.parse d.render).trailingNewline (R ((EnvDocument.parse d.render).slots W))
      = shown d.trailingNewline (R (d.slots W)) := by
  rcases reparse W h hclosed with ⟨hsame, htrail⟩ | ⟨hopen, hd, hd'⟩
  · rw [hsame, htrail]
  · rw [hd', hd, hopen, hblank _ hopen]
    exact (dropBlank_append_blank _).symm

/-! ## What a content assigns -/

theorem values_dropBlank (key : List Char) (s : List EnvSlot) :
    Slots.values key (dropBlank s) = Slots.values key s := by
  cases s using List.reverseRecOn with
  | nil => rfl
  | append_singleton s l =>
      by_cases hl : l = .other []
      · rw [hl, dropBlank_append_blank, values_append]
        simp
      · rw [dropBlank_append_of_ne hl]

theorem markers_dropBlank (s : List EnvSlot) :
    markers isMarkerText (dropBlank s) = markers isMarkerText s := by
  cases s using List.reverseRecOn with
  | nil => rfl
  | append_singleton s l =>
      by_cases hl : l = .other []
      · have hblank : isMarkerText [] = false := rfl
        rw [hl, dropBlank_append_blank, markers_append, markers_cons_other, hblank]
        simp
      · rw [dropBlank_append_of_ne hl]

theorem values_fileSlots {W : List Char → Bool} {key : List Char} (hW : W key = true)
    (d : EnvDocument) : Slots.values key (d.fileSlots W) = d.values key := by
  unfold EnvDocument.fileSlots
  split
  · exact values_slots hW d
  · rw [values_dropBlank, values_slots hW]

theorem values_parse {W : List Char → Bool} {key : List Char} (hW : W key = true)
    (content : List Char) :
    (EnvDocument.parse content).values key = Slots.values key (contentSlots W content) := by
  rw [← fileSlots_parse, values_fileSlots hW]

/-- The values a file shows after it is rendered are those of the document. -/
theorem values_parse_render {d : EnvDocument} (h : d.Faithful) (key : List Char) :
    (EnvDocument.parse d.render).values key = d.values key := by
  rw [values_parse (W := fun _ => true) rfl, contentSlots_render _ h, values_fileSlots rfl]

/-- The value that a line gives to `key`. -/
def lineValue (key t : List Char) : Option (List Char) :=
  (parseLine t 0).asEntry.bind fun e => if e.key = key then some e.value else none

theorem values_map_lineSlot {W : List Char → Bool} {key : List Char} (hW : W key = true)
    (ts : List (List Char)) :
    Slots.values key (ts.map (lineSlot W)) = ts.filterMap (lineValue key) := by
  induction ts with
  | nil => rfl
  | cons t ts ih =>
      rw [List.map_cons, List.filterMap_cons, lineValue, lineSlot]
      cases parseLine t 0 with
      | entry e =>
          by_cases hk : e.key = key
          · simp [EnvLine.slot, EnvLine.asEntry, hk, hW, values_cons_occ, ih]
          · by_cases hWe : W e.key = true <;>
              simp [EnvLine.slot, EnvLine.asEntry, hk, hWe, values_cons_occ, ih]
      | blank raw => exact ih
      | comment raw => exact ih
      | malformed raw n r => exact ih

/-- The values of a variable outside `W` are determined by the lines that assign none in `W`. -/
theorem values_parse_other {W : List Char → Bool} {key : List Char} (hW : W key = false)
    (content : List Char) :
    (EnvDocument.parse content).values key
      = (otherLines W content).filterMap (lineValue key) := by
  rw [values_parse (W := fun k => k = key) (by simp), contentSlots, values_map_lineSlot (by simp),
    otherLines]
  induction contentLines content with
  | nil => rfl
  | cons t ts ih =>
      rw [List.filter_cons]
      split
      · rw [List.filterMap_cons, List.filterMap_cons, ih]
      · rename_i hin
        have hnone : lineValue key t = none := by
          unfold lineValue
          cases hl : parseLine t 0 with
          | entry e =>
              have hWe : W e.key = true := by simpa [hl, EnvLine.asEntry] using hin
              have hne : e.key ≠ key := by
                rintro rfl
                rw [hW] at hWe
                cases hWe
              simp [EnvLine.asEntry, hne]
          | blank raw => rfl
          | comment raw => rfl
          | malformed raw n r => rfl
        rw [List.filterMap_cons, hnone, ih]

theorem stripCrs_of_mem_contentLines {content t : List Char} (h : t ∈ contentLines content) :
    stripCrs t = t := by
  have hpieces : t ∈ (content.splitOn '\n').map stripCrs := by
    unfold contentLines at h
    simp only at h
    split at h
    · exact List.mem_of_mem_dropLast h
    · exact h
  obtain ⟨u, -, rfl⟩ := List.mem_map.1 hpieces
  exact stripCrs_stripCrs u

theorem others_contentSlots (W : List Char → Bool) (content : List Char) :
    others (contentSlots W content) = otherLines W content := by
  have hstrip : ∀ t ∈ contentLines content, stripCrs t = t :=
    fun t ht => stripCrs_of_mem_contentLines ht
  rw [contentSlots, otherLines]
  generalize contentLines content = ts at hstrip ⊢
  induction ts with
  | nil => rfl
  | cons t ts ih =>
      have ht : stripCrs t = t := hstrip t (List.mem_cons_self ..)
      have hraw := raw_parseLine t 0
      rw [List.map_cons, List.filter_cons, ← ih fun u hu => hstrip u (List.mem_cons_of_mem _ hu)]
      rw [show lineSlot W t = (parseLine t 0).slot W from rfl]
      cases hl : parseLine t 0 with
      | entry e =>
          rw [hl, EnvLine.raw] at hraw
          by_cases hk : W e.key = true
          · simp [EnvLine.slot, EnvLine.asEntry, hk]
          · simp [EnvLine.slot, EnvLine.asEntry, hk, hraw, ht]
      | blank raw =>
          rw [hl, EnvLine.raw] at hraw
          simp [EnvLine.slot, EnvLine.raw, EnvLine.asEntry, hraw, ht]
      | comment raw =>
          rw [hl, EnvLine.raw] at hraw
          simp [EnvLine.slot, EnvLine.raw, EnvLine.asEntry, hraw, ht]
      | malformed raw n r =>
          rw [hl, EnvLine.raw] at hraw
          simp [EnvLine.slot, EnvLine.raw, EnvLine.asEntry, hraw, ht]

/-- Two contents with the same slots assign the same values and have the same other lines. -/
theorem same_of_contentSlots {W : List Char → Bool} {c c' : List Char}
    (h : contentSlots W c = contentSlots W c') :
    (∀ key, (EnvDocument.parse c).values key = (EnvDocument.parse c').values key) ∧
      otherLines W c = otherLines W c' := by
  have hother : otherLines W c = otherLines W c' := by
    rw [← others_contentSlots, ← others_contentSlots, h]
  refine ⟨fun key => ?_, hother⟩
  cases hW : W key with
  | true => rw [values_parse hW, values_parse hW, h]
  | false => rw [values_parse_other hW, values_parse_other hW, hother]

end Tethra.Core.EnvFile
