import Tethra.Core.EnvContent

set_option autoImplicit false

/-! # Unedited and edited documents through a file

A file whose line endings are uniform is rendered as it was, unless a carriage return without a line feed ends it
(`render_parse_iff`). A value set in a document is read back from its file, and every other variable keeps its
values (`set_reparse`). -/

namespace Tethra.Core.EnvFile

open Text Slots

/-! ## Files as they were -/

/-- Every line feed has a carriage return before it, or none has. -/
def UniformEndings (content : List Char) : Prop :=
  countCrLf content = 0 ∨ countCrLf content = content.count '\n'

def endsCr (t : List Char) : Bool := t.getLast? == some '\r'

theorem countCrLf_of_not_mem {t : List Char} (h : '\n' ∉ t) : countCrLf t = 0 := by
  induction t with
  | nil => rfl
  | cons c t ih =>
      obtain ⟨-, ht⟩ := not_or.1 (List.mem_cons.not.1 h)
      have hhead : t.head? ≠ some '\n' := fun hc => ht (List.mem_of_mem_head? hc)
      simp [countCrLf, hhead, ih ht]

theorem countCrLf_line {t : List Char} (h : '\n' ∉ t) (rest : List Char) :
    countCrLf (t ++ '\n' :: rest) = (if endsCr t then 1 else 0) + countCrLf rest := by
  induction t with
  | nil => simp [countCrLf, endsCr]
  | cons c t ih =>
      obtain ⟨-, ht⟩ := not_or.1 (List.mem_cons.not.1 h)
      rw [List.cons_append, countCrLf, ih ht]
      cases t with
      | nil => simp [endsCr]
      | cons d t =>
          have hd : d ≠ '\n' := fun hd => ht (by simp [hd])
          simp [endsCr, hd, List.getLast?_cons_cons]

section Cut

variable {init : List (List Char)} {last : List Char}

theorem countCrLf_of_cut (h : ∀ t ∈ init ++ [last], '\n' ∉ t) :
    countCrLf (init.flatMap (· ++ ['\n']) ++ last) = init.countP endsCr := by
  induction init with
  | nil => exact countCrLf_of_not_mem (h last (by simp))
  | cons i init ih =>
      have hrest := ih fun t ht => h t (List.mem_cons_of_mem _ ht)
      rw [List.flatMap_cons, List.append_assoc, List.append_assoc, List.singleton_append,
        countCrLf_line (h i (by simp)), hrest, List.countP_cons]
      exact Nat.add_comm ..

theorem count_lf_of_cut (h : ∀ t ∈ init ++ [last], '\n' ∉ t) :
    (init.flatMap (· ++ ['\n']) ++ last).count '\n' = init.length := by
  induction init with
  | nil => exact List.count_eq_zero.2 (h last (by simp))
  | cons i init ih =>
      have hrest := ih fun t ht => h t (List.mem_cons_of_mem _ ht)
      have hi : i.count '\n' = 0 := List.count_eq_zero.2 (h i (by simp))
      rw [List.flatMap_cons, List.append_assoc, List.append_assoc, List.count_append, hi,
        List.singleton_append, List.count_cons_self, hrest, List.length_cons, Nat.zero_add]

/-- A line keeps its ending when it is stripped and the document's is put behind it. -/
theorem stripCr_append_cr_of_cut (h : ∀ t ∈ init ++ [last], '\n' ∉ t)
    (huniform : UniformEndings (init.flatMap (· ++ ['\n']) ++ last)) {t : List Char} (ht : t ∈ init) :
    stripCr t ++ (dominantNewline (init.flatMap (· ++ ['\n']) ++ last)).cr = t := by
  rw [dominantNewline, countCrLf_of_cut h, count_lf_of_cut h]
  rw [UniformEndings, countCrLf_of_cut h, count_lf_of_cut h] at huniform
  rcases huniform with hnone | hall
  · have hplain : t.getLast? ≠ some '\r' := by
      have hzero := List.countP_eq_zero.1 hnone t ht
      simpa [endsCr] using hzero
    rw [stripCr_of_getLast?_ne hplain, hnone, if_neg (by simp), Newline.cr, List.append_nil]
  · have hcr : t.getLast? = some '\r' := by
      have hevery := List.countP_eq_length.1 hall t ht
      simpa [endsCr] using hevery
    have hpos : 0 < init.length := List.length_pos_of_mem ht
    rw [stripCr, if_pos hcr, hall, if_pos ⟨hpos, by omega⟩]
    exact List.dropLast_append_getLast? _ hcr

theorem raws_parse_of_cut (h : ∀ t ∈ init ++ [last], '\n' ∉ t) :
    (EnvDocument.parse (init.flatMap (· ++ ['\n']) ++ last)).lines.map EnvLine.raw
      = (init ++ if last = [] then [] else [last]).map stripCr := by
  simp only [EnvDocument.parse, fragments_of_cut h]
  apply List.ext_getElem
  · simp
  · intro i hi hi'
    simp only [List.getElem_map, List.getElem_mapIdx]
    exact raw_parseLine ..

theorem stripCr_eq_self_iff {t : List Char} : stripCr t = t ↔ t.getLast? ≠ some '\r' := by
  constructor
  · intro h hcr
    have hlen := congrArg List.length h
    have hne : t ≠ [] := by
      rintro rfl
      cases hcr
    rw [stripCr, if_pos hcr, List.length_dropLast] at hlen
    have := List.length_pos_iff.2 hne
    omega
  · exact stripCr_of_getLast?_ne

theorem render_parse_of_cut (h : ∀ t ∈ init ++ [last], '\n' ∉ t)
    (huniform : UniformEndings (init.flatMap (· ++ ['\n']) ++ last)) :
    (EnvDocument.parse (init.flatMap (· ++ ['\n']) ++ last)).render
      = init.flatMap (· ++ ['\n']) ++ stripCr last := by
  have hinit : (init.map stripCr).map
      (· ++ (dominantNewline (init.flatMap (· ++ ['\n']) ++ last)).cr) = init := by
    rw [List.map_map]
    exact (List.map_congr_left fun t ht => stripCr_append_cr_of_cut h huniform ht).trans (List.map_id _)
  have hnewline : (EnvDocument.parse (init.flatMap (· ++ ['\n']) ++ last)).newline
      = dominantNewline (init.flatMap (· ++ ['\n']) ++ last) := rfl
  rw [render_eq, EnvDocument.cut, raws_parse_of_cut h, trailingNewline_parse_of_cut h, hnewline]
  cases last with
  | nil =>
      rw [if_pos rfl, List.isEmpty_nil, if_pos rfl, List.append_nil init]
      dsimp only
      rw [hinit]
      rfl
  | cons c cs =>
      rw [if_neg (List.cons_ne_nil c cs), List.isEmpty_cons, if_neg Bool.false_ne_true, List.map_append,
        List.map_singleton]
      dsimp only
      rw [List.dropLast_concat, List.getLastD_concat, hinit]

end Cut

/-- With uniform line endings a file is rendered as it was, unless a carriage return ends it. -/
theorem render_parse_iff {content : List Char} (h : UniformEndings content) :
    (EnvDocument.parse content).render = content ↔ content.getLast? ≠ some '\r' := by
  obtain ⟨init, last, -, hno, rfl⟩ := exists_cut content
  rw [render_parse_of_cut hno h, List.append_cancel_left_eq, stripCr_eq_self_iff]
  cases last using List.reverseRecOn with
  | append_singleton last c => rw [← List.append_assoc, List.getLast?_concat, List.getLast?_concat]
  | nil =>
      cases init using List.reverseRecOn with
      | nil => simp
      | append_singleton init i => simp

theorem render_parse_iff_quoted :
    (EnvDocument.parse "export A='x' # y\r\n\r\nB=\"".toList).render = "export A='x' # y\r\n\r\nB=\"".toList
      ↔ "export A='x' # y\r\n\r\nB=\"".toList.getLast? ≠ some '\r' :=
  render_parse_iff (.inr (by decide))

/-- The carriage return at the end of a file is lost. -/
theorem last_cr_lost :
    UniformEndings "A=1\r".toList ∧ (EnvDocument.parse "A=1\r".toList).render ≠ "A=1\r".toList :=
  ⟨.inl (by decide), by decide⟩

/-! ## Values that were set -/

/-- `EnvDocument::remove`. -/
def EnvDocument.remove (doc : EnvDocument) (key : List Char) : EnvDocument :=
  { doc with lines := doc.lines.filter fun l => !l.isEntryFor key }

/-- The documents: what a file is parsed to, and the edits of those. A marker is a comment of one line with the
ownership tag. -/
inductive EnvDocument.Built : EnvDocument → Prop
  | parse (content : List Char) : Built (.parse content)
  | set {d : EnvDocument} (h : Built d) {key : List Char} (hkey : validKey key = true) (value : List Char) :
      Built (d.set key value)
  | setEachOccurrence {d : EnvDocument} (h : Built d) (key : List Char) (values : List (List Char)) :
      Built (d.setEachOccurrence key values)
  | remove {d : EnvDocument} (h : Built d) (key : List Char) : Built (d.remove key)
  | setWithComment {d : EnvDocument} (h : Built d) {key : List Char} (hkey : validKey key = true)
      (value : List Char) {comment : List Char} (hmarker : MarkerLine (renderMarker comment)) :
      Built (d.setWithComment key value comment)
  | removeWithComment {d : EnvDocument} (h : Built d) (key : List Char) : Built (d.removeWithComment key)
  | removeMarkerAbove {d : EnvDocument} (h : Built d) (key : List Char) : Built (d.removeMarkerAbove key).1

theorem EnvDocument.Built.faithful {d : EnvDocument} (h : d.Built) : d.Faithful := by
  induction h with
  | parse content => exact faithful_parse content
  | set _ hkey value ih => exact ih.set hkey value
  | setEachOccurrence _ key values ih => exact ih.setEachOccurrence key values
  | remove _ key ih => exact fun l hl => ih l (List.mem_filter.1 hl).1
  | setWithComment _ hkey value hmarker ih => exact ih.setWithComment hkey value hmarker
  | removeWithComment _ key ih => exact ih.removeWithComment key
  | removeMarkerAbove _ key ih => exact ih.removeMarkerAbove key

theorem mem_keys_iff_values_ne_nil {d : EnvDocument} {key : List Char} :
    key ∈ d.entries.map EnvEntry.key ↔ d.values key ≠ [] := by
  rw [EnvDocument.values, ne_eq, List.map_eq_nil_iff, List.filter_eq_nil_iff, List.mem_map]
  push Not
  simp

theorem values_ne_nil_of_present {key : List Char} {s : List EnvSlot} (h : present key s = true) :
    Slots.values key s ≠ [] := by
  obtain ⟨a, v, b, rfl, -⟩ := exists_first h
  simp [values_append, values_cons_occ]

/-- Setting a variable sets each of its occurrences. -/
theorem values_of_set (d : EnvDocument) (key value : List Char) :
    (d.set key value).values key ≠ [] ∧ ∀ v ∈ (d.set key value).values key, v = value := by
  rw [← values_slots (W := fun _ => true) rfl, slots_set rfl, Slots.values_set_self]
  split
  · rename_i hpresent
    refine ⟨fun h => values_ne_nil_of_present hpresent (List.map_eq_nil_iff.1 h), fun v hv => ?_⟩
    obtain ⟨-, -, rfl⟩ := List.mem_map.1 hv
    rfl
  · exact ⟨by simp, fun v hv => List.mem_singleton.1 hv⟩

theorem values_set_other (d : EnvDocument) {key other : List Char} (hother : other ≠ key) (value : List Char) :
    (d.set key value).values other = d.values other := by
  rw [← values_slots (W := fun _ => true) rfl, ← values_slots (W := fun _ => true) rfl, slots_set rfl,
    Slots.values_set_ne hother]

/-- A value that was set is what the file gives for the variable; the other variables keep their values, and
there is no new one. -/
theorem set_reparse {d : EnvDocument} (h : d.Built) {key : List Char} (hkey : validKey key = true)
    (value : List Char) :
    let read := EnvDocument.parse (d.set key value).render
    (read.get key).map EnvEntry.value = some value ∧ (∀ v ∈ read.values key, v = value) ∧
      (∀ other, other ≠ key → read.values other = d.values other) ∧
      ∀ k ∈ read.entries.map EnvEntry.key, k = key ∨ k ∈ d.entries.map EnvEntry.key := by
  intro read
  have hread : ∀ k, read.values k = (d.set key value).values k := values_parse_render (h.faithful.set hkey value)
  have hothers : ∀ other, other ≠ key → read.values other = d.values other :=
    fun other hother => (hread other).trans (values_set_other d hother value)
  obtain ⟨hne, hall⟩ := values_of_set d key value
  rw [← hread] at hne hall
  refine ⟨?_, hall, hothers, ?_⟩
  · rw [get_value, List.getLast?_eq_some_getLast hne, hall _ (List.getLast_mem hne)]
  · intro k hk
    by_cases hkk : k = key
    · exact .inl hkk
    · rw [mem_keys_iff_values_ne_nil, hothers k hkk] at hk
      exact .inr (mem_keys_iff_values_ne_nil.2 hk)

theorem set_reparse_hostile :
    let d := EnvDocument.parse "KEY='old' # note\nB=1".toList
    let value := "a\n'B=2' \\\"# $x ".toList
    let read := EnvDocument.parse (d.set "KEY".toList value).render
    (read.get "KEY".toList).map EnvEntry.value = some value ∧ (∀ v ∈ read.values "KEY".toList, v = value) ∧
      (∀ other, other ≠ "KEY".toList → read.values other = d.values other) ∧
      ∀ k ∈ read.entries.map EnvEntry.key, k = "KEY".toList ∨ k ∈ d.entries.map EnvEntry.key :=
  set_reparse (.parse _) (by decide) _

end Tethra.Core.EnvFile
