import Tethra.Core.EnvRender

set_option autoImplicit false

/-! # Markers of one variable (`set_with_comment`, `remove_with_comment`)

Setting a variable with a marker twice is setting it once. The marker goes above the first occurrence of the
variable; markers that stand above later ones stay, and a marker comment that ends the document is taken for
that of a variable which is appended (`setWithComment_spec`). -/

namespace Tethra.Core.EnvFile

open Text

/-- How many occurrences of `key` have a marker directly above them. -/
def markersAbove (key : List Char) : List EnvLine → Nat
  | above :: l :: rest =>
      (if above.isMarker && l.isEntryFor key then 1 else 0) + markersAbove key (l :: rest)
  | _ => 0

/-- A comment of the user: one without the ownership tag. -/
def EnvLine.isUserComment (l : EnvLine) : Bool := l.isComment && !l.isMarker

def EnvDocument.userComments (d : EnvDocument) : List EnvLine := d.lines.filter EnvLine.isUserComment

section Lines

variable {key value m : List Char} {ls : List EnvLine}

theorem isEntryFor_setValueFor (l : EnvLine) : (l.setValueFor key value).isEntryFor key = l.isEntryFor key := by
  cases l with
  | entry e =>
      by_cases h : e.key = key
      · simp [EnvLine.setValueFor, EnvLine.isEntryFor, EnvEntry.setValue, h]
      · simp [EnvLine.setValueFor, h]
  | _ => rfl

theorem setValueFor_setValueFor (l : EnvLine) :
    (l.setValueFor key value).setValueFor key value = l.setValueFor key value := by
  cases l with
  | entry e =>
      by_cases h : e.key = key
      · -- Rendering does not read the text rendered before.
        simp only [EnvLine.setValueFor, EnvEntry.setValue, h, if_true]
        rfl
      · simp [EnvLine.setValueFor, h]
  | _ => rfl

theorem setValueFor_entry (key value : List Char) (e : EnvEntry) : ∃ e', (EnvLine.entry e).setValueFor key value = .entry e' := by
  simp only [EnvLine.setValueFor]
  split_ifs
  · exact ⟨_, rfl⟩
  · exact ⟨_, rfl⟩

theorem isUserComment_setValueFor (l : EnvLine) : (l.setValueFor key value).isUserComment = l.isUserComment := by
  cases l with
  | entry e =>
      obtain ⟨e', he⟩ := setValueFor_entry key value e
      rw [he]
      rfl
  | _ => rfl

/-- The lines are cut at the first occurrence of a variable that occurs. -/
theorem lines_cut (h : ls.any (EnvLine.isEntryFor key) = true) :
    ∃ l rest, l.isEntryFor key = true ∧ linesFrom key ls = l :: rest ∧ ls = linesBefore key ls ++ l :: rest := by
  have hcut : linesBefore key ls ++ linesFrom key ls = ls := List.takeWhile_append_dropWhile
  cases hfrom : linesFrom key ls with
  | nil =>
      obtain ⟨l, hl, hfor⟩ := List.any_eq_true.1 h
      rw [hfrom, List.append_nil] at hcut
      have hbefore : l ∈ linesBefore key ls := hcut.symm ▸ hl
      have hnot := List.mem_takeWhile_imp hbefore
      simp [hfor] at hnot
  | cons l rest =>
      have hnot := List.head?_dropWhile_not (fun l : EnvLine => !l.isEntryFor key) ls
      rw [linesFrom] at hfrom
      rw [hfrom] at hnot
      refine ⟨l, rest, by simpa using hnot, rfl, ?_⟩
      rw [linesFrom, hfrom] at hcut
      exact hcut.symm

theorem not_isEntryFor_of_mem_linesBefore {l : EnvLine} (h : l ∈ linesBefore key ls) : l.isEntryFor key = false := by
  simpa using List.mem_takeWhile_imp h

theorem linesBefore_append {a rest : List EnvLine} {l : EnvLine} (ha : ∀ x ∈ a, x.isEntryFor key = false)
    (hl : l.isEntryFor key = true) : linesBefore key (a ++ l :: rest) = a := by
  rw [linesBefore, List.takeWhile_append_of_pos fun x hx => by simp [ha x hx]]
  simp [hl]

theorem linesFrom_append {a rest : List EnvLine} {l : EnvLine} (ha : ∀ x ∈ a, x.isEntryFor key = false)
    (hl : l.isEntryFor key = true) : linesFrom key (a ++ l :: rest) = l :: rest := by
  rw [linesFrom, List.dropWhile_append_of_pos fun x hx => by simp [ha x hx]]
  simp [hl]

theorem setValueFor_of_not_isEntryFor {l : EnvLine} (h : l.isEntryFor key = false) : l.setValueFor key value = l := by
  cases l with
  | entry e =>
      have hne : e.key ≠ key := by simpa [EnvLine.isEntryFor] using h
      simp [EnvLine.setValueFor, hne]
  | _ => rfl

/-- A line that reads like the marker is one. -/
theorem isMarker_of_keeps (hm : MarkerLine m) {l : EnvLine} (h : l.keeps m = true) : l.isMarker = true := by
  cases l with
  | comment raw =>
      have htrim : trim raw = trim m := of_decide_eq_true h
      exact decide_eq_true ((htrim ▸ hm.tag).trans (trim_isInfix raw))
  | _ => cases h

theorem keeps_comment (m : List Char) : (EnvLine.comment m).keeps m = true := decide_eq_true rfl

/-! ## Where the marker goes -/

/-- Above the first occurrence there is the marker then, and nothing else has changed but a marker. -/
theorem placeMarker_cut (hm : MarkerLine m) {a : List EnvLine} (rest : List EnvLine) {l : EnvLine}
    (ha : ∀ x ∈ a, x.isEntryFor key = false) (hl : l.isEntryFor key = true) :
    ∃ b k, placeMarker key m (a ++ l :: rest) = b ++ k :: l :: rest ∧ k.keeps m = true ∧
      (∀ x ∈ b, x ∈ a) ∧ b.filter EnvLine.isUserComment = a.filter EnvLine.isUserComment := by
  rw [placeMarker_eq, linesBefore_append ha hl, linesFrom_append ha hl]
  cases a using List.reverseRecOn with
  | nil => exact ⟨[], .comment m, rfl, keeps_comment m, by simp, rfl⟩
  | append_singleton a x =>
      rw [List.getLast?_concat, Option.any_some, Option.any_some, List.dropLast_concat]
      have hmarker : x.isMarker = true → (a ++ [x]).filter EnvLine.isUserComment = a.filter EnvLine.isUserComment := by
        intro hx
        simp [EnvLine.isUserComment, hx]
      split_ifs with hkeeps hstale
      · exact ⟨a, x, by simp, hkeeps, by simp +contextual, (hmarker (isMarker_of_keeps hm hkeeps)).symm⟩
      · exact ⟨a, .comment m, rfl, keeps_comment m, by simp +contextual, (hmarker hstale).symm⟩
      · exact ⟨a ++ [x], .comment m, by simp, keeps_comment m, fun _ h => h, rfl⟩

theorem placeMarker_of_kept {b rest : List EnvLine} {k l : EnvLine} (hb : ∀ x ∈ b, x.isEntryFor key = false)
    (hk : k.keeps m = true) (hl : l.isEntryFor key = true) :
    placeMarker key m (b ++ k :: l :: rest) = b ++ k :: l :: rest := by
  have hnot : k.isEntryFor key = false := by
    cases k with
    | comment raw => rfl
    | _ => cases hk
  have hall : ∀ x ∈ b ++ [k], x.isEntryFor key = false := by
    intro x hx
    rcases List.mem_append.1 hx with hx | hx
    · exact hb x hx
    · exact List.mem_singleton.1 hx ▸ hnot
  have hsplit : b ++ k :: l :: rest = (b ++ [k]) ++ l :: rest := by simp
  rw [hsplit, placeMarker_eq, linesBefore_append hall hl, List.getLast?_concat, Option.any_some, hk, if_pos rfl]

/-! ## How many markers there are -/

theorem markersAbove_append {a rest : List EnvLine} {x l : EnvLine} (ha : ∀ y ∈ a, y.isEntryFor key = false)
    (hx : x.isEntryFor key = false) :
    markersAbove key (a ++ x :: l :: rest)
      = (if x.isMarker && l.isEntryFor key then 1 else 0) + markersAbove key (l :: rest) := by
  induction a with
  | nil => rfl
  | cons y a ih =>
      have hrest := ih fun z hz => ha z (List.mem_cons_of_mem _ hz)
      cases a with
      | nil =>
          rw [List.nil_append] at hrest
          rw [List.singleton_append, markersAbove, hrest, hx]
          simp
      | cons z a =>
          rw [List.cons_append] at hrest
          rw [List.cons_append, List.cons_append, markersAbove, hrest, ha z (by simp)]
          simp

theorem markersAbove_map_setValueFor (ls : List EnvLine) :
    markersAbove key (ls.map (EnvLine.setValueFor key value)) = markersAbove key ls := by
  have hmarker : ∀ l : EnvLine, (l.setValueFor key value).isMarker = l.isMarker := by
    intro l
    cases l with
    | entry e =>
        obtain ⟨e', he⟩ := setValueFor_entry key value e
        rw [he]
        rfl
    | _ => rfl
  induction ls with
  | nil => rfl
  | cons l ls ih =>
      cases ls with
      | nil => rfl
      | cons l' ls =>
          simp only [List.map_cons] at ih ⊢
          rw [markersAbove, ih, hmarker, isEntryFor_setValueFor, markersAbove]

end Lines

/-! ## Setting with a marker -/

section Edit

variable (d : EnvDocument) (key value : List Char)

/-- Behind a set the variable occurs; what is before its first occurrence is as it was. -/
theorem set_cut : ∃ a l rest, (d.set key value).lines = a ++ l :: rest ∧ (∀ x ∈ a, x.isEntryFor key = false) ∧
    l.isEntryFor key = true ∧ a = linesBefore key d.lines ∧
    markersAbove key (l :: rest) = markersAbove key (linesFrom key d.lines) ∧
    (l :: rest).filter EnvLine.isUserComment = (linesFrom key d.lines).filter EnvLine.isUserComment := by
  unfold EnvDocument.set
  -- The key is set where it stands, or its entry is appended.
  split_ifs with hany
  · obtain ⟨l, rest, hl, hfrom, hcut⟩ := lines_cut hany
    have hbefore : (linesBefore key d.lines).map (EnvLine.setValueFor key value) = linesBefore key d.lines :=
      (List.map_congr_left fun x hx =>
        setValueFor_of_not_isEntryFor (not_isEntryFor_of_mem_linesBefore hx)).trans (List.map_id _)
    refine ⟨linesBefore key d.lines, l.setValueFor key value, rest.map (EnvLine.setValueFor key value), ?_,
      fun x hx => not_isEntryFor_of_mem_linesBefore hx, by rw [isEntryFor_setValueFor, hl], rfl, ?_, ?_⟩
    · show d.lines.map (EnvLine.setValueFor key value) = _
      conv_lhs => rw [hcut]
      rw [List.map_append, hbefore, List.map_cons]
    · rw [← List.map_cons, markersAbove_map_setValueFor, hfrom]
    · rw [← List.map_cons, List.filter_map, hfrom]
      have huser : EnvLine.isUserComment ∘ EnvLine.setValueFor key value = EnvLine.isUserComment :=
        funext isUserComment_setValueFor
      rw [huser]
      refine (List.map_congr_left fun x hx => setValueFor_of_not_isEntryFor ?_).trans (List.map_id _)
      -- a user comment is no entry
      have hx := (List.mem_filter.1 hx).2
      cases x with
      | entry e => cases hx
      | _ => rfl
  · have hnone : ∀ x ∈ d.lines, x.isEntryFor key = false := by
      intro x hx
      have hnot := List.any_eq_false.1 (Bool.not_eq_true _ ▸ hany) x hx
      simpa using hnot
    have hbefore : linesBefore key d.lines = d.lines :=
      List.takeWhile_eq_self_iff.2 fun x hx => by simp [hnone x hx]
    have hfrom : linesFrom key d.lines = [] := List.dropWhile_eq_nil_iff.2 fun x hx => by simp [hnone x hx]
    exact ⟨d.lines, _, [], rfl, hnone, by simp [EnvLine.isEntryFor, EnvEntry.new], hbefore.symm, by rw [hfrom]; rfl,
      by rw [hfrom]; rfl⟩

/-- A set changes no line that a set has made. -/
theorem setValueFor_of_mem_set {x : EnvLine} (hx : x ∈ (d.set key value).lines) : x.setValueFor key value = x := by
  unfold EnvDocument.set at hx
  split_ifs at hx with hany
  · obtain ⟨y, -, rfl⟩ := List.mem_map.1 hx
    exact setValueFor_setValueFor y
  · rcases List.mem_append.1 hx with hx | hx
    · have hnot := List.any_eq_false.1 (Bool.not_eq_true _ ▸ hany) x hx
      exact setValueFor_of_not_isEntryFor (by simpa using hnot)
    · rw [List.mem_singleton.1 hx]
      simp only [EnvLine.setValueFor, EnvEntry.new, EnvEntry.setValue, if_true]
      rfl

theorem isEntryFor_of_keeps {m : List Char} {k : EnvLine} (h : k.keeps m = true) : k.isEntryFor key = false := by
  cases k with
  | comment raw => rfl
  | _ => cases h

/-- The lines of a document in which a variable was set with the marker `m`. -/
theorem setWithComment_cut {comment : List Char} (hm : MarkerLine (renderMarker comment)) :
    ∃ b k l rest, (d.setWithComment key value comment).lines = b ++ k :: l :: rest ∧
      k.keeps (renderMarker comment) = true ∧ (∀ x ∈ b, x.isEntryFor key = false) ∧ l.isEntryFor key = true ∧
      (∀ x ∈ b ++ k :: l :: rest, x.setValueFor key value = x) ∧
      markersAbove key (l :: rest) = markersAbove key (linesFrom key d.lines) ∧
      (b ++ k :: l :: rest).filter EnvLine.isUserComment = d.lines.filter EnvLine.isUserComment := by
  obtain ⟨a, l, rest, hlines, ha, hl, hbefore, hmarkers, huser⟩ := set_cut d key value
  obtain ⟨b, k, hplace, hk, hb, hfilter⟩ := placeMarker_cut hm rest ha hl
  have hb' : ∀ x ∈ b, x.isEntryFor key = false := fun x hx => ha x (hb x hx)
  refine ⟨b, k, l, rest, ?_, hk, hb', hl, ?_, hmarkers, ?_⟩
  · show placeMarker key (renderMarker comment) (d.set key value).lines = _
    rw [hlines, hplace]
  · intro x hx
    rcases List.mem_append.1 hx with hx | hx
    · exact setValueFor_of_not_isEntryFor (hb' x hx)
    · rcases List.mem_cons.1 hx with rfl | hx
      · exact setValueFor_of_not_isEntryFor (isEntryFor_of_keeps key hk)
      · exact setValueFor_of_mem_set d key value (hlines ▸ List.mem_append_right _ hx)
  · have hkuser : k.isUserComment = false := by simp [EnvLine.isUserComment, isMarker_of_keeps hm hk]
    have hcut : linesBefore key d.lines ++ linesFrom key d.lines = d.lines := List.takeWhile_append_dropWhile
    rw [List.filter_append, List.filter_cons_of_neg (by simp [hkuser]), hfilter, huser, hbefore,
      ← List.filter_append, hcut]

theorem setWithComment_setWithComment {comment : List Char} (hm : MarkerLine (renderMarker comment)) :
    (d.setWithComment key value comment).setWithComment key value comment = d.setWithComment key value comment := by
  obtain ⟨b, k, l, rest, hlines, hk, hb, hl, hsame, -, -⟩ := setWithComment_cut d key value hm
  have hany : (d.setWithComment key value comment).lines.any (EnvLine.isEntryFor key) = true := by
    rw [hlines]
    exact List.any_eq_true.2 ⟨l, by simp, hl⟩
  have hset : ((d.setWithComment key value comment).set key value).lines = b ++ k :: l :: rest := by
    rw [EnvDocument.set, if_pos hany, hlines]
    exact (List.map_congr_left fun x hx => hsame x hx).trans (List.map_id _)
  have hplaced : placeMarker key (renderMarker comment)
      ((d.setWithComment key value comment).set key value).lines = (d.setWithComment key value comment).lines := by
    rw [hset, placeMarker_of_kept hb hk hl, hlines]
  have hrest : ∀ e : EnvDocument, e.lines.any (EnvLine.isEntryFor key) = true →
      { e.set key value with lines := e.lines } = e := by
    intro e he
    rw [EnvDocument.set, if_pos he]
  have hdef : ∀ e : EnvDocument, e.setWithComment key value comment = { e.set key value with
      lines := placeMarker key (renderMarker comment) (e.set key value).lines } := fun _ => rfl
  rw [hdef (d.setWithComment key value comment), hplaced, hrest _ hany]

theorem markersAbove_setWithComment {comment : List Char} (hm : MarkerLine (renderMarker comment)) :
    markersAbove key (d.setWithComment key value comment).lines
      = 1 + markersAbove key (linesFrom key d.lines) := by
  obtain ⟨b, k, l, rest, hlines, hk, hb, hl, -, hmarkers, -⟩ := setWithComment_cut d key value hm
  rw [hlines, markersAbove_append hb (isEntryFor_of_keeps key hk), isMarker_of_keeps hm hk, hl, hmarkers]
  rfl

theorem userComments_setWithComment {comment : List Char} (hm : MarkerLine (renderMarker comment)) :
    (d.setWithComment key value comment).userComments = d.userComments := by
  obtain ⟨b, k, l, rest, hlines, -, -, -, -, -, huser⟩ := setWithComment_cut d key value hm
  rw [EnvDocument.userComments, hlines, huser, EnvDocument.userComments]

theorem removeLoop_append {a rest before : List EnvLine} (ha : ∀ x ∈ a, x.isEntryFor key = false) :
    removeLoop key before (a ++ rest) = removeLoop key (before ++ a) rest := by
  induction a generalizing before with
  | nil => rw [List.nil_append, List.append_nil]
  | cons x a ih =>
      have hx : x.isEntryFor key = false := ha x (List.mem_cons_self ..)
      rw [List.cons_append, removeLoop, if_neg (by simp [hx]), ih fun y hy => ha y (List.mem_cons_of_mem _ hy),
        List.append_assoc, List.singleton_append]

/-- Removing takes back what setting has added, unless the marker has replaced one that ended the document. -/
theorem removeWithComment_setWithComment {comment : List Char} (hm : MarkerLine (renderMarker comment))
    (habsent : d.lines.any (EnvLine.isEntryFor key) = false)
    (hlast : d.lines.getLast?.any EnvLine.isMarker = false) :
    (d.setWithComment key value comment).removeWithComment key = d := by
  have hnone : ∀ x ∈ d.lines, x.isEntryFor key = false := fun x hx => by
    simpa using List.any_eq_false.1 habsent x hx
  have hnew : (EnvLine.entry (EnvEntry.new key value)).isEntryFor key = true := by
    simp [EnvLine.isEntryFor, EnvEntry.new]
  have hset : d.set key value = { d with lines := d.lines ++ [.entry (EnvEntry.new key value)] } := by
    rw [EnvDocument.set, if_neg (by simp [habsent])]
  -- The last line is no marker, so it is not taken for the one being set.
  have hkeeps : d.lines.getLast?.any (EnvLine.keeps (renderMarker comment)) = false := by
    cases hl : d.lines.getLast? with
    | none => rfl
    | some x =>
        rw [hl, Option.any_some] at hlast
        by_contra hk
        rw [Option.any_some, Bool.not_eq_false] at hk
        rw [isMarker_of_keeps hm hk] at hlast
        cases hlast
  have hmarker : (EnvLine.comment (renderMarker comment)).isMarker = true := isMarker_of_keeps hm (keeps_comment _)
  have hplaced : placeMarker key (renderMarker comment) (d.lines ++ [.entry (EnvEntry.new key value)]) =
      d.lines ++ .comment (renderMarker comment) :: [.entry (EnvEntry.new key value)] := by
    rw [placeMarker_eq, linesBefore_append hnone hnew, linesFrom_append hnone hnew, hkeeps, hlast,
      if_neg Bool.false_ne_true, if_neg Bool.false_ne_true]
  -- The loop drops the entry and the marker it has just pushed.
  have hremoved : removeLoop key []
      (d.lines ++ .comment (renderMarker comment) :: [.entry (EnvEntry.new key value)]) = d.lines := by
    rw [removeLoop_append key hnone, List.nil_append, removeLoop, if_neg (by simp [EnvLine.isEntryFor]), removeLoop,
      if_pos hnew, removeLoop, EnvFile.dropMarker, List.getLast?_concat]
    simp only [hmarker, if_true, List.dropLast_concat]
  rw [EnvDocument.removeWithComment, EnvDocument.setWithComment, hset]
  dsimp only
  rw [hplaced, hremoved]

/-- Setting with a marker twice is setting once. It adds a marker above the first occurrence, and no marker above
a later one; the comments of the user stay, and a variable that was not there can be removed again without a
trace, unless a marker ended the document. -/
theorem setWithComment_spec {comment : List Char} (hm : MarkerLine (renderMarker comment)) :
    (d.setWithComment key value comment).setWithComment key value comment = d.setWithComment key value comment ∧
      markersAbove key (d.setWithComment key value comment).lines
        = 1 + markersAbove key (linesFrom key d.lines) ∧
      (d.setWithComment key value comment).userComments = d.userComments ∧
      (d.lines.any (EnvLine.isEntryFor key) = false → d.lines.getLast?.any EnvLine.isMarker = false →
        (d.setWithComment key value comment).removeWithComment key = d) :=
  ⟨setWithComment_setWithComment d key value hm, markersAbove_setWithComment d key value hm,
    userComments_setWithComment d key value hm, removeWithComment_setWithComment d key value hm⟩

end Edit

theorem setWithComment_spec_route :
    let d := EnvDocument.parse "# mine\nA=1".toList
    let linked := d.setWithComment "URL".toList "x".toList "tethra-gateway route".toList
    linked.setWithComment "URL".toList "x".toList "tethra-gateway route".toList = linked ∧
      markersAbove "URL".toList linked.lines = 1 + markersAbove "URL".toList (linesFrom "URL".toList d.lines) ∧
      linked.userComments = d.userComments ∧
      (d.lines.any (EnvLine.isEntryFor "URL".toList) = false → d.lines.getLast?.any EnvLine.isMarker = false →
        linked.removeWithComment "URL".toList = d) :=
  setWithComment_spec _ _ _ ⟨by decide, by decide, by decide⟩

/-- Two occurrences with a marker each. -/
def twiceMarked : EnvDocument := .parse "# tethra-gateway a\nK=1\n# tethra-gateway a\nK=2".toList

/-- A marker without its variable. -/
def markedAtEnd : EnvDocument := .parse "# tethra-gateway a".toList

/-- The marker above a second occurrence stays; and a marker comment that ends a document is gone after a variable
was set and removed. -/
theorem markers_stay_and_go :
    markersAbove "K".toList
        (twiceMarked.setWithComment "K".toList "x".toList "tethra-gateway b".toList).lines = 2 ∧
      markedAtEnd.lines.any (EnvLine.isEntryFor "K".toList) = false ∧
      (markedAtEnd.setWithComment "K".toList "x".toList "tethra-gateway b".toList).removeWithComment "K".toList
        ≠ markedAtEnd := by
  decide

end Tethra.Core.EnvFile
