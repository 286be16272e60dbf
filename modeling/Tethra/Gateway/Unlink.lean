import Tethra.Gateway.RoundTrip

set_option autoImplicit false

/-! # Unlinking an edited file

`restoreVar` decides once for each variable, on its last occurrence, and then writes every
occurrence. `values_unlink` says what an unlink leaves of the values of a recorded variable, whatever
the user did to the file since the link; that edits survive and that no written value is left follow
under the conditions that this formula gives. -/

namespace Tethra.Gateway

open Text Slots Tethra.Core.EnvFile

theorem validKey_of_values {d : EnvDocument} (hd : d.Faithful) {key : Str}
    (h : d.values key ≠ []) : validKey key = true := by
  obtain ⟨v, hv⟩ := List.exists_mem_of_ne_nil _ h
  simp only [EnvDocument.values, List.mem_map, List.mem_filter, decide_eq_true_eq] at hv
  obtain ⟨e, ⟨he, rfl⟩, -⟩ := hv
  exact hd.validKey he

/-! ## What restoring one variable does to its values -/

/-- The value that a restore gives the `i`-th occurrence, if it keeps it. -/
def PriorVar.target (var : PriorVar) (i : Nat) : Option Str :=
  var.prior.map fun p =>
    if 1 < var.priorAll.length then (var.priorAll[i]?).getD (var.priorAll.getLast?.getD p) else p

/-- The restore goes ahead: the last occurrence still has the written value, and the prior value was
    recorded. -/
def PriorVar.Owns (var : PriorVar) (values : List Str) : Prop :=
  values.getLast? = some var.written ∧ var.priorWithheld = false

instance (var : PriorVar) (values : List Str) : Decidable (var.Owns values) :=
  inferInstanceAs (Decidable (_ ∧ _))

/-- The values after the restore. -/
def PriorVar.restored (var : PriorVar) (values : List Str) : List Str :=
  if var.Owns values then (List.range values.length).filterMap var.target else values

theorem filterMap_target_of_none {var : PriorVar} (h : var.prior = none) (is : List Nat) :
    is.filterMap var.target = [] := by
  have hnone : var.target = fun _ => none := by
    funext i
    rw [PriorVar.target, h]
    rfl
  rw [hnone]
  simp

theorem filterMap_target_of_some {var : PriorVar} {p : Str} (h : var.prior = some p)
    (is : List Nat) :
    is.filterMap var.target = is.map fun i =>
      if 1 < var.priorAll.length then (var.priorAll[i]?).getD (var.priorAll.getLast?.getD p)
      else p := by
  rw [← List.filterMap_eq_map]
  congr 1
  funext i
  rw [PriorVar.target, h]
  rfl

/-- The `i`-th value after a restore that goes ahead. -/
theorem getElem?_restored {var : PriorVar} {values : List Str} (howns : var.Owns values) {i : Nat}
    (hi : i < values.length) : (var.restored values)[i]? = var.target i := by
  rw [PriorVar.restored, if_pos howns]
  cases hp : var.prior with
  | none => rw [filterMap_target_of_none hp, PriorVar.target, hp]; rfl
  | some p =>
      rw [filterMap_target_of_some hp, PriorVar.target, hp]
      simp [hi]

/-- Restoring gives the occurrences their recorded values. -/
theorem values_restorePrior {var : PriorVar} {d : EnvDocument} (hd : d.Faithful)
    (hkey : d.values var.key ≠ []) :
    (restorePrior var d).values var.key
      = (List.range (d.values var.key).length).filterMap var.target := by
  have hslots : Slots.values var.key (d.slots fun _ => true) = d.values var.key := values_slots rfl d
  have hvalid : validKey var.key = true := validKey_of_values hd hkey
  rw [← values_slots (W := fun _ => true) rfl]
  unfold restorePrior
  cases hp : var.prior with
  | none =>
      rw [slots_removeWithComment rfl hd, values_remove_self, filterMap_target_of_none hp]
  | some p =>
      rw [filterMap_target_of_some hp]
      simp only
      split
      · rename_i hlen
        have hne : var.priorAll ≠ [] := by
          rintro hnil
          simp [hnil] at hlen
        rw [slots_removeMarkerAbove rfl (hd.setEachOccurrence _ _), values_eq_of_occs (occs_strip ..),
          slots_setEachOccurrence rfl, assignAll, List.getLast?_eq_some_getLast hne]
        simp only
        rw [values_assign_self, hslots]
        rfl
      · rw [slots_removeMarkerAbove rfl (hd.set hvalid _), values_eq_of_occs (occs_strip ..),
          slots_set rfl, values_set_self, if_pos (present_iff_values.2 (hslots ▸ hkey)), hslots]
        simp [List.map_const']

theorem faithful_restorePrior {var : PriorVar} {d : EnvDocument} (hd : d.Faithful)
    (hkey : d.values var.key ≠ []) : (restorePrior var d).Faithful := by
  unfold restorePrior
  split
  · split
    · exact (hd.setEachOccurrence _ _).removeMarkerAbove _
    · exact (hd.set (validKey_of_values hd hkey) _).removeMarkerAbove _
  · exact hd.removeWithComment _

theorem values_removeMarkerAbove {d : EnvDocument} (hd : d.Faithful) (key k : Str) :
    (d.removeMarkerAbove key).1.values k = d.values k := by
  rw [← values_slots (W := fun _ => true) rfl, slots_removeMarkerAbove rfl hd,
    values_eq_of_occs (occs_strip ..), values_slots rfl]

theorem values_restorePrior_ne {var : PriorVar} {d : EnvDocument} (hd : d.Faithful)
    (hkey : d.values var.key ≠ []) {k : Str} (hne : k ≠ var.key) :
    (restorePrior var d).values k = d.values k := by
  have hvalid := validKey_of_values hd hkey
  unfold restorePrior
  split
  · simp only
    split
    · rw [values_removeMarkerAbove (hd.setEachOccurrence _ _), ← values_slots (W := fun _ => true) rfl,
        slots_setEachOccurrence rfl, assignAll]
      split
      · exact values_slots rfl d
      · rw [values_assign_ne hne, values_slots rfl]
    · rw [values_removeMarkerAbove (hd.set hvalid _), values_set_doc_ne hne]
  · rw [← values_slots (W := fun _ => true) rfl, slots_removeWithComment rfl hd, values_remove_ne _ hne,
      values_slots rfl]

/-- What one step of the restore loop does. -/
structure RestoreStep (var : PriorVar) (st st' : RestoreState) : Prop where
  faithful : st'.doc.Faithful
  self : st'.doc.values var.key = var.restored (st.doc.values var.key)
  other : ∀ k, k ≠ var.key → st'.doc.values k = st.doc.values k
  owned : var.Owns (st.doc.values var.key) → st'.changed = true
  changed : st.changed = true → st'.changed = true
  outcome : ∃ o, st'.outcomes = st.outcomes ++ [o] ∧ (outcomeIsSettled o = true →
    (st.doc.values var.key).getLast? = some var.written → var.priorWithheld = false)

/-- A variable that the restore leaves alone keeps its values. -/
theorem RestoreStep.kept {var : PriorVar} {st : RestoreState} {doc : EnvDocument} {changed : Bool}
    {o : RestoreOutcome} (hd : doc.Faithful) (hvalues : ∀ k, doc.values k = st.doc.values k)
    (howns : ¬var.Owns (st.doc.values var.key)) (hchanged : st.changed = true → changed = true)
    (ho : outcomeIsSettled o = true →
      (st.doc.values var.key).getLast? = some var.written → var.priorWithheld = false) :
    RestoreStep var st ⟨doc, changed, st.outcomes ++ [o]⟩ where
  faithful := hd
  self := by rw [PriorVar.restored, if_neg howns, hvalues]
  other k _ := hvalues k
  owned h := absurd h howns
  changed := hchanged
  outcome := ⟨o, rfl, ho⟩

theorem restoreVar_step (path : Str) {st : RestoreState} (var : PriorVar) (hd : st.doc.Faithful) :
    RestoreStep var st (restoreVar path st var) := by
  unfold restoreVar
  rw [get_value]
  cases hlast : (st.doc.values var.key).getLast? with
  | none =>
      have howns : ¬var.Owns (st.doc.values var.key) := fun h => by
        rw [PriorVar.Owns, hlast] at h
        cases h.1
      have hsettled : ∀ o, outcomeIsSettled o = true →
          (st.doc.values var.key).getLast? = some var.written → var.priorWithheld = false := by
        intro o _ h
        rw [hlast] at h
        cases h
      cases var.prior with
      | none => exact RestoreStep.kept hd (fun _ => rfl) howns id (hsettled _)
      | some p => exact RestoreStep.kept hd (fun _ => rfl) howns id (hsettled _)
  | some cur =>
      simp only
      split
      · rename_i hcur
        split
        · -- the line is ours, but what it replaced was never recorded
          rename_i hwithheld
          refine RestoreStep.kept hd (fun _ => rfl) (fun h => ?_) id (fun h => by cases h)
          rw [h.2] at hwithheld
          cases hwithheld
        · rename_i hkept
          have howns : var.Owns (st.doc.values var.key) :=
            ⟨by rw [hlast, hcur], by simpa using hkept⟩
          have hkey : st.doc.values var.key ≠ [] := by
            rintro hnil
            simp [hnil] at hlast
          exact ⟨faithful_restorePrior hd hkey,
            by rw [PriorVar.restored, if_pos howns]; exact values_restorePrior hd hkey,
            fun k hk => values_restorePrior_ne hd hkey hk, fun _ => rfl, fun _ => rfl,
            _, rfl, fun _ _ => howns.2⟩
      · rename_i hcur
        have howns : ¬var.Owns (st.doc.values var.key) := fun h => by
          rw [PriorVar.Owns, hlast] at h
          exact hcur (Option.some.inj h.1)
        have hsettled : ∀ o, outcomeIsSettled o = true →
            (st.doc.values var.key).getLast? = some var.written → var.priorWithheld = false := by
          intro o _ h
          rw [hlast] at h
          exact absurd (Option.some.inj h) hcur
        split
        · exact RestoreStep.kept (hd.removeMarkerAbove _)
            (fun k => values_removeMarkerAbove hd _ k) howns (fun h => by simp [h]) (hsettled _)
        · exact RestoreStep.kept hd (fun _ => rfl) howns id (hsettled _)

/-! ## The whole record of a file -/

/-- What the restore loop does, over the records of a file. -/
theorem restoreVars_step (path : Str) {vars : List PriorVar} (hnodup : (vars.map PriorVar.key).Nodup)
    (st : RestoreState) (hd : st.doc.Faithful) :
    let st' := vars.foldl (restoreVar path) st
    st'.doc.Faithful ∧
      (∀ var ∈ vars, st'.doc.values var.key = var.restored (st.doc.values var.key)) ∧
      (∀ k ∉ vars.map PriorVar.key, st'.doc.values k = st.doc.values k) ∧
      ((st.changed = true ∨ ∃ var ∈ vars, var.Owns (st.doc.values var.key)) →
        st'.changed = true) ∧
      ∃ os, st'.outcomes = st.outcomes ++ os ∧ ((∀ o ∈ os, outcomeIsSettled o = true) →
        ∀ var ∈ vars, (st.doc.values var.key).getLast? = some var.written →
          var.priorWithheld = false) := by
  induction vars generalizing st with
  | nil =>
      refine ⟨hd, fun _ h => (by cases h), fun _ _ => rfl, ?_, [], by simp, fun _ _ h => (by cases h)⟩
      rintro (h | ⟨_, h, -⟩)
      · exact h
      · cases h
  | cons v vars ih =>
      obtain ⟨hkey, hnodup'⟩ := List.nodup_cons.1 hnodup
      have hstep := restoreVar_step path v hd
      obtain ⟨hfaith, hself, hother, hchanged, os, hos, hsettled⟩ := ih hnodup' (restoreVar path st v) hstep.faithful
      obtain ⟨o, ho, hone⟩ := hstep.outcome
      -- the records before and after have other keys, so each sees the values the loop started with
      have hsame : ∀ var ∈ vars, (restoreVar path st v).doc.values var.key
          = st.doc.values var.key := by
        intro var hvar
        exact hstep.other _ fun h => hkey (h ▸ List.mem_map_of_mem hvar)
      simp only [List.foldl_cons]
      refine ⟨hfaith, ?_, ?_, ?_, o :: os, ?_, ?_⟩
      · intro var hvar
        rcases List.mem_cons.1 hvar with rfl | hvar
        · rw [hother _ hkey, hstep.self]
        · rw [hself var hvar, hsame var hvar]
      · intro k hk
        simp only [List.map_cons, List.mem_cons, not_or] at hk
        rw [hother k hk.2, hstep.other k hk.1]
      · rintro (h | ⟨var, hvar, howns⟩)
        · exact hchanged (.inl (hstep.changed h))
        · rcases List.mem_cons.1 hvar with rfl | hvar
          · exact hchanged (.inl (hstep.owned howns))
          · exact hchanged (.inr ⟨var, hvar, by rwa [hsame var hvar]⟩)
      · rw [hos, ho]
        simp
      · intro hall var hvar
        rcases List.mem_cons.1 hvar with rfl | hvar
        · exact hone (hall o (List.mem_cons_self ..))
        · rw [← hsame var hvar]
          exact hsettled (fun o' ho' => hall o' (List.mem_cons_of_mem _ ho')) var hvar

/-! ## One file -/

/-- The values of a variable in what a path holds. -/
def FileState.values (s : FileState) (key : Str) : List Str :=
  match s with
  | .regular content => (EnvDocument.parse content).values key
  | _ => []

/-- The values of a recorded variable after a restore: a file that cannot be written keeps them. -/
def valuesAfter (disk : Disk) (path : Str) (var : PriorVar) : List Str :=
  if disk.writeError path = none then var.restored ((disk.file path).values var.key)
  else (disk.file path).values var.key

theorem restored_nil (var : PriorVar) : var.restored [] = [] := by
  have hnot : ¬var.Owns [] := fun h => by cases h.1
  rw [PriorVar.restored, if_neg hnot]

theorem values_of_entries_nil {d : EnvDocument} (h : d.entries.isEmpty = true) (key : Str) :
    d.values key = [] := by
  rw [EnvDocument.values, List.isEmpty_iff.1 h]
  rfl

/-- What the end of a file's restore does: the disk keeps what it has, or the path gets the restored
    values. -/
structure FileWritten (path : Str) (st : RestoreState) (r r' : RestoreResult) : Prop where
  failure : r.anyFailure = true → r'.anyFailure = true
  outcomes : ∃ os, r'.outcomes = r.outcomes ++ (st.outcomes ++ os)
  disk : (r'.disk = r.disk ∧
      (st.changed = true → r.disk.writeError path ≠ none ∧ r'.anyFailure = true)) ∨
    (st.changed = true ∧ r.disk.writeError path = none ∧
      ∃ s, r'.disk = r.disk.setFile path s ∧ ∀ key, s.values key = st.doc.values key)

theorem writeRestored_written (file : PriorFile) {st : RestoreState} (hd : st.doc.Faithful)
    (r : RestoreResult) : FileWritten file.path st r (writeRestored file st r) := by
  unfold writeRestored
  split
  · rename_i hsame
    refine ⟨id, ⟨[], by simp⟩, .inl ⟨rfl, fun h => ?_⟩⟩
    simp [h] at hsame
  · rename_i hchanged
    have hchanged' : st.changed = true := by simpa using hchanged
    split
    · rename_i hempty
      have hentries : st.doc.entries.isEmpty = true := by
        simp only [Bool.and_eq_true] at hempty
        exact hempty.2
      cases hw : r.disk.writeError file.path with
      | some e =>
          have hremove : removeFile r.disk file.path = .error e := by rw [removeFile, hw]
          simp only [hremove]
          exact ⟨fun _ => rfl, ⟨[.failed file.path [] e], by simp [RestoreResult.fail]⟩,
            .inl ⟨rfl, fun _ => ⟨by simp [hw], rfl⟩⟩⟩
      | none =>
          have hremove : removeFile r.disk file.path = .ok (r.disk.setFile file.path .missing) := by
            rw [removeFile, hw]
          simp only [hremove]
          exact ⟨id, ⟨[.createdFileRemoved file.path], by simp⟩,
            .inr ⟨hchanged', hw, .missing, rfl, fun k => (values_of_entries_nil hentries k).symm⟩⟩
    · cases hw : r.disk.writeError file.path with
      | some e =>
          have hwrite : atomicWrite r.disk file.path st.doc.render = .error e := by
            rw [atomicWrite, hw]
          simp only [hwrite]
          exact ⟨fun _ => rfl, ⟨[.failed file.path [] e], by simp [RestoreResult.fail]⟩,
            .inl ⟨rfl, fun _ => ⟨by simp [hw], rfl⟩⟩⟩
      | none =>
          have hwrite : atomicWrite r.disk file.path st.doc.render
              = .ok (r.disk.setFile file.path (.regular st.doc.render)) := by
            rw [atomicWrite, hw]
          simp only [hwrite]
          exact ⟨id, ⟨[], by simp⟩,
            .inr ⟨hchanged', hw, .regular st.doc.render, rfl, fun k => values_parse_render hd k⟩⟩

/-- What restoring one file does. -/
structure FileStep (file : PriorFile) (r r' : RestoreResult) : Prop where
  other : ∀ path, path ≠ file.path → r'.disk.file path = r.disk.file path
  writeError : r'.disk.writeError = r.disk.writeError
  values : ∀ var ∈ file.vars, (r'.disk.file file.path).values var.key = valuesAfter r.disk file.path var
  failure : r.anyFailure = true → r'.anyFailure = true
  outcomes : ∃ os, r'.outcomes = r.outcomes ++ os ∧
    ((∀ o ∈ os, outcomeIsSettled o = true) → r'.anyFailure = false → ∀ var ∈ file.vars,
      ((r.disk.file file.path).values var.key).getLast? = some var.written →
        var.priorWithheld = false ∧ r.disk.writeError file.path = none)

/-- A file that is not there to be restored has no values, and keeps none. -/
theorem FileStep.skip {file : PriorFile} {r r' : RestoreResult} (hdisk : r'.disk = r.disk)
    (hfail : r.anyFailure = true → r'.anyFailure = true)
    (hos : ∃ os, r'.outcomes = r.outcomes ++ os)
    (hnone : ∀ key, (r.disk.file file.path).values key = []) : FileStep file r r' where
  other _ _ := by rw [hdisk]
  writeError := by rw [hdisk]
  values var _ := by
    rw [hdisk, valuesAfter, hnone, restored_nil, ite_self]
  failure := hfail
  outcomes := by
    obtain ⟨os, hos⟩ := hos
    refine ⟨os, hos, fun _ _ var _ h => ?_⟩
    rw [hnone] at h
    cases h

theorem restoreFile_step {file : PriorFile} (hnodup : (file.vars.map PriorVar.key).Nodup)
    (r : RestoreResult) : FileStep file r (restoreFile r file) := by
  unfold restoreFile
  cases hfile : r.disk.file file.path with
  | missing =>
      exact FileStep.skip rfl id ⟨_, rfl⟩ fun _ => by rw [hfile]; rfl
  | symlink => exact FileStep.skip rfl (fun _ => rfl) ⟨_, rfl⟩ fun _ => by rw [hfile]; rfl
  | directory => exact FileStep.skip rfl (fun _ => rfl) ⟨_, rfl⟩ fun _ => by rw [hfile]; rfl
  | statFailed e => exact FileStep.skip rfl (fun _ => rfl) ⟨_, rfl⟩ fun _ => by rw [hfile]; rfl
  | unreadable e => exact FileStep.skip rfl (fun _ => rfl) ⟨_, rfl⟩ fun _ => by rw [hfile]; rfl
  | regular content =>
      -- the only state in which the file is read, and may be written
      have hbefore : ∀ k, (r.disk.file file.path).values k = (EnvDocument.parse content).values k := by
        intro k
        rw [hfile]
        rfl
      obtain ⟨hfaith, hvalues, -, hchanged, os, hos, hsettled⟩ := restoreVars_step file.path hnodup
        ⟨EnvDocument.parse content, false, []⟩ (faithful_parse content)
      have hst : file.vars.foldl (restoreVar file.path) ⟨EnvDocument.parse content, false, []⟩
        = restoreDocument file content := rfl
      rw [hst] at hfaith hchanged hos
      rw [hst] at hvalues
      simp only at hvalues hchanged hos hsettled
      have hwritten := writeRestored_written file hfaith r
      simp only
      obtain ⟨os', hos'⟩ := hwritten.outcomes
      have hlist : (restoreDocument file content).outcomes = os := by simpa using hos
      refine ⟨?_, ?_, ?_, hwritten.failure, os ++ os', by rw [hos', hlist], ?_⟩
      · intro path hne
        rcases hwritten.disk with ⟨hdisk, -⟩ | ⟨-, -, s, hdisk, -⟩
        · rw [hdisk]
        · rw [hdisk]
          exact Function.update_of_ne hne ..
      · rcases hwritten.disk with ⟨hdisk, -⟩ | ⟨-, -, s, hdisk, -⟩
        · rw [hdisk]
        · rw [hdisk]
          rfl
      · intro var hvar
        rw [valuesAfter]
        rcases hwritten.disk with ⟨hdisk, hkept⟩ | ⟨-, hw, s, hdisk, hs⟩
        · rw [hdisk]
          split
          · rename_i hw
            have howns : ¬var.Owns ((EnvDocument.parse content).values var.key) := fun howns =>
              (hkept (hchanged (.inr ⟨var, hvar, howns⟩))).1 hw
            rw [PriorVar.restored, hbefore, if_neg howns]
          · rfl
        · rw [if_pos hw, hdisk, hbefore, ← hvalues var hvar, ← hs]
          simp [Disk.setFile]
      · intro hall hfail var hvar hlast
        rw [hbefore] at hlast
        have hwithheld := hsettled (fun o ho => hall o (List.mem_append_left _ ho)) var hvar hlast
        refine ⟨hwithheld, ?_⟩
        by_contra hw
        rcases hwritten.disk with ⟨-, hkept⟩ | ⟨-, hw', -⟩
        · rw [(hkept (hchanged (.inr ⟨var, hvar, hlast, hwithheld⟩))).2] at hfail
          cases hfail
        · exact hw hw'

/-! ## The whole record of a link -/

/-- A record names each path once, and each variable once in a file. -/
structure Distinct (files : List PriorFile) : Prop where
  paths : (files.map PriorFile.path).Nodup
  keys : ∀ file ∈ files, (file.vars.map PriorVar.key).Nodup

theorem Distinct.tail {file : PriorFile} {files : List PriorFile} (h : Distinct (file :: files)) :
    Distinct files :=
  ⟨(List.nodup_cons.1 h.paths).2, fun f hf => h.keys f (List.mem_cons_of_mem _ hf)⟩

theorem restoreFiles_step {files : List PriorFile} (hdistinct : Distinct files)
    (r : RestoreResult) :
    let r' := files.foldl restoreFile r
    (∀ path ∉ files.map PriorFile.path, r'.disk.file path = r.disk.file path) ∧
      (∀ file ∈ files, ∀ var ∈ file.vars,
        (r'.disk.file file.path).values var.key = valuesAfter r.disk file.path var) ∧
      (r.anyFailure = true → r'.anyFailure = true) ∧
      ∃ os, r'.outcomes = r.outcomes ++ os ∧
        ((∀ o ∈ os, outcomeIsSettled o = true) → r'.anyFailure = false →
          ∀ file ∈ files, ∀ var ∈ file.vars,
            ((r.disk.file file.path).values var.key).getLast? = some var.written →
              var.priorWithheld = false ∧ r.disk.writeError file.path = none) := by
  induction files generalizing r with
  | nil =>
      exact ⟨fun _ _ => rfl, fun _ h => (by cases h), id, [], by simp, fun _ _ _ h => (by cases h)⟩
  | cons file files ih =>
      have hpath := (List.nodup_cons.1 hdistinct.paths).1
      have hstep := restoreFile_step (hdistinct.keys file (List.mem_cons_self ..)) r
      obtain ⟨hother, hvalues, hfailure, os, hos, hsettled⟩ := ih hdistinct.tail (restoreFile r file)
      obtain ⟨os₁, hos₁, hsettled₁⟩ := hstep.outcomes
      -- the other files are not touched by the restore of `file`
      have hsame : ∀ f ∈ files, (restoreFile r file).disk.file f.path = r.disk.file f.path := by
        intro f hf
        exact hstep.other _ fun h => hpath (h ▸ List.mem_map_of_mem hf)
      simp only [List.foldl_cons]
      refine ⟨?_, ?_, fun h => hfailure (hstep.failure h), os₁ ++ os, ?_, ?_⟩
      · intro path hne
        simp only [List.map_cons, List.mem_cons, not_or] at hne
        rw [hother path hne.2, hstep.other path hne.1]
      · intro f hf var hvar
        rcases List.mem_cons.1 hf with rfl | hf
        · rw [hother _ hpath, hstep.values var hvar]
        · rw [hvalues f hf var hvar, valuesAfter, valuesAfter, hsame f hf, hstep.writeError]
      · rw [hos, hos₁, List.append_assoc]
      · intro hall hfail f hf var hvar hlast
        have hfail₁ : (restoreFile r file).anyFailure = false := by
          by_contra h
          rw [hfailure (Bool.eq_true_of_not_eq_false h)] at hfail
          cases hfail
        rcases List.mem_cons.1 hf with rfl | hf
        · exact hsettled₁ (fun o ho => hall o (List.mem_append_left _ ho)) hfail₁ var hvar hlast
        · rw [← hsame f hf] at hlast
          rw [← hstep.writeError]
          exact hsettled (fun o ho => hall o (List.mem_append_right _ ho)) hfail f hf var hvar hlast

/-- The records that an unlink restores: those before the first that does not open. -/
def openedFiles (crypto : Option RestoreCrypto) (slug : Str) : List PriorFile → List PriorFile
  | [] => []
  | file :: files =>
      match openPriorFile crypto slug file with
      | .error _ => []
      | .ok opened => opened :: openedFiles crypto slug files

def ProjectLinkRow.files (link : ProjectLinkRow) : List PriorFile :=
  (link.priorEnv.map PriorEnv.files).getD []

/-- The records of a link that an unlink restores; none of a newer build's document. -/
def ProjectLinkRow.openedFiles (crypto : Option RestoreCrypto) (link : ProjectLinkRow) :
    List PriorFile :=
  match link.priorEnv with
  | none => []
  | some prior =>
      if priorEnvVersion < prior.v then [] else Gateway.openedFiles crypto link.linkSlug prior.files

theorem restoreFiles_eq (crypto : Option RestoreCrypto) (slug : Str) (files : List PriorFile)
    (r : RestoreResult) :
    (restoreFiles crypto slug files r).1 = (openedFiles crypto slug files).foldl restoreFile r ∧
      ((restoreFiles crypto slug files r).2 = none →
        (openedFiles crypto slug files).length = files.length) := by
  induction files generalizing r with
  | nil => exact ⟨rfl, fun _ => rfl⟩
  | cons file files ih =>
      rw [restoreFiles, openedFiles]
      cases openPriorFile crypto slug file with
      | error e => exact ⟨rfl, fun h => by cases h⟩
      | ok opened =>
          obtain ⟨hfold, hlen⟩ := ih (restoreFile r opened)
          exact ⟨hfold, fun h => by rw [List.length_cons, List.length_cons, hlen h]⟩

/-- Opening a record keeps what it is about. -/
structure OpenedFrom (file opened : PriorFile) : Prop where
  path : opened.path = file.path
  vars : List.Forall₂ (fun v o => o.key = v.key ∧ o.written = v.written) file.vars opened.vars

theorem openPriorVar_same {crypto : Option RestoreCrypto} {slug path : Str} {var opened : PriorVar}
    (h : openPriorVar crypto slug path var = .ok opened) :
    opened.key = var.key ∧ opened.written = var.written := by
  unfold openPriorVar at h
  split at h
  · obtain rfl := Except.ok.inj h
    exact ⟨rfl, rfl⟩
  · cases crypto with
    | none =>
        obtain rfl := Except.ok.inj h
        exact ⟨rfl, rfl⟩
    | some c =>
        obtain ⟨prior, -, hall⟩ := bind_eq_ok.1 h
        obtain ⟨all, -, hpure⟩ := bind_eq_ok.1 hall
        obtain rfl := Except.ok.inj hpure
        exact ⟨rfl, rfl⟩

theorem openedFrom_openPriorFile {crypto : Option RestoreCrypto} {slug : Str}
    {file opened : PriorFile} (h : openPriorFile crypto slug file = .ok opened) :
    OpenedFrom file opened := by
  obtain ⟨vars, hvars, hpure⟩ := bind_eq_ok.1 h
  obtain rfl := Except.ok.inj hpure
  exact ⟨rfl, (forall₂_of_mapM hvars).imp fun _ _ h => openPriorVar_same h⟩

/-- The opened records are those of the first files. -/
theorem openedFrom_openedFiles (crypto : Option RestoreCrypto) (slug : Str)
    (files : List PriorFile) :
    List.Forall₂ OpenedFrom (files.take (openedFiles crypto slug files).length)
      (openedFiles crypto slug files) := by
  induction files with
  | nil => exact List.Forall₂.nil
  | cons file files ih =>
      rw [openedFiles]
      cases ho : openPriorFile crypto slug file with
      | error e => exact List.Forall₂.nil
      | ok opened => exact List.Forall₂.cons (openedFrom_openPriorFile ho) ih

theorem Distinct.openedFiles {files : List PriorFile} (h : Distinct files)
    (crypto : Option RestoreCrypto) (slug : Str) :
    Distinct (Gateway.openedFiles crypto slug files) := by
  have hopened := openedFrom_openedFiles crypto slug files
  refine ⟨?_, ?_⟩
  · rw [← map_eq_of_forall₂ hopened fun _ _ ho => ho.path.symm, List.map_take]
    exact h.paths.sublist (List.take_sublist _ _)
  · intro opened ho
    obtain ⟨file, hfile, hfrom⟩ := exists_left_of_forall₂ hopened ho
    rw [← map_eq_of_forall₂ hfrom.vars fun _ _ h => h.1.symm]
    exact h.keys file (List.mem_of_mem_take hfile)

theorem ProjectLinkRow.openedFrom (crypto : Option RestoreCrypto) (link : ProjectLinkRow) :
    List.Forall₂ OpenedFrom (link.files.take (link.openedFiles crypto).length)
      (link.openedFiles crypto) := by
  unfold ProjectLinkRow.openedFiles ProjectLinkRow.files
  cases link.priorEnv with
  | none => exact List.Forall₂.nil
  | some prior =>
      simp only [Option.map_some, Option.getD_some]
      split
      · exact List.Forall₂.nil
      · exact openedFrom_openedFiles crypto link.linkSlug prior.files

theorem ProjectLinkRow.distinct_openedFiles {link : ProjectLinkRow} (h : Distinct link.files)
    (crypto : Option RestoreCrypto) : Distinct (link.openedFiles crypto) := by
  unfold ProjectLinkRow.openedFiles
  cases hp : link.priorEnv with
  | none => exact ⟨List.nodup_nil, fun _ hf => by cases hf⟩
  | some prior =>
      simp only
      split
      · exact ⟨List.nodup_nil, fun _ hf => by cases hf⟩
      · rw [ProjectLinkRow.files, hp] at h
        exact Distinct.openedFiles h crypto link.linkSlug

/-- What the restore part of an unlink does, and when it comes to the end. -/
theorem restoreLink_eq (disk : Disk) (crypto : Option RestoreCrypto) (link : ProjectLinkRow) :
    (restoreLink disk crypto link).1 = (link.openedFiles crypto).foldl restoreFile ⟨disk, [], false⟩ ∧
      ((restoreLink disk crypto link).2 = none →
        (link.openedFiles crypto).length = link.files.length) := by
  unfold restoreLink ProjectLinkRow.openedFiles ProjectLinkRow.files checkPriorEnvVersion
  cases link.priorEnv with
  | none => exact ⟨rfl, fun _ => rfl⟩
  | some prior =>
      simp only [Option.map_some, Option.getD_some]
      split
      · rename_i e he
        split at he
        · rename_i hnew
          rw [if_pos hnew]
          exact ⟨rfl, fun h => by cases h⟩
        · cases he
      · rename_i u he
        split at he
        · cases he
        · rename_i hold
          rw [if_neg hold]
          exact restoreFiles_eq crypto link.linkSlug prior.files ⟨disk, [], false⟩

theorem disk_unlink {db : Db} {link : ProjectLinkRow} {projectId prefix_ : Str}
    (hlink : findProjectLink db projectId prefix_ = some link) (disk : Disk)
    (crypto : Option RestoreCrypto) :
    (unlink disk db crypto projectId prefix_).1 = (restoreLink disk crypto link).1.disk := by
  unfold unlink
  rw [hlink]
  simp only
  split
  · rename_i r e hr
    rw [hr]
  · rename_i r hr
    rw [hr]
    split <;> rfl

/-- A complete unlink restored every file of the record, and nothing failed. -/
theorem restoreLink_of_complete {db : Db} {link : ProjectLinkRow} {projectId prefix_ : Str}
    {disk : Disk} {crypto : Option RestoreCrypto}
    (hlink : findProjectLink db projectId prefix_ = some link) {report : UnlinkReport}
    (hrun : (unlink disk db crypto projectId prefix_).2.2 = .ok report)
    (hcomplete : report.complete = true) :
    (restoreLink disk crypto link).2 = none ∧
      (restoreLink disk crypto link).1.anyFailure = false ∧
      ∀ o ∈ (restoreLink disk crypto link).1.outcomes, outcomeIsSettled o = true := by
  unfold unlink at hrun
  rw [hlink] at hrun
  simp only at hrun
  split at hrun
  · cases hrun
  · rename_i r hr
    rw [hr]
    split at hrun
    · obtain rfl := Except.ok.inj hrun
      cases hcomplete
    · rename_i hdone
      simp only [Bool.or_eq_true, Bool.not_eq_true', not_or, Bool.not_eq_true,
        Bool.not_eq_false, List.all_eq_true] at hdone
      exact ⟨rfl, hdone⟩

/-- The values of a variable at each path after an unlink: a file whose record is restored has the
    values of `valuesAfter`, and every other file is as it was. -/
theorem values_unlink {db : Db} {link : ProjectLinkRow} {projectId prefix_ : Str}
    (hlink : findProjectLink db projectId prefix_ = some link) (hdistinct : Distinct link.files)
    (disk : Disk) (crypto : Option RestoreCrypto) :
    let disk' := (unlink disk db crypto projectId prefix_).1
    (∀ path ∉ (link.openedFiles crypto).map PriorFile.path, disk'.file path = disk.file path) ∧
      ∀ file ∈ link.openedFiles crypto, ∀ var ∈ file.vars,
        (disk'.file file.path).values var.key = valuesAfter disk file.path var := by
  intro disk'
  have hdisk : disk' = _ := disk_unlink hlink disk crypto
  rw [hdisk, (restoreLink_eq disk crypto link).1]
  obtain ⟨hother, hvalues, -, -⟩ :=
    restoreFiles_step (ProjectLinkRow.distinct_openedFiles hdistinct crypto) ⟨disk, [], false⟩
  exact ⟨hother, hvalues⟩

/-! ## The user's edits -/

/-- Every occurrence that did not have the written value still has the value it had. -/
def EditsKept (written : Str) (before after : List Str) : Prop :=
  ∀ (i : Nat) (v : Str), before[i]? = some v → v ≠ written → after[i]? = some v

/-- If the last occurrence still has the written value, every edited one has the value that was
    recorded for it. -/
def PriorVar.EditsRecorded (var : PriorVar) (values : List Str) : Prop :=
  var.Owns values →
    ∀ (i : Nat) (v : Str), values[i]? = some v → v ≠ var.written → var.target i = some v

theorem editsKept_restored {var : PriorVar} {values : List Str} :
    EditsKept var.written values (var.restored values) ↔ var.EditsRecorded values := by
  by_cases howns : var.Owns values
  · constructor
    · intro h _ i v hi hne
      rw [← getElem?_restored howns (List.getElem?_eq_some_iff.1 hi).1]
      exact h i v hi hne
    · intro h i v hi hne
      rw [getElem?_restored howns (List.getElem?_eq_some_iff.1 hi).1]
      exact h howns i v hi hne
  · rw [PriorVar.restored, if_neg howns]
    exact ⟨fun _ h => absurd h howns, fun _ _ _ hi _ => hi⟩

theorem editsKept_valuesAfter {disk : Disk} {path : Str} {var : PriorVar} :
    EditsKept var.written ((disk.file path).values var.key) (valuesAfter disk path var) ↔
      (disk.writeError path = none → var.EditsRecorded ((disk.file path).values var.key)) := by
  unfold valuesAfter
  split
  · rename_i hw
    rw [editsKept_restored]
    exact ⟨fun h _ => h, fun h => h hw⟩
  · rename_i hw
    exact ⟨fun _ h => absurd h hw, fun _ _ _ hi _ => hi⟩

/-- An unlink keeps the user's edits exactly when, in every file that it can write, each variable whose
    last occurrence still has the written value was edited at most to its recorded value. -/
theorem unlink_keeps_edits {db : Db} {link : ProjectLinkRow} {projectId prefix_ : Str}
    (hlink : findProjectLink db projectId prefix_ = some link) (hdistinct : Distinct link.files)
    (disk : Disk) (crypto : Option RestoreCrypto) :
    let disk' := (unlink disk db crypto projectId prefix_).1
    (∀ file ∈ link.files, ∀ var ∈ file.vars, EditsKept var.written
        ((disk.file file.path).values var.key) ((disk'.file file.path).values var.key)) ↔
      ∀ file ∈ link.openedFiles crypto, disk.writeError file.path = none →
        ∀ var ∈ file.vars, var.EditsRecorded ((disk.file file.path).values var.key) := by
  intro disk'
  obtain ⟨hother, hvalues⟩ := values_unlink hlink hdistinct disk crypto
  have hopened := link.openedFrom crypto
  constructor
  · intro h opened ho hw var hvar
    obtain ⟨file, hfile, hfrom⟩ := exists_left_of_forall₂ hopened ho
    obtain ⟨v, hv, hkey, hwritten⟩ := exists_left_of_forall₂ hfrom.vars hvar
    have hkept := h file (List.mem_of_mem_take hfile) v hv
    rw [← hfrom.path, ← hkey, ← hwritten, hvalues opened ho var hvar] at hkept
    exact editsKept_valuesAfter.1 hkept hw
  · intro h file hfile v hv
    by_cases hpath : file.path ∈ (link.openedFiles crypto).map PriorFile.path
    · obtain ⟨opened, ho, hp⟩ := List.mem_map.1 hpath
      obtain ⟨file', hfile', hfrom⟩ := exists_left_of_forall₂ hopened ho
      obtain rfl : file' = file := List.inj_on_of_nodup_map hdistinct.paths
        (List.mem_of_mem_take hfile') hfile (by rw [← hfrom.path, hp])
      obtain ⟨var, hvar, hkey, hwritten⟩ := exists_right_of_forall₂ hfrom.vars hv
      rw [← hfrom.path, ← hkey, ← hwritten, hvalues opened ho var hvar]
      exact editsKept_valuesAfter.2 fun hw => h opened ho hw var hvar
    · rw [show disk'.file file.path = disk.file file.path from hother _ hpath]
      exact fun _ _ hi _ => hi

/-- The URL that `groqLink` wrote. -/
def groqUrl : Str := "http://127.0.0.1:8787/p/web-1/groq".toList

/-- The link row of a `.env` that assigned `GROQ_BASE_URL` twice, `a` and then `b`. -/
def groqLink : ProjectLinkRow where
  linkSlug := "web-1".toList
  projectId := "p1".toList
  routePrefix := "groq".toList
  envPath := some ".env".toList
  priorEnv := some { v := 2, port := 8787, files := [{ path := ".env".toList, existed := true, vars :=
    [{ key := "GROQ_BASE_URL".toList, prior := none, sealed := some ⟨"b".toList⟩,
       priorWithheld := false, written := groqUrl, priorAll := [],
       sealedAll := [⟨"a".toList⟩, ⟨"b".toList⟩] }] }] }

def groqDb : Db where
  projects := ["p1".toList]
  routes := [⟨"groq".toList, "groq".toList, true, none⟩]
  links := [groqLink]
  port := some 8787

/-- Unlink `groqLink` when its file holds `content`. -/
def unlinkGroq (content : Str) : Disk × Db × Except CoreError UnlinkReport :=
  unlink (Disk.single ".env".toList content) groqDb (some plainCrypto) "p1".toList "groq".toList

/-- The values of `GROQ_BASE_URL` that an unlink leaves. -/
def leftByUnlink (content : Str) : List Str :=
  ((unlinkGroq content).1.file ".env".toList).values "GROQ_BASE_URL".toList

theorem groqLink_distinct : Distinct groqLink.files :=
  ⟨by decide, by decide⟩

theorem unlink_keeps_edits_groq :
    let disk := Disk.single ".env".toList ("GROQ_BASE_URL=a\nGROQ_BASE_URL=".toList ++ groqUrl)
    let disk' := (unlink disk groqDb (some plainCrypto) "p1".toList "groq".toList).1
    (∀ file ∈ groqLink.files, ∀ var ∈ file.vars, EditsKept var.written
        ((disk.file file.path).values var.key) ((disk'.file file.path).values var.key)) ↔
      ∀ file ∈ groqLink.openedFiles (some plainCrypto), disk.writeError file.path = none →
        ∀ var ∈ file.vars, var.EditsRecorded ((disk.file file.path).values var.key) :=
  unlink_keeps_edits rfl groqLink_distinct _ (some plainCrypto)

/-- The first of two assignments was edited after the link: the edit is overwritten. -/
theorem unlink_overwrites_edit :
    let content := "GROQ_BASE_URL=mine\nGROQ_BASE_URL=".toList ++ groqUrl ++ "\n".toList
    ¬EditsKept groqUrl
      (((Disk.single ".env".toList content).file ".env".toList).values "GROQ_BASE_URL".toList)
      (leftByUnlink content) := by
  intro content h
  have hkept := h 0 "mine".toList (by decide) (by decide)
  exact absurd hkept (by decide)

/-! ## The written values -/

/-- No written value is left by a restore that settles: either the last occurrence has it, and none of
    the recorded values is it, or no occurrence has it. -/
def PriorVar.Settles (var : PriorVar) (values : List Str) : Prop :=
  if values.getLast? = some var.written then ∀ i < values.length, var.target i ≠ some var.written
  else var.written ∉ values

theorem not_mem_restored {var : PriorVar} {values : List Str}
    (hwithheld : values.getLast? = some var.written → var.priorWithheld = false) :
    var.written ∉ var.restored values ↔ var.Settles values := by
  unfold PriorVar.restored PriorVar.Settles
  by_cases hlast : values.getLast? = some var.written
  · rw [if_pos (show var.Owns values from ⟨hlast, hwithheld hlast⟩), if_pos hlast]
    simp [List.mem_filterMap]
  · rw [if_neg fun h : var.Owns values => hlast h.1, if_neg hlast]

end Tethra.Gateway
