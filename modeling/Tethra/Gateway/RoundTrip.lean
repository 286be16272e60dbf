import Tethra.Gateway.LinkSlots

set_option autoImplicit false

/-! # Link and unlink one file

Restoring a file that was linked and not edited since is undoing the edits of its plan: every recorded
variable still has the value that was written. So the round trip is that of `Slots.restoreAll_linkAll`,
and it fails exactly where that one does: a tagged comment of the user's above a written variable is
taken for the link's own marker, and a spelling of `NO_PROXY` with several values gets the last one
everywhere, because only that one is recorded. -/

namespace Tethra.Gateway

open Text Slots Tethra.Core.EnvFile

/-! ## Sealing and opening -/

/-- A restore record says what the edit `it` says. -/
structure Records (var : PriorVar) (it : Item Str Str) : Prop where
  key : var.key = it.key
  prior : var.prior = it.prior
  all : var.priorAll = it.all
  written : var.written = it.written
  notWithheld : var.priorWithheld = false

theorem mapM_open_seal {crypto : RestoreCrypto} {slug path key : Str} {values : List Str}
    {cts : List SealedValue} (h : values.mapM (crypto.sealValue slug path key) = .ok cts) :
    cts.mapM (crypto.openValue slug path key) = .ok values := by
  induction values generalizing cts with
  | nil =>
      rw [List.mapM_nil] at h
      rw [← Except.ok.inj h]
      rfl
  | cons v values ih =>
      obtain ⟨ct, cts', hct, hcts, rfl⟩ := mapM_cons_eq_ok.1 h
      exact mapM_cons_eq_ok.2 ⟨v, values, crypto.open_seal hct, ih hcts, rfl⟩

/-- Opening a sealed record gives back what was recorded. -/
theorem open_sealPriorVar {crypto : RestoreCrypto} {slug path : Str} {it : Item Str Str}
    {sealedVar opened : PriorVar}
    (hs : sealPriorVar (some crypto) slug path (itemRecord it) = .ok sealedVar)
    (ho : openPriorVar (some crypto) slug path sealedVar = .ok opened) : Records opened it := by
  have hplain : ((itemRecord it).sealed.isSome || !(itemRecord it).sealedAll.isEmpty) = false := rfl
  unfold sealPriorVar at hs
  simp only [hplain, Bool.false_eq_true, if_false] at hs
  obtain ⟨one, hone, hs⟩ := bind_eq_ok.1 hs
  obtain ⟨all, hall, hs⟩ := bind_eq_ok.1 hs
  obtain rfl := Except.ok.inj hs
  have hopenAll := mapM_open_seal hall
  unfold openPriorVar at ho
  split at ho
  · -- nothing was sealed: the variable did not exist
    rename_i hnone
    obtain rfl := Except.ok.inj ho
    simp only [Bool.and_eq_true, Option.isNone_iff_eq_none, List.isEmpty_iff] at hnone
    obtain ⟨rfl, rfl⟩ := hnone
    have hprior : it.prior = none := by
      cases hp : it.prior with
      | none => rfl
      | some p =>
          simp only [itemRecord, PriorVar.fresh, hp, Option.mapM_some] at hone
          obtain ⟨ct, -, hct⟩ := bind_eq_ok.1 hone
          cases Except.ok.inj hct
    rw [List.mapM_nil] at hopenAll
    exact ⟨rfl, hprior.symm, Except.ok.inj hopenAll, rfl, rfl⟩
  · obtain ⟨prior, hprior, ho⟩ := bind_eq_ok.1 ho
    obtain ⟨priorAll, hpriorAll, ho⟩ := bind_eq_ok.1 ho
    obtain rfl := Except.ok.inj ho
    have hall' : priorAll = it.all := by
      have := hpriorAll.symm.trans hopenAll
      exact Except.ok.inj this
    refine ⟨rfl, ?_, hall', rfl, rfl⟩
    show prior = it.prior
    cases hp : it.prior with
    | none =>
        simp only [itemRecord, PriorVar.fresh, hp, Option.mapM_none] at hone
        obtain rfl := Except.ok.inj hone
        exact (Except.ok.inj hprior).symm
    | some p =>
        simp only [itemRecord, PriorVar.fresh, hp, Option.mapM_some] at hone
        obtain ⟨ct, hct, hone⟩ := bind_eq_ok.1 hone
        obtain rfl := Except.ok.inj hone
        have hopen : crypto.openValue slug path it.key ct = .ok p := crypto.open_seal hct
        simp only [openPrior, itemRecord, PriorVar.fresh, hopen] at hprior
        exact (Except.ok.inj hprior).symm

/-! ## Restoring is undoing the edits -/

theorem slots_restorePrior {var : PriorVar} {it : Item Str Str} (hr : Records var it) {m : Str}
    (hm : MarkerLine m) {W : Str → Bool} (hW : W it.key = true) {doc : EnvDocument}
    (h : doc.Faithful) (hk : validKey it.key = true) :
    (restorePrior var doc).slots W = restoreItem (marking hm) it (doc.slots W) ∧
      (restorePrior var doc).Faithful ∧
      (restorePrior var doc).trailingNewline = doc.trailingNewline := by
  unfold restorePrior restoreItem
  rw [hr.prior, hr.key, hr.all]
  cases it.prior with
  | none => exact ⟨slots_removeWithComment hW h, h.removeWithComment it.key, rfl⟩
  | some p =>
      simp only
      have htrail : ∀ d : EnvDocument,
          (d.removeMarkerAbove it.key).1.trailingNewline = d.trailingNewline := by
        intro d
        unfold EnvDocument.removeMarkerAbove
        split <;> rfl
      split
      · have hf := h.setEachOccurrence it.key it.all
        refine ⟨?_, hf.removeMarkerAbove it.key, ?_⟩
        · rw [slots_removeMarkerAbove hW hf, slots_setEachOccurrence hW]
          rfl
        · rw [htrail]
          unfold EnvDocument.setEachOccurrence
          split <;> rfl
      · have hf := h.set hk p
        refine ⟨?_, hf.removeMarkerAbove it.key, ?_⟩
        · rw [slots_removeMarkerAbove hW hf, slots_set hW]
          rfl
        · rw [htrail, trailingNewline_set]

/-- A variable that still has the written value is restored. -/
theorem restoreVar_written (path : Str) {st : RestoreState} {var : PriorVar} {it : Item Str Str}
    (hr : Records var it) (hcur : (st.doc.values it.key).getLast? = some it.written) :
    restoreVar path st var
      = ⟨restorePrior var st.doc, true, st.outcomes ++ [.restored path var.key]⟩ := by
  unfold restoreVar
  rw [get_value, hr.key, hcur]
  simp [hr.written, hr.notWithheld]

/-- Restoring variables that still have the written values undoes the edits. -/
theorem restoreVars_spec (path : Str) {m : Str} (hm : MarkerLine m) {W : Str → Bool}
    {vars : List PriorVar} {items : List (Item Str Str)} (hr : List.Forall₂ Records vars items)
    (hnodup : (items.map Item.key).Nodup) (hW : ∀ it ∈ items, W it.key = true)
    (hk : ∀ it ∈ items, validKey it.key = true) (st : RestoreState) (hf : st.doc.Faithful)
    (hcur : ∀ it ∈ items, (st.doc.values it.key).getLast? = some it.written) :
    let st' := vars.foldl (restoreVar path) st
    st'.doc.slots W = restoreAll (marking hm) items (st.doc.slots W) ∧ st'.doc.Faithful ∧
      st'.doc.trailingNewline = st.doc.trailingNewline ∧
      st'.changed = (st.changed || !items.isEmpty) := by
  induction hr generalizing st with
  | nil => exact ⟨rfl, hf, rfl, by simp⟩
  | @cons var it vars items hrec _ ih =>
      obtain ⟨hkey, hnodup'⟩ := List.nodup_cons.1 hnodup
      have hmem : it ∈ it :: items := List.mem_cons_self ..
      obtain ⟨hs, hf', ht⟩ := slots_restorePrior hrec hm (hW it hmem) hf (hk it hmem)
      have hcur' : ∀ i ∈ items, ((restorePrior var st.doc).values i.key).getLast?
          = some i.written := by
        intro i hi
        have hne : i.key ≠ it.key := fun h => hkey (h ▸ List.mem_map_of_mem hi)
        have hs' := (slots_restorePrior hrec hm (W := fun _ => true) rfl hf (hk it hmem)).1
        rw [← values_slots (W := fun _ => true) rfl, hs', values_restoreItem_ne _ hne,
          values_slots rfl]
        exact hcur i (List.mem_cons_of_mem _ hi)
      have hstep := restoreVar_written path hrec (hcur it hmem)
      obtain ⟨h1, h2, h3, h4⟩ := ih hnodup' (fun i hi => hW i (List.mem_cons_of_mem _ hi))
        (fun i hi => hk i (List.mem_cons_of_mem _ hi)) (restoreVar path st var)
        (by rw [hstep]; exact hf') (by rw [hstep]; exact hcur')
      simp only [List.foldl_cons]
      refine ⟨?_, h2, ?_, ?_⟩
      · rw [h1, hstep, hs]
        rfl
      · rw [h3, hstep, ht]
      · rw [h4, hstep]
        simp

/-! ## One file -/

/-- Link the variables of one file and unlink them again, with nothing in between. -/
def linkThenUnlink (crypto : RestoreCrypto) (disk : Disk) (slug path : Str) (vars : List Str)
    (baseUrl marker : Str) : Except CoreError RestoreResult := do
  let plan ← planFile disk path vars baseUrl marker none
  let sealed ← sealPriorFiles (some crypto) slug [plan.prior]
  let disk ← writePlanned disk plan
  match restoreFiles (some crypto) slug (mergePrior [] sealed)
    { disk, outcomes := [], anyFailure := false } with
  | (r, none) => pure r
  | (_, some e) => throw e

/-- The contents assign the same values, occurrence by occurrence, and the lines that assign no
    variable in `W` are the same. -/
def RoundTrips (W : Str → Bool) (before after : Str) : Prop :=
  (∀ key, (EnvDocument.parse after).values key = (EnvDocument.parse before).values key) ∧
    otherLines W after = otherLines W before

/-- The line above the first occurrence of `key` carries the ownership tag, or the last line of the
    file when there is none. -/
def markedAbove (d : EnvDocument) (key : Str) : Bool :=
  (linesBefore key d.lines).getLast?.any EnvLine.isMarker

/-- The files whose link can be undone: a spelling of `NO_PROXY` that the link extends has one value,
    and above no written variable stands a line that carries the ownership tag. -/
structure Restorable (vars : List Str) (d : EnvDocument) : Prop where
  oneValue : ∀ key ∈ proxyKeys d, needsEntries d key → ∀ v ∈ d.values key, v = effective d key
  untagged : ∀ key, Writes vars d key → markedAbove d key = false

theorem renderMarker_markerComment (providerId projectName : Str) :
    renderMarker (markerComment providerId projectName)
      = "# ".toList ++ markerComment providerId projectName := by
  have hhead : (trimStart (markerComment providerId projectName)).head? = some 't' := by
    rw [trimStart_of_noLeadingWs (by
      show NoLeadingWs ('t' :: _)
      rw [noLeadingWs_cons]
      decide)]
    rfl
  rw [renderMarker, hhead]
  rfl

/-- The marker of a provider and a project whose names are one line each is one line. -/
theorem markerLine_markerComment {providerId projectName : Str} (hp : '\n' ∉ providerId)
    (hn : '\n' ∉ projectName) : MarkerLine (renderMarker (markerComment providerId projectName)) := by
  have htrim : trim ("# ".toList ++ markerComment providerId projectName)
      = "# ".toList ++ markerComment providerId projectName := by
    refine trim_of_noWs ?_ ?_
    · show NoLeadingWs ('#' :: _)
      rw [noLeadingWs_cons]
      decide
    · intro c hc
      have hlast : ("# ".toList ++ markerComment providerId projectName).getLast? = some 's' := by
        simp only [markerComment, ← List.append_assoc]
        rw [List.getLast?_append]
        rfl
      obtain rfl : 's' = c := Option.some.inj (hlast ▸ hc)
      decide
  rw [renderMarker_markerComment]
  refine ⟨?_, ?_, ?_⟩
  · have htext : '\n' ∉ (") — remove this line if 127.0.0.1 refuses connections, "
        ++ "or run: tethra gateway status").toList := by decide
    have htag : '\n' ∉ "# ".toList ++ (gatewayMarkerTag ++ " route: ".toList) := by decide
    have hmid : '\n' ∉ " (project: ".toList := by decide
    intro h
    simp only [markerComment, List.mem_append] at h htag
    tauto
  · rw [htrim]
    rfl
  · rw [htrim, markerComment]
    refine ⟨"# ".toList, ?_, ?_⟩
    · exact " route: ".toList ++ providerId ++ " (project: ".toList ++ projectName
        ++ (") — remove this line if 127.0.0.1 refuses connections, "
          ++ "or run: tethra gateway status").toList
    · simp only [List.append_assoc]

/-! ## The pieces of the run -/

theorem open_sealPriorVars {crypto : RestoreCrypto} {slug path : Str}
    {items : List (Item Str Str)} {sealedVars opened : List PriorVar}
    (hs : (items.map itemRecord).mapM (sealPriorVar (some crypto) slug path) = .ok sealedVars)
    (ho : sealedVars.mapM (openPriorVar (some crypto) slug path) = .ok opened) :
    List.Forall₂ Records opened items := by
  induction items generalizing sealedVars opened with
  | nil =>
      rw [List.map_nil, List.mapM_nil] at hs
      obtain rfl := Except.ok.inj hs
      rw [List.mapM_nil] at ho
      obtain rfl := Except.ok.inj ho
      exact List.Forall₂.nil
  | cons it items ih =>
      obtain ⟨var, vars, hvar, hrest, rfl⟩ := mapM_cons_eq_ok.1 hs
      obtain ⟨var', vars', hvar', hrest', rfl⟩ := mapM_cons_eq_ok.1 ho
      exact List.Forall₂.cons (open_sealPriorVar hvar hvar') (ih hrest hrest')

theorem open_sealPriorFile {crypto : RestoreCrypto} {slug : Str} {items : List (Item Str Str)}
    {path : Str} {existed : Bool} {sealedFile opened : PriorFile}
    (hs : sealPriorFile (some crypto) slug ⟨path, existed, items.map itemRecord⟩ = .ok sealedFile)
    (ho : openPriorFile (some crypto) slug sealedFile = .ok opened) :
    opened.path = path ∧ opened.existed = existed ∧ List.Forall₂ Records opened.vars items := by
  obtain ⟨vars, hvars, hs⟩ := bind_eq_ok.1 hs
  obtain rfl := Except.ok.inj hs
  obtain ⟨vars', hvars', ho⟩ := bind_eq_ok.1 ho
  obtain rfl := Except.ok.inj ho
  exact ⟨rfl, rfl, open_sealPriorVars hvars hvars'⟩

theorem mergePrior_nil_singleton (file : PriorFile) : mergePrior [] [file] = [file] := by
  simp [mergePrior, mergeFile, Keyed.upsert]

/-- The plan of a regular file. -/
theorem planFile_regular {disk : Disk} {path content : Str}
    (hfile : disk.file path = .regular content) (vars : List Str) (baseUrl marker : Str) :
    let planned := planDocument vars baseUrl marker (EnvDocument.parse content)
    planFile disk path vars baseUrl marker none
      = .ok ⟨path, true, decide (planned.1.render ≠ content), planned.1.render, content,
          ⟨path, true, planned.2⟩⟩ := by
  have hread : readForPlan disk path none = .ok (true, content) := by
    unfold readForPlan
    rw [hfile]
  unfold planFile
  rw [hread]
  rfl

/-- Applying a plan of a regular file leaves the planned content in it. -/
theorem file_writePlanned {disk disk' : Disk} {plan : FilePlan}
    (hfile : disk.file plan.path = .regular plan.oldContent) (hexists : plan.exists_ = true)
    (hchanged : plan.changed = decide (plan.newContent ≠ plan.oldContent))
    (h : writePlanned disk plan = .ok disk') :
    disk'.file plan.path = .regular plan.newContent ∧ disk'.writeError = disk.writeError := by
  unfold writePlanned at h
  simp only [hexists, if_true] at h
  split at h
  · rename_i hsame
    obtain rfl := Except.ok.inj h
    have heq : plan.newContent = plan.oldContent := by simpa [hchanged] using hsame
    rw [hfile, heq]
    exact ⟨rfl, rfl⟩
  · unfold atomicWrite at h
    cases hw : disk.writeError plan.path with
    | some e =>
        rw [hw] at h
        cases h
    | none =>
        rw [hw] at h
        obtain rfl := Except.ok.inj h
        exact ⟨by simp [Disk.setFile], rfl⟩

/-- Restoring a regular file that existed before the link leaves the restored document in it. -/
theorem file_restoreFile (file : PriorFile) {r : RestoreResult} {content : Str}
    (hfile : r.disk.file file.path = .regular content) (hwrite : r.disk.writeError file.path = none)
    (hexisted : file.existed = true) :
    let st := restoreDocument file content
    (restoreFile r file).disk.file file.path
      = .regular (if st.changed then st.doc.render else content) := by
  intro st
  unfold restoreFile
  rw [hfile]
  show (writeRestored file st r).disk.file file.path = _
  unfold writeRestored
  cases hchanged : st.changed with
  | false => simpa using hfile
  | true => simp [hexisted, atomicWrite, hwrite, Disk.setFile]

theorem shown_values (t : Bool) (key : Str) (s : List EnvSlot) :
    Slots.values key (shown t s) = Slots.values key s := by
  unfold shown
  split
  · rfl
  · exact values_dropBlank key s

theorem shown_markers (t : Bool) (s : List EnvSlot) :
    markers isMarkerText (shown t s) = markers isMarkerText s := by
  unfold shown
  split
  · rfl
  · exact markers_dropBlank s

/-! ## What the run leaves -/

section Run

variable {crypto : RestoreCrypto} {disk : Disk} {slug path baseUrl marker content : Str}
  {vars : List Str}

theorem validKey_of_mem_linkItems (hvars : LinkVars vars) {d : EnvDocument} (hd : d.Faithful)
    {it : Item Str Str} (hit : it ∈ linkItems vars baseUrl d) : validKey it.key = true := by
  rcases mem_linkItems.1 hit with ⟨v, hv, rfl⟩ | ⟨-, rfl⟩ | ⟨k, hk, -, rfl⟩
  · exact hvars.valid v hv
  · exact validKey_noProxy
  · exact validKey_of_mem_proxyKeys hd hk

/-- Restoring a linked content undoes the edits of the link. -/
theorem contentSlots_restored (hvars : LinkVars vars) (hm : MarkerLine (renderMarker marker))
    {file : PriorFile} {W : Str → Bool} :
    let d := EnvDocument.parse content
    let items := linkItems vars baseUrl d
    let linked := (planDocument vars baseUrl marker d).1.render
    let st := restoreDocument file linked
    (∀ it ∈ items, W it.key = true) → List.Forall₂ Records file.vars items →
      contentSlots W (if st.changed then st.doc.render else linked)
        = shown d.trailingNewline (restoreAll (marking hm) items
            (linkAll (marking hm) items (d.slots W))) := by
  intro d items linked st hW hrec
  have hd : d.Faithful := faithful_parse content
  have hplan : Planned hm d items _ := planDocument_spec hvars hm hd
  have hclosed : (planDocument vars baseUrl marker d).1.lines = [] →
      (planDocument vars baseUrl marker d).1.trailingNewline = true := by
    intro hnil
    rw [hplan.trailing]
    exact trailingNewline_of_lines_nil (hplan.closed hnil)
  have hcur : ∀ it ∈ items, ((EnvDocument.parse linked).values it.key).getLast?
      = some it.written := by
    intro it hit
    obtain ⟨n, hn⟩ := values_linkAll_mem (marking hm) (nodup_linkItems hvars baseUrl d) hit
      (d.slots fun _ => true)
    rw [values_parse_render hplan.faithful, ← values_slots (W := fun _ => true) rfl,
      hplan.slots _ (fun _ _ => rfl), hn, List.getLast?_replicate, if_neg (Nat.succ_ne_zero n)]
  obtain ⟨hslots, hfaith, htrail, hchanged⟩ := restoreVars_spec file.path hm hrec
    (nodup_linkItems hvars baseUrl d) hW (fun it hit => validKey_of_mem_linkItems hvars hd hit)
    { doc := EnvDocument.parse linked, changed := false, outcomes := [] }
    (faithful_parse linked) hcur
  have hst : st = file.vars.foldl (restoreVar file.path)
      { doc := EnvDocument.parse linked, changed := false, outcomes := [] } := rfl
  rw [← hst] at hslots hfaith htrail hchanged
  rw [show st.changed = !items.isEmpty from hchanged]
  cases hitems : items with
  | nil =>
      -- nothing was linked, and the file is not written back
      have hplain := contentSlots_render W hplan.faithful
      rw [fileSlots_eq, hplan.trailing, hplan.slots W hW, hitems] at hplain
      exact hplain
  | cons it rest =>
      have hblank : ∀ s, (planDocument vars baseUrl marker d).1.slots W = s ++ [.other []] →
          restoreAll (marking hm) items (s ++ [.other []])
            = restoreAll (marking hm) items s ++ [.other []] := by
        intro s hs
        refine restoreAll_append_other _ (nodup_linkItems hvars baseUrl d) fun i hi _ => ?_
        obtain ⟨n, hn⟩ := values_linkAll_mem (marking hm) (nodup_linkItems hvars baseUrl d) hi
          (d.slots W)
        rw [← hplan.slots W hW, hs, values_append] at hn
        rw [present_iff_values]
        intro hnil
        simp [hnil] at hn
      have hedit := shown_edit_reparse (W := W) hplan.faithful hclosed hblank
      rw [hplan.trailing, hplan.slots W hW] at hedit
      have hne : items.isEmpty = false := by rw [hitems]; rfl
      rw [← hitems, ← hedit, hne, Bool.not_false, if_pos rfl, contentSlots_render W hfaith,
        fileSlots_eq, htrail, hslots]

/-- The run leaves the file with the edits of the link undone. -/
theorem contentSlots_linkThenUnlink (hvars : LinkVars vars)
    (hm : MarkerLine (renderMarker marker)) (hfile : disk.file path = .regular content)
    {r : RestoreResult} (hrun : linkThenUnlink crypto disk slug path vars baseUrl marker = .ok r)
    (hwrite : disk.writeError path = none) :
    let d := EnvDocument.parse content
    let items := linkItems vars baseUrl d
    ∃ after, r.disk.file path = .regular after ∧
      ∀ W : Str → Bool, (∀ it ∈ items, W it.key = true) →
        contentSlots W after = shown d.trailingNewline (restoreAll (marking hm) items
          (linkAll (marking hm) items (d.slots W))) := by
  intro d items
  have hplan : Planned hm d items _ := planDocument_spec hvars hm (faithful_parse content)
  obtain ⟨plan, hp, hsealed⟩ := bind_eq_ok.1 hrun
  obtain ⟨sealed, hseal, hwritten⟩ := bind_eq_ok.1 hsealed
  obtain ⟨disk', hdisk, hrestore⟩ := bind_eq_ok.1 hwritten
  rw [planFile_regular hfile] at hp
  obtain rfl := Except.ok.inj hp
  obtain ⟨hlinked, herror⟩ := file_writePlanned hfile rfl rfl hdisk
  obtain ⟨sealedFile, rest, hs, hnil, rfl⟩ := mapM_cons_eq_ok.1 hseal
  rw [show (planDocument vars baseUrl marker (EnvDocument.parse content)).2
    = items.map itemRecord from hplan.records] at hs
  rw [List.mapM_nil] at hnil
  obtain rfl := Except.ok.inj hnil
  rw [mergePrior_nil_singleton] at hrestore
  rw [restoreFiles] at hrestore
  cases ho : openPriorFile (some crypto) slug sealedFile with
  | error e =>
      rw [ho] at hrestore
      cases hrestore
  | ok opened =>
      rw [ho] at hrestore
      obtain rfl := Except.ok.inj hrestore
      obtain ⟨hpath, hexisted, hrec⟩ := open_sealPriorFile hs ho
      have hrestored := file_restoreFile opened
        (r := { disk := disk', outcomes := [], anyFailure := false }) (hpath ▸ hlinked)
        (by rw [hpath, ← hwrite, ← herror]) hexisted
      rw [hpath] at hrestored
      exact ⟨_, hrestored, fun W hW => contentSlots_restored hvars hm hW hrec⟩

theorem markedAbove_eq {d : EnvDocument} (hd : d.Faithful) {W : Str → Bool} {key : Str}
    (hW : W key = true) : markerAbove isMarkerText key (d.slots W) = markedAbove d key :=
  markerAbove_slots hW fun l hl => (hd l hl).slot_isMarker W

instance (vars : List Str) (d : EnvDocument) (key : Str) : Decidable (Writes vars d key) :=
  inferInstanceAs (Decidable (_ ∨ _ ∨ _))

/-- The variables that linking a content writes. -/
def written (vars : List Str) (content : Str) (key : Str) : Bool :=
  decide (Writes vars (EnvDocument.parse content) key)

theorem written_of_mem {it : Item Str Str}
    (hit : it ∈ linkItems vars baseUrl (EnvDocument.parse content)) :
    written vars content it.key = true :=
  decide_eq_true ((writes_iff baseUrl).2 ⟨it, hit, rfl⟩)

/-- Only a spelling of `NO_PROXY` that occurs is edited without a marker. -/
theorem present_of_unmarked {d : EnvDocument} {it : Item Str Str}
    (hit : it ∈ linkItems vars baseUrl d) (hmark : it.marked = false) {W : Str → Bool}
    (hW : W it.key = true) : present it.key (d.slots W) = true := by
  rw [present_iff_values, values_slots hW]
  rcases mem_linkItems.1 hit with ⟨v, hv, rfl⟩ | ⟨hnone, rfl⟩ | ⟨k, hk, hn, rfl⟩
  · cases hmark
  · cases hmark
  · exact (mem_proxyKeys.1 hk).1

/-- The record of a variable describes its values. -/
theorem restores_varItem (d : EnvDocument) (v : Str) {s : List EnvSlot}
    (hs : Slots.values v s = d.values v) : (varItem baseUrl d v).Restores s := by
  unfold Item.Restores varItem
  simp only [hs]
  cases hlast : (d.values v).getLast? with
  | none => exact List.getLast?_eq_none_iff.1 hlast
  | some p =>
      have hne : d.values v ≠ [] := by
        rintro hnil
        simp [hnil] at hlast
      refine ⟨hne, ?_⟩
      by_cases hlen : 1 < (d.values v).length
      · simp [hlen]
      · have hone : (d.values v).length = 1 := by
          have := List.length_pos_iff.2 hne
          omega
        obtain ⟨w, hw⟩ := List.length_eq_one_iff.1 hone
        simp only [hw, List.getLast?_singleton, Option.some.injEq] at hlast
        simp [hw, hlast]

/-- The edits on a restorable file can be undone. -/
theorem undoable_of_restorable (hvars : LinkVars vars) (hm : MarkerLine (renderMarker marker))
    (h : Restorable vars (EnvDocument.parse content)) :
    Undoable (marking hm) (linkItems vars baseUrl (EnvDocument.parse content))
      ((EnvDocument.parse content).slots (written vars content)) where
  nodup := nodup_linkItems hvars baseUrl _
  restores it hit := by
    have hvalues := values_slots (written_of_mem hit) (EnvDocument.parse content)
    rcases mem_linkItems.1 hit with ⟨v, hv, rfl⟩ | ⟨hnone, rfl⟩ | ⟨k, hk, hn, rfl⟩
    · exact restores_varItem _ v hvalues
    · show Slots.values "NO_PROXY".toList _ = []
      refine hvalues.trans ?_
      by_contra hne
      have := mem_proxyKeys.2 ⟨hne, isNoProxy_noProxy⟩
      rw [hnone] at this
      cases this
    · have hvalues' : Slots.values k _ = (EnvDocument.parse content).values k := hvalues
      show Slots.values k _ ≠ [] ∧ ∀ v ∈ Slots.values k _, v = effective _ k
      rw [hvalues']
      exact ⟨(mem_proxyKeys.1 hk).1, h.oneValue k hk hn⟩
  clear it hit := by
    show markerAbove isMarkerText _ _ = false
    rw [markedAbove_eq (faithful_parse content) (written_of_mem hit)]
    exact h.untagged _ ((writes_iff baseUrl).2 ⟨it, hit, rfl⟩)
  marked it hit hmark := present_of_unmarked hit hmark (written_of_mem hit)

end Run

/-- A cipher that keeps the text as it is. -/
def plainCrypto : RestoreCrypto where
  sealValue _ _ _ value := .ok ⟨value⟩
  openValue _ _ _ ct := .ok ct.ct
  open_seal h := by rw [← Except.ok.inj h]

/-- A disk with one regular file, in which every write succeeds. -/
def Disk.single (path content : Str) : Disk where
  file := Function.update (fun _ => .missing) path (.regular content)
  writeError _ := none

theorem Disk.file_single (path content : Str) :
    (Disk.single path content).file path = .regular content := by
  simp [Disk.single]

/-- Link `GROQ_BASE_URL` in `.env` and unlink it again. -/
def roundTripGroq (content : String) : Except CoreError RestoreResult :=
  linkThenUnlink plainCrypto (Disk.single ".env".toList content.toList) "web-1".toList ".env".toList
    ["GROQ_BASE_URL".toList] "http://127.0.0.1:8787/p/web-1/groq".toList
    (markerComment "groq".toList "web".toList)

/-- What the run leaves in `.env`. -/
def leftIn (run : Except CoreError RestoreResult) : Option FileState :=
  run.toOption.map fun r => r.disk.file ".env".toList

end Tethra.Gateway
