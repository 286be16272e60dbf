import Tethra.Gateway.Manifests
import Tethra.Gateway.Unlink

set_option autoImplicit false

/-! # Applying a link

What `applyLink` leaves in the link table: the row of the pair, its slug, and the merged record. The
record has an entry for every variable that the plan writes (`hasRecord_mergePrior`), and it keeps its
paths and keys distinct (`distinct_mergePrior`), so that an unlink can rely on it. -/

namespace Tethra.Gateway

open Text Slots Tethra.Core.EnvFile

/-! ## Merging records -/

/-- The records have an entry for a variable of a file. -/
def HasRecord (files : List PriorFile) (path key : Str) : Prop :=
  ∃ file ∈ files, file.path = path ∧ key ∈ file.vars.map PriorVar.key

theorem mem_keys_mergeVars {vars fresh : List PriorVar} {key : Str} :
    key ∈ (mergeVars vars fresh).map PriorVar.key ↔
      key ∈ vars.map PriorVar.key ∨ key ∈ fresh.map PriorVar.key := by
  induction fresh generalizing vars with
  | nil => simp [mergeVars]
  | cons v fresh ih =>
      have hstep : key ∈ (mergeVar vars v).map PriorVar.key
          ↔ key ∈ vars.map PriorVar.key ∨ key = v.key := by
        refine Keyed.mem_keys_upsert ?_ rfl
        exact fun _ h => h
      rw [mergeVars, List.foldl_cons, ← mergeVars, ih, hstep, List.map_cons, List.mem_cons, or_assoc]

theorem nodup_mergeVars {vars : List PriorVar} (h : (vars.map PriorVar.key).Nodup)
    (fresh : List PriorVar) : ((mergeVars vars fresh).map PriorVar.key).Nodup := by
  induction fresh generalizing vars with
  | nil => exact h
  | cons v fresh ih =>
      refine ih (Keyed.nodup_keys_upsert ?_ rfl h)
      exact fun _ hk => hk

theorem hasRecord_mergeFile {files : List PriorFile} {fresh : PriorFile} {path key : Str}
    (h : HasRecord files path key ∨ (fresh.path = path ∧ key ∈ fresh.vars.map PriorVar.key)) :
    HasRecord (mergeFile files fresh) path key := by
  rcases h with ⟨file, hfile, hpath, hkey⟩ | ⟨hpath, hkey⟩
  · refine ⟨_, Keyed.mem_upsert_of_mem hfile, ?_⟩
    split
    · exact ⟨hpath, mem_keys_mergeVars.2 (.inl hkey)⟩
    · exact ⟨hpath, hkey⟩
  · have hmerged : (∃ x ∈ files, x.path = fresh.path ∧
        { x with vars := mergeVars x.vars fresh.vars } ∈ mergeFile files fresh) ∨
        fresh ∈ mergeFile files fresh := Keyed.exists_mem_upsert ..
    rcases hmerged with ⟨file, _, hp, hmem⟩ | hmem
    · exact ⟨_, hmem, hp.trans hpath, mem_keys_mergeVars.2 (.inr hkey)⟩
    · exact ⟨fresh, hmem, hpath, hkey⟩

theorem hasRecord_foldl_mergeFile {fresh files : List PriorFile} {path key : Str}
    (h : HasRecord files path key ∨ HasRecord fresh path key) :
    HasRecord (fresh.foldl mergeFile files) path key := by
  induction fresh generalizing files with
  | nil =>
      rcases h with h | ⟨_, hmem, -⟩
      · exact h
      · cases hmem
  | cons file fresh ih =>
      rw [List.foldl_cons]
      rcases h with h | ⟨f, hf, hpath, hkey⟩
      · exact ih (.inl (hasRecord_mergeFile (.inl h)))
      · rcases List.mem_cons.1 hf with rfl | hf
        · exact ih (.inl (hasRecord_mergeFile (.inr ⟨hpath, hkey⟩)))
        · exact ih (.inr ⟨f, hf, hpath, hkey⟩)

/-- Every fresh record is in the merged ones. -/
theorem hasRecord_mergePrior (stored : List PriorFile) {fresh : List PriorFile} {path key : Str}
    (h : HasRecord fresh path key) : HasRecord (mergePrior stored fresh) path key := by
  obtain ⟨file, hfile, hpath, hkey⟩ : HasRecord (fresh.foldl mergeFile (stored.foldl insertFile []))
      path key := hasRecord_foldl_mergeFile (.inr h)
  exact ⟨file, (List.mem_insertionSort _).2 hfile, hpath, hkey⟩

theorem Distinct.upsert {files : List PriorFile} (h : Distinct files) {fresh : PriorFile}
    (hfresh : (fresh.vars.map PriorVar.key).Nodup) {f : PriorFile → PriorFile}
    (hpath : ∀ x : PriorFile, x.path = fresh.path → (f x).path = fresh.path)
    (hkeys : ∀ x ∈ files, ((f x).vars.map PriorVar.key).Nodup) :
    Distinct (Keyed.upsert PriorFile.path fresh.path f fresh files) where
  paths := Keyed.nodup_keys_upsert hpath rfl h.paths
  keys file hfile := by
    rcases Keyed.mem_upsert hfile with hmem | ⟨x, hx, -, rfl⟩ | rfl
    · exact h.keys file hmem
    · exact hkeys x hx
    · exact hfresh

/-- Merging records whose variables are distinct in each file gives a record that names each path
    once and each variable once in a file. -/
theorem distinct_mergePrior {stored fresh : List PriorFile}
    (hstored : ∀ f ∈ stored, (f.vars.map PriorVar.key).Nodup)
    (hfresh : ∀ f ∈ fresh, (f.vars.map PriorVar.key).Nodup) :
    Distinct (mergePrior stored fresh) := by
  have hinsert : ∀ files, Distinct files → Distinct (stored.foldl insertFile files) := by
    induction stored with
    | nil => exact fun _ h => h
    | cons f stored ih =>
        intro files h
        have hf := hstored f (List.mem_cons_self ..)
        exact ih (fun g hg => hstored g (List.mem_cons_of_mem _ hg)) _
          (h.upsert hf (fun _ _ => rfl) fun _ _ => hf)
  have hmerge : ∀ files, Distinct files → Distinct (fresh.foldl mergeFile files) := by
    induction fresh with
    | nil => exact fun _ h => h
    | cons f fresh ih =>
        intro files h
        exact ih (fun g hg => hfresh g (List.mem_cons_of_mem _ hg)) _
          (h.upsert (hfresh f (List.mem_cons_self ..)) (fun _ hx => hx)
            fun x hx => nodup_mergeVars (h.keys x hx) f.vars)
  have hall := hmerge _ (hinsert [] ⟨List.nodup_nil, fun _ h => by cases h⟩)
  have hperm := List.perm_insertionSort (fun a b : PriorFile => a.path ≤ b.path)
    (fresh.foldl mergeFile (stored.foldl insertFile []))
  exact ⟨((hperm.map PriorFile.path).nodup_iff).2 hall.paths,
    fun f hf => hall.keys f (hperm.mem_iff.1 hf)⟩

/-! ## Sealing keeps what the records are about -/

theorem sealPriorVar_key {crypto : Option RestoreCrypto} {slug path : Str} {var sealedVar : PriorVar}
    (h : sealPriorVar crypto slug path var = .ok sealedVar) : sealedVar.key = var.key := by
  unfold sealPriorVar at h
  simp only at h
  split at h
  · rw [← Except.ok.inj h]
  · cases crypto with
    | none =>
        rw [← Except.ok.inj h]
        split <;> rfl
    | some c =>
        obtain ⟨one, -, hall⟩ := bind_eq_ok.1 h
        obtain ⟨all, -, hpure⟩ := bind_eq_ok.1 hall
        rw [← Except.ok.inj hpure]

theorem sealPriorFile_same {crypto : Option RestoreCrypto} {slug : Str} {file sealedFile : PriorFile}
    (h : sealPriorFile crypto slug file = .ok sealedFile) :
    sealedFile.path = file.path ∧
      sealedFile.vars.map PriorVar.key = file.vars.map PriorVar.key := by
  obtain ⟨vars, hvars, hpure⟩ := bind_eq_ok.1 h
  obtain rfl := Except.ok.inj hpure
  exact ⟨rfl, (map_eq_of_forall₂ (forall₂_of_mapM hvars) fun _ _ h => (sealPriorVar_key h).symm).symm⟩

/-- Sealing keeps the entries. -/
theorem hasRecord_sealPriorFiles {crypto : Option RestoreCrypto} {slug : Str}
    {files sealedFiles : List PriorFile} (h : sealPriorFiles crypto slug files = .ok sealedFiles)
    {path key : Str} (hrec : HasRecord files path key) : HasRecord sealedFiles path key := by
  obtain ⟨file, hfile, hpath, hkey⟩ := hrec
  obtain ⟨sealedFile, hs, hsame⟩ := exists_right_of_forall₂ (forall₂_of_mapM h) hfile
  obtain ⟨hp, hk⟩ := sealPriorFile_same hsame
  exact ⟨sealedFile, hs, hp.trans hpath, hk ▸ hkey⟩

/-! ## Plans -/

/-- Every variable of the link is recorded. -/
theorem mem_keys_planDocument {vars : List Str} (baseUrl marker : Str) (doc : EnvDocument) {key : Str}
    (h : key ∈ vars) : key ∈ (planDocument vars baseUrl marker doc).2.map PriorVar.key := by
  have hproxy : ∀ (keys : List Str) (st : EnvDocument × List PriorVar),
      key ∈ st.2.map PriorVar.key → key ∈ (keys.foldl planProxyKey st).2.map PriorVar.key := by
    intro keys
    induction keys with
    | nil => exact fun _ h => h
    | cons k keys ih =>
        intro st hst
        refine ih _ ?_
        unfold planProxyKey
        simp only
        split
        · rw [List.map_append]
          exact List.mem_append_left _ hst
        · exact hst
  have hvars : ∀ (vs : List Str) (st : EnvDocument × List PriorVar),
      key ∈ vs ∨ key ∈ st.2.map PriorVar.key →
        key ∈ (vs.foldl (planVar baseUrl marker) st).2.map PriorVar.key := by
    intro vs
    induction vs with
    | nil => exact fun _ h => h.resolve_left (by simp)
    | cons v vs ih =>
        intro st hst
        refine ih _ ?_
        rw [List.mem_cons] at hst
        rcases hst with (rfl | hst) | hst
        · exact .inr (by simp [planVar, PriorVar.fresh])
        · exact .inl hst
        · exact .inr (by
            rw [planVar, List.map_append]
            exact List.mem_append_left _ hst)
  have hall := hvars vars (doc, []) (.inl h)
  unfold planDocument planNoProxy
  split
  · rw [List.map_append]
    exact List.mem_append_left _ hall
  · exact hproxy _ _ hall

theorem planFile_eq_ok {disk : Disk} {path : Str} {vars : List Str} {baseUrl marker : Str}
    {projected : Option Str} {file : FilePlan}
    (h : planFile disk path vars baseUrl marker projected = .ok file) :
    file.path = path ∧ file.prior.path = path ∧ file.prior.vars
      = (planDocument vars baseUrl marker (EnvDocument.parse file.oldContent)).2 := by
  unfold planFile at h
  obtain ⟨⟨exists_, old⟩, -, hpure⟩ := bind_eq_ok.1 h
  obtain rfl := Except.ok.inj hpure
  exact ⟨rfl, rfl, rfl⟩

/-- What a plan that was computed with a fixed slug is. -/
structure PlannedWith (env : Env) (disk : Disk) (db : Db) (req : LinkRequest) (slug : Str)
    (plan : LinkPlan) : Prop where
  linkSlug : plan.linkSlug = slug
  route : ∃ custom, routeProvider db req.routePrefix = some (plan.providerId, custom)
  existing : plan.existingLink = (findProjectLink db req.projectId req.routePrefix).isSome
  vars : linkVars env plan.providerId req.varOverride = .ok plan.vars
  baseUrl : plan.baseUrl = linkBaseUrl env plan.port slug req.routePrefix plan.providerId
  files : ∀ file ∈ plan.files, planFile disk file.path plan.vars plan.baseUrl
    (markerComment plan.providerId req.projectName) none = .ok file

theorem planFiles_eq_ok {disk : Disk} {paths : List Str} {vars : List Str} {baseUrl marker : Str}
    {files : List FilePlan}
    (h : paths.mapM (fun path => planFile disk path vars baseUrl marker none) = .ok files) :
    ∀ file ∈ files, planFile disk file.path vars baseUrl marker none = .ok file := by
  intro file hfile
  obtain ⟨path, -, hplan⟩ := exists_left_of_forall₂ (forall₂_of_mapM h) hfile
  rw [(planFile_eq_ok hplan).1]
  exact hplan

theorem plannedWith_of_planLink {env : Env} {disk : Disk} {db : Db} {req : LinkRequest} {fresh : Str}
    {plan : LinkPlan} (h : planLink env disk db req fresh = .ok plan) :
    PlannedWith env disk db req plan.linkSlug plan := by
  unfold planLink at h
  split at h
  · cases h
  · rename_i providerId custom hroute
    unfold planLinkAsProvider at h
    obtain ⟨vars, hvars, hrest⟩ := bind_eq_ok.1 h
    split at hrest
    · cases hrest
    · obtain ⟨paths, -, hplans⟩ := bind_eq_ok.1 hrest
      obtain ⟨files, hfiles, hpure⟩ := bind_eq_ok.1 hplans
      obtain rfl := Except.ok.inj hpure
      exact ⟨rfl, ⟨custom, hroute⟩, rfl, hvars, rfl, planFiles_eq_ok hfiles⟩

theorem plannedWith_of_planLinkWithSlug {env : Env} {disk : Disk} {db : Db} {req : LinkRequest}
    {slug fresh : Str} {plan : LinkPlan}
    (h : planLinkWithSlug env disk db req slug fresh = .ok plan) :
    PlannedWith env disk db req slug plan := by
  unfold planLinkWithSlug at h
  obtain ⟨first, hfirst, hrest⟩ := bind_eq_ok.1 h
  have hplan := plannedWith_of_planLink hfirst
  obtain ⟨custom, hroute⟩ := hplan.route
  split at hrest
  · rename_i hslug
    obtain rfl := Except.ok.inj hrest
    rwa [hslug] at hplan
  · rw [hroute] at hrest
    obtain ⟨paths, -, hplans⟩ := bind_eq_ok.1 hrest
    obtain ⟨files, hfiles, hpure⟩ := bind_eq_ok.1 hplans
    obtain rfl := Except.ok.inj hpure
    exact ⟨rfl, hplan.route, hplan.existing, hplan.vars, rfl, planFiles_eq_ok hfiles⟩

/-- The base URL determines the slug. -/
theorem linkBaseUrl_inj {env : Env} {port : Nat} {slug slug' prefix_ providerId : Str}
    (h : linkBaseUrl env port slug prefix_ providerId
      = linkBaseUrl env port slug' prefix_ providerId) : slug = slug' := by
  unfold linkBaseUrl at h
  exact List.append_cancel_left (List.append_cancel_right (List.append_cancel_right h))

/-! ## What applying leaves -/

theorem file_writePlanned_ne {disk disk' : Disk} {plan : FilePlan}
    (h : writePlanned disk plan = .ok disk') {path : Str} (hne : path ≠ plan.path) :
    disk'.file path = disk.file path := by
  unfold writePlanned at h
  split at h
  · rw [← Except.ok.inj h]
  · split at h
    · unfold atomicWrite at h
      split at h
      · cases h
      · rw [← Except.ok.inj h]
        exact Function.update_of_ne hne ..
    · unfold writeNew at h
      split at h
      · cases h
      · rw [← Except.ok.inj h]
        exact Function.update_of_ne hne ..
      · cases h

theorem file_writePlanned_changed {disk disk' : Disk} {plan : FilePlan} (hc : plan.changed = true)
    (h : writePlanned disk plan = .ok disk') :
    disk'.file plan.path = .regular plan.newContent := by
  unfold writePlanned at h
  simp only [hc, Bool.not_true, Bool.false_eq_true, if_false] at h
  split at h
  · unfold atomicWrite at h
    split at h
    · cases h
    · rw [← Except.ok.inj h]
      exact Function.update_self ..
  · unfold writeNew at h
    split at h
    · cases h
    · rw [← Except.ok.inj h]
      exact Function.update_self ..
    · cases h

/-- Writing planned files, where two plans of one path are the same, leaves each in its file. -/
theorem file_writePlans {files : List FilePlan} {disk disk' : Disk}
    (hsame : ∀ f ∈ files, ∀ g ∈ files, f.path = g.path → f = g)
    (h : files.foldlM writePlanned disk = .ok disk') :
    ∀ file ∈ files, file.changed = true → disk'.file file.path = .regular file.newContent := by
  have hkeep : ∀ (rest : List FilePlan) (d d' : Disk) (file : FilePlan), file.changed = true →
      (∀ g ∈ rest, file.path = g.path → file = g) → rest.foldlM writePlanned d = .ok d' →
      d.file file.path = .regular file.newContent → d'.file file.path = .regular file.newContent := by
    intro rest
    induction rest with
    | nil =>
        intro d d' file _ _ hd hfile
        obtain rfl := Except.ok.inj hd
        exact hfile
    | cons g rest ih =>
        intro d d' file hc hsame hd hfile
        rw [List.foldlM_cons] at hd
        obtain ⟨d₁, hd₁, hrest⟩ := bind_eq_ok.1 hd
        refine ih d₁ d' file hc (fun g hg => hsame g (List.mem_cons_of_mem _ hg)) hrest ?_
        by_cases hpath : file.path = g.path
        · obtain rfl := hsame g (List.mem_cons_self ..) hpath
          exact file_writePlanned_changed hc hd₁
        · rw [file_writePlanned_ne hd₁ hpath]
          exact hfile
  induction files generalizing disk with
  | nil => exact fun _ hf => by cases hf
  | cons f files ih =>
      intro file hfile hc
      rw [List.foldlM_cons] at h
      obtain ⟨d₁, hd₁, hrest⟩ := bind_eq_ok.1 h
      have hsame' : ∀ f ∈ files, ∀ g ∈ files, f.path = g.path → f = g := fun a ha b hb =>
        hsame a (List.mem_cons_of_mem _ ha) b (List.mem_cons_of_mem _ hb)
      rcases List.mem_cons.1 hfile with rfl | hfile
      · exact hkeep files d₁ disk' _ hc
          (fun g hg => hsame _ (List.mem_cons_self ..) g (List.mem_cons_of_mem _ hg)) hrest
          (file_writePlanned_changed hc hd₁)
      · exact ih hsame' hrest file hfile hc

/-- The link table has a row for the pair, its slug is the one in the base URL of the plan, and its
    record has an entry for every variable that the plan writes. -/
def LinkConsistent (env : Env) (req : LinkRequest) (plan : LinkPlan) (db : Db) : Prop :=
  ∃ row ∈ db.links, row.isFor req.projectId req.routePrefix = true ∧
    plan.baseUrl = linkBaseUrl env plan.port row.linkSlug req.routePrefix plan.providerId ∧
    ∀ file ∈ plan.files, ∀ key, key ∈ plan.vars ∨ key ∈ file.prior.vars.map PriorVar.key →
      HasRecord row.files file.path key

/-- The parts of a successful apply. -/
theorem applyLink_eq_ok {env : Env} {disk disk' : Disk} {db db' : Db}
    {crypto : Option RestoreCrypto} {req : LinkRequest} {approved : LinkPlan} {fresh : Str}
    {prior : PriorEnv}
    (h : applyLink env disk db crypto req approved fresh = .ok (disk', db', prior)) :
    ∃ plan db₁ sealedFiles stored,
      planLinkWithSlug env disk db req approved.linkSlug fresh = .ok plan ∧
      ensureLinkRow db req plan = .ok db₁ ∧
      sealPriorFiles crypto plan.linkSlug (plan.files.map FilePlan.prior) = .ok sealedFiles ∧
      existingPrior db₁ crypto plan.linkSlug = .ok stored ∧
      prior = ⟨priorEnvVersion, plan.port, mergePrior stored sealedFiles⟩ ∧
      db' = updateLinkEnv db₁ plan.linkSlug (plan.files.head?.map FilePlan.path) (some prior) ∧
      plan.files.foldlM writePlanned disk = .ok disk' := by
  unfold applyLink at h
  obtain ⟨plan, hplan, hdigest⟩ := bind_eq_ok.1 h
  split at hdigest
  · cases hdigest
  · obtain ⟨db₁, hdb, hseal⟩ := bind_eq_ok.1 hdigest
    obtain ⟨sealedFiles, hsealed, hexisting⟩ := bind_eq_ok.1 hseal
    obtain ⟨stored, hstored, hwrite⟩ := bind_eq_ok.1 hexisting
    obtain ⟨disk₁, hdisk, hpure⟩ := bind_eq_ok.1 hwrite
    obtain ⟨rfl, hpair⟩ := Prod.mk.inj (Except.ok.inj hpure)
    obtain ⟨rfl, rfl⟩ := Prod.mk.inj hpair
    exact ⟨plan, db₁, sealedFiles, stored, hplan, hdb, hsealed, hstored, rfl, rfl, hdisk⟩

/-- The rows of the pair, before and after. -/
theorem ensureLinkRow_eq_ok {db db₁ : Db} {req : LinkRequest} {plan : LinkPlan}
    (h : ensureLinkRow db req plan = .ok db₁) :
    (plan.existingLink = true ∧ db₁ = db) ∨
      (plan.existingLink = false ∧ (∀ row ∈ db.links, row.linkSlug ≠ plan.linkSlug) ∧
        db₁.links = db.links ++ [⟨plan.linkSlug, req.projectId, req.routePrefix, none, none⟩]) := by
  unfold ensureLinkRow at h
  cases hexisting : plan.existingLink with
  | true =>
      rw [hexisting] at h
      exact .inl ⟨rfl, (Except.ok.inj h).symm⟩
  | false =>
      rw [hexisting] at h
      simp only [Bool.not_false, if_true, addProjectLinkWithSlug] at h
      split at h
      · cases h
      · split at h
        · cases h
        · rename_i htaken
          split at h
          · obtain rfl := Except.ok.inj h
            refine .inr ⟨rfl, fun row hrow hslug => htaken ?_, rfl⟩
            exact List.any_eq_true.2 ⟨row, hrow, by simp [hslug]⟩
          · cases h

theorem isFor_iff {projectId prefix_ : Str} {row : ProjectLinkRow} :
    row.isFor projectId prefix_ = true ↔ (row.projectId, row.routePrefix) = (projectId, prefix_) := by
  simp [ProjectLinkRow.isFor]

/-- A pair has one row. -/
theorem Db.WellFormed.unique {db : Db} (hdb : db.WellFormed) {projectId prefix_ : Str}
    {row row' : ProjectLinkRow} (hrow : row ∈ db.links) (hrow' : row' ∈ db.links)
    (h : row.isFor projectId prefix_ = true) (h' : row'.isFor projectId prefix_ = true) :
    row = row' :=
  List.inj_on_of_nodup_map hdb.pair hrow hrow' ((isFor_iff.1 h).trans (isFor_iff.1 h').symm)

theorem findProjectLink_isSome {db : Db} {projectId prefix_ : Str} :
    (findProjectLink db projectId prefix_).isSome = true ↔
      ∃ row ∈ db.links, row.isFor projectId prefix_ = true := by
  rw [findProjectLink, List.find?_isSome]

/-- The planned records are in the merged ones. -/
theorem hasRecord_of_planned {env : Env} {disk : Disk} {db : Db} {req : LinkRequest} {slug : Str}
    {plan : LinkPlan} (hspec : PlannedWith env disk db req slug plan)
    {crypto : Option RestoreCrypto} {sealedFiles : List PriorFile}
    (hseal : sealPriorFiles crypto plan.linkSlug (plan.files.map FilePlan.prior) = .ok sealedFiles)
    (stored : List PriorFile) {file : FilePlan} (hfile : file ∈ plan.files) {key : Str}
    (hkey : key ∈ plan.vars ∨ key ∈ file.prior.vars.map PriorVar.key) :
    HasRecord (mergePrior stored sealedFiles) file.path key := by
  obtain ⟨-, hpath, hvars⟩ := planFile_eq_ok (hspec.files file hfile)
  have hrecorded : key ∈ file.prior.vars.map PriorVar.key := by
    rcases hkey with hkey | hkey
    · rw [hvars]
      exact mem_keys_planDocument _ _ _ hkey
    · exact hkey
  exact hasRecord_mergePrior stored
    (hasRecord_sealPriorFiles hseal ⟨file.prior, List.mem_map_of_mem hfile, hpath, hrecorded⟩)

/-- After a successful apply the link table is consistent with the plan exactly when a row that the
    pair had before had the slug of the approved plan. -/
theorem applyLink_consistent {env : Env} {disk disk' : Disk} {db db' : Db} (hdb : db.WellFormed)
    {crypto : Option RestoreCrypto} {req : LinkRequest} {approved : LinkPlan} {fresh : Str}
    {prior : PriorEnv}
    (h : applyLink env disk db crypto req approved fresh = .ok (disk', db', prior)) :
    ∃ plan, planLinkWithSlug env disk db req approved.linkSlug fresh = .ok plan ∧
      (∀ file ∈ plan.files, planFile disk file.path plan.vars plan.baseUrl
          (markerComment plan.providerId req.projectName) none = .ok file ∧
        (file.changed = true → disk'.file file.path = .regular file.newContent)) ∧
      (LinkConsistent env req plan db' ↔
        ∀ row ∈ db.links, row.isFor req.projectId req.routePrefix = true →
          row.linkSlug = approved.linkSlug) := by
  obtain ⟨plan, db₁, sealedFiles, stored, hplan, hensure, hseal, hstored, hprior, rfl, hwrite⟩ :=
    applyLink_eq_ok h
  have hspec := plannedWith_of_planLinkWithSlug hplan
  have hsame : ∀ f ∈ plan.files, ∀ g ∈ plan.files, f.path = g.path → f = g := by
    intro f hf g hg hpath
    have hf' := hspec.files f hf
    rw [hpath, hspec.files g hg] at hf'
    exact (Except.ok.inj hf').symm
  refine ⟨plan, hplan, fun file hfile => ⟨hspec.files file hfile,
    file_writePlans hsame hwrite file hfile⟩, ?_⟩
  constructor
  · rintro ⟨row, hrow, hfor, hurl, -⟩ old hold hfor'
    have hslug : row.linkSlug = approved.linkSlug :=
      linkBaseUrl_inj (hurl.symm.trans hspec.baseUrl)
    have hsome : plan.existingLink = true := by
      rw [hspec.existing]
      exact findProjectLink_isSome.2 ⟨old, hold, hfor'⟩
    rcases ensureLinkRow_eq_ok hensure with ⟨-, rfl⟩ | ⟨hnone, -⟩
    · obtain ⟨x, hx, rfl⟩ := Keyed.mem_modify.1 hrow
      -- the update changes neither the pair nor the slug of a row
      have hxfor : x.isFor req.projectId req.routePrefix = true := by
        split at hfor <;> exact hfor
      have hxslug : x.linkSlug = approved.linkSlug := by
        split at hslug <;> exact hslug
      rw [hdb.unique hold hx hfor' hxfor, hxslug]
    · rw [hsome] at hnone
      cases hnone
  · intro hslug
    have hrow : ∃ row ∈ db₁.links, row.isFor req.projectId req.routePrefix = true ∧
        row.linkSlug = plan.linkSlug := by
      rcases ensureLinkRow_eq_ok hensure with ⟨hsome, rfl⟩ | ⟨-, -, hlinks⟩
      · rw [hspec.existing] at hsome
        obtain ⟨row, hrow, hfor⟩ := findProjectLink_isSome.1 hsome
        exact ⟨row, hrow, hfor, (hslug row hrow hfor).trans hspec.linkSlug.symm⟩
      · refine ⟨⟨plan.linkSlug, req.projectId, req.routePrefix, none, none⟩, ?_, ?_, rfl⟩
        · rw [hlinks]
          exact List.mem_append_right _ (List.mem_singleton_self _)
        · simp [ProjectLinkRow.isFor]
    obtain ⟨row, hmem, hfor, hs⟩ := hrow
    refine ⟨_, Keyed.mem_modify.2 ⟨row, hmem, rfl⟩, ?_⟩
    rw [if_pos hs]
    refine ⟨hfor, ?_, ?_⟩
    · rw [hspec.baseUrl, ← hspec.linkSlug, ← hs]
    · intro file hfile key hkey
      show HasRecord prior.files file.path key
      rw [hprior]
      exact hasRecord_of_planned hspec hseal stored hfile hkey

/-! ## An apply on a changed link table -/

/-- The manifests, and a hash that keeps its input. -/
def manifestEnv : Env where
  gateway := manifestSection
  blake3 parts := parts.flatMap fun part => Nat.toDigits 10 part.length ++ ':' :: part

/-- Link `p1` to the `groq` route in `.env`. -/
def groqRequest : LinkRequest where
  projectId := "p1".toList
  projectName := "web".toList
  routePrefix := "groq".toList
  projectDir := none
  files := [".env".toList]
  varOverride := none

/-- The database of `groqDb` with the links `links`. -/
def groqDbWith (links : List ProjectLinkRow) : Db := { groqDb with links }

/-- Plan on a database without links, with the fresh slug `web-1`, and apply on one with `links`. -/
def applyGroq (links : List ProjectLinkRow) :
    Except CoreError (LinkPlan × Disk × Db × PriorEnv) := do
  let disk := Disk.single ".env".toList "A=1\n".toList
  let approved ← planLink manifestEnv disk (groqDbWith []) groqRequest "web-1".toList
  let applied ← applyLink manifestEnv disk (groqDbWith links) (some plainCrypto) groqRequest approved
    "web-3".toList
  pure (approved, applied)

theorem applyGroq_eq_ok {links : List ProjectLinkRow} {r : LinkPlan × Disk × Db × PriorEnv}
    (h : applyGroq links = .ok r) :
    planLink manifestEnv (Disk.single ".env".toList "A=1\n".toList) (groqDbWith []) groqRequest
        "web-1".toList = .ok r.1 ∧
      applyLink manifestEnv (Disk.single ".env".toList "A=1\n".toList) (groqDbWith links)
        (some plainCrypto) groqRequest r.1 "web-3".toList = .ok r.2 := by
  obtain ⟨approved, hplan, hrest⟩ := bind_eq_ok.1 h
  obtain ⟨applied, hdone, hpure⟩ := bind_eq_ok.1 hrest
  obtain rfl := Except.ok.inj hpure
  exact ⟨hplan, hdone⟩

/-- The row that another setup inserted meanwhile, with a slug of its own. -/
def groqOtherLink : ProjectLinkRow :=
  ⟨"web-2".toList, "p1".toList, "groq".toList, none, none⟩

theorem applyLink_consistent_groq :
    ∃ approved disk db prior,
      applyLink manifestEnv (Disk.single ".env".toList "A=1\n".toList) (groqDbWith [])
        (some plainCrypto) groqRequest approved "web-3".toList = .ok (disk, db, prior) ∧
      ∃ plan, planLinkWithSlug manifestEnv (Disk.single ".env".toList "A=1\n".toList) (groqDbWith [])
          groqRequest approved.linkSlug "web-3".toList = .ok plan ∧
        LinkConsistent manifestEnv groqRequest plan db := by
  obtain ⟨⟨approved, disk, db, prior⟩, happly, -⟩ := exists_ok_of_map (by decide +kernel :
    (applyGroq []).toOption.map (fun r => r.1.linkSlug) = some "web-1".toList)
  have hdone := (applyGroq_eq_ok happly).2
  obtain ⟨plan, hplan, -, hiff⟩ := applyLink_consistent ⟨by decide, by decide⟩ hdone
  exact ⟨approved, disk, db, prior, hdone, plan, hplan, hiff.2 fun _ hrow => by cases hrow⟩

/-- The pair got a row with another slug since the preview: the apply succeeds, and no row of the pair
    has the slug that was written. -/
theorem applyLink_other_slug :
    ∃ approved disk db prior,
      planLink manifestEnv (Disk.single ".env".toList "A=1\n".toList) (groqDbWith []) groqRequest
        "web-1".toList = .ok approved ∧
      applyLink manifestEnv (Disk.single ".env".toList "A=1\n".toList) (groqDbWith [groqOtherLink])
        (some plainCrypto) groqRequest approved "web-3".toList = .ok (disk, db, prior) ∧
      ¬∃ row ∈ db.links, row.isFor groqRequest.projectId groqRequest.routePrefix = true ∧
        row.linkSlug = approved.linkSlug := by
  obtain ⟨⟨approved, disk, db, prior⟩, happly, hout⟩ := exists_ok_of_map (by decide +kernel :
    (applyGroq [groqOtherLink]).toOption.map (fun r => (r.2.2.1.links, r.1.linkSlug))
      = some ([groqOtherLink], "web-1".toList))
  obtain ⟨hplan, hdone⟩ := applyGroq_eq_ok happly
  obtain ⟨hlinks, hslug⟩ := Prod.mk.inj hout
  refine ⟨approved, disk, db, prior, hplan, hdone, ?_⟩
  simp only at hlinks hslug
  rw [hlinks, hslug]
  decide

/-! ## The invariants of the link table -/

/-- Every record of the link table names each path once, and each variable once in a file. -/
def Db.RecordsDistinct (db : Db) : Prop := ∀ row ∈ db.links, Distinct row.files

theorem Db.WellFormed.ensureLinkRow {db db₁ : Db} (hdb : db.WellFormed) {req : LinkRequest}
    {plan : LinkPlan}
    (hexisting : plan.existingLink = (findProjectLink db req.projectId req.routePrefix).isSome)
    (h : Gateway.ensureLinkRow db req plan = .ok db₁) : db₁.WellFormed := by
  rcases ensureLinkRow_eq_ok h with ⟨-, rfl⟩ | ⟨hnone, hslug, hlinks⟩
  · exact hdb
  · have hpair : ∀ row ∈ db.links, row.isFor req.projectId req.routePrefix ≠ true := by
      intro row hrow hfor
      rw [hexisting, findProjectLink_isSome.2 ⟨row, hrow, hfor⟩] at hnone
      cases hnone
    refine ⟨?_, ?_⟩
    · rw [hlinks, List.map_append, List.map_singleton]
      refine hdb.slug.append (List.nodup_singleton _) ?_
      simpa using hslug
    · rw [hlinks, List.map_append, List.map_singleton]
      refine hdb.pair.append (List.nodup_singleton _) ?_
      rw [List.disjoint_singleton]
      intro hmem
      obtain ⟨row, hrow, heq⟩ := List.mem_map.1 hmem
      exact hpair row hrow (isFor_iff.2 heq)

theorem Db.WellFormed.modify {db : Db} (hdb : db.WellFormed) (slug : Str)
    {g : ProjectLinkRow → ProjectLinkRow} (hslug : ∀ row, (g row).linkSlug = row.linkSlug)
    (hpair : ∀ row, ((g row).projectId, (g row).routePrefix) = (row.projectId, row.routePrefix)) :
    { db with links := Keyed.modify ProjectLinkRow.linkSlug slug g db.links }.WellFormed where
  slug := by
    rw [Keyed.keys_modify fun row h => (hslug row).trans h]
    exact hdb.slug
  pair := by
    have hpairs : (Keyed.modify ProjectLinkRow.linkSlug slug g db.links).map
        (fun row => (row.projectId, row.routePrefix))
        = db.links.map fun row => (row.projectId, row.routePrefix) := by
      unfold Keyed.modify
      rw [List.map_map]
      refine List.map_congr_left fun row _ => ?_
      rw [Function.comp_apply]
      split
      · exact hpair row
      · rfl
    rw [hpairs]
    exact hdb.pair

/-- Applying a link keeps the constraints of the link table. -/
theorem Db.WellFormed.applyLink {env : Env} {disk disk' : Disk} {db db' : Db} (hdb : db.WellFormed)
    {crypto : Option RestoreCrypto} {req : LinkRequest} {approved : LinkPlan} {fresh : Str}
    {prior : PriorEnv}
    (h : Gateway.applyLink env disk db crypto req approved fresh = .ok (disk', db', prior)) :
    db'.WellFormed := by
  obtain ⟨plan, db₁, -, -, hplan, hensure, -, -, -, rfl, -⟩ := applyLink_eq_ok h
  exact (hdb.ensureLinkRow (plannedWith_of_planLinkWithSlug hplan).existing hensure).modify _ (fun _ => rfl)
    fun _ => rfl

end Tethra.Gateway
