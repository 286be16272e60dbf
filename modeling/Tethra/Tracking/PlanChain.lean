import Tethra.Gateway.ApplyLink
import Tethra.Gateway.WireText

set_option autoImplicit false

/-! # Plans that are approved together (`tracking/src/plan.rs`)

The providers of a setup are planned one over the other: each over what the plans before it would leave
in the files. The approved plans are applied in the same order, and each is planned again on the disk.
The two computations read the same contents (`Agrees`), so each digest is the approved one. -/

namespace Tethra.Tracking

open Gateway Core.EnvFile

/-! ## The planner's loop and the apply's loop -/

/-- The project that is set up; a new one has no id yet at the review. -/
structure PlannedProject where
  id : Str
  name : Str
  folder : Str

/-- A provider of the selection; `fresh` is the slug that `new_link_slug` draws for it. -/
structure SelectedProvider where
  providerId : Str
  targetEnvFiles : List Str
  fresh : Str

/-- `Path::join`. -/
def joinPath (folder rel : Str) : Str :=
  if folder = [] ∨ rel.head? = some '/' then rel
  else if folder.getLast? = some '/' then folder ++ rel
  else folder ++ '/' :: rel

def SelectedProvider.request (project : PlannedProject) (s : SelectedProvider) : LinkRequest where
  projectId := project.id
  projectName := project.name
  routePrefix := s.providerId
  projectDir := some project.folder
  files := s.targetEnvFiles.map (joinPath project.folder)
  varOverride := none

/-- The contents that the plan would leave replace the ones so far. -/
def projectPlan (projected : List (Str × Str)) (files : List FilePlan) : List (Str × Str) :=
  files.foldl (fun projected file => (file.path, file.newContent) :: projected) projected

/-- The link plans of the selected providers, each over the projected output of the ones before. -/
def planLinks (env : Env) (disk : Disk) (db : Db) (project : PlannedProject)
    (portOverride : Option Nat) :
    List (Str × Str) → List SelectedProvider → Except CoreError (List LinkPlan)
  | _, [] => .ok []
  | projected, s :: selected => do
      let plan ← planLinkAsProvider env disk db (s.request project) s.providerId portOverride projected
        s.fresh
      let plans ← planLinks env disk db project portOverride (projectPlan projected plan.files) selected
      return plan :: plans

/-- The request that the apply makes of an approved plan. -/
def applyRequest (project : PlannedProject) (plan : LinkPlan) : LinkRequest where
  projectId := project.id
  projectName := project.name
  routePrefix := plan.routePrefix
  projectDir := some project.folder
  files := plan.files.map FilePlan.path
  varOverride := none

/-- Apply approved plans in their order; beside each the slug that its planning again would draw. -/
def applyLinks (env : Env) (crypto : Option RestoreCrypto) (project : PlannedProject) :
    Disk → Db → List (LinkPlan × Str) → Except CoreError (Disk × Db)
  | disk, db, [] => .ok (disk, db)
  | disk, db, (plan, fresh) :: plans => do
      let (disk, db, _) ← applyLink env disk db crypto (applyRequest project plan) plan fresh
      applyLinks env crypto project disk db plans

/-! ## The digest's input -/

/-- What the digest says about a file. -/
def digestFields (file : FilePlan) : Str × Str × Str := (file.path, file.oldContent, file.newContent)

/-- The bytes that `plan_digest` feeds to the hasher. -/
def digestInput (slug : Str) (files : List FilePlan) : List UInt8 :=
  Framing.frames ((slug :: files.flatMap fun p => [p.path, p.oldContent, p.newContent]).map utf8)

/-- A hash of length-prefixed fields. -/
def framedHash (hash : List UInt8 → Str) (fields : List Str) : Str := hash (Framing.frames (fields.map utf8))

theorem planDigest_framed {env : Env} {hash : List UInt8 → Str} (henv : env.blake3 = framedHash hash)
    (slug : Str) (files : List FilePlan) :
    planDigest env slug files = hash (digestInput slug files) := by
  unfold planDigest
  rw [henv]
  rfl

/-- The digest's input of plans whose texts fit into the length prefix. -/
def DigestFits (slug : Str) (files : List FilePlan) : Prop :=
  ∀ field ∈ slug :: files.flatMap fun p => [p.path, p.oldContent, p.newContent],
    Framing.Fits (utf8 field)

theorem flatMap_digestFields (files : List FilePlan) :
    (files.flatMap fun p => [p.path, p.oldContent, p.newContent])
      = (files.map digestFields).flatMap fun f => [f.1, f.2.1, f.2.2] := by
  rw [List.flatMap_map]
  rfl

theorem digestFields_of_flatMap {as bs : List (Str × Str × Str)}
    (h : (as.flatMap fun f => [f.1, f.2.1, f.2.2]) = bs.flatMap fun f => [f.1, f.2.1, f.2.2]) :
    as = bs := by
  induction as generalizing bs with
  | nil =>
      cases bs with
      | nil => rfl
      | cons b bs => simp at h
  | cons a as ih =>
      cases bs with
      | nil => simp at h
      | cons b bs =>
          simp only [List.flatMap_cons, List.cons_append, List.nil_append, List.cons.injEq] at h
          obtain ⟨hpath, hold, hnew, hrest⟩ := h
          rw [ih hrest, Prod.ext hpath (Prod.ext hold hnew)]

/-- Plans with the same digest input have the same slug, and the same paths and contents. -/
theorem digestInput_inj {slug slug' : Str} {files files' : List FilePlan}
    (hfits : DigestFits slug files) (hfits' : DigestFits slug' files')
    (h : digestInput slug files = digestInput slug' files') :
    slug = slug' ∧ files.map digestFields = files'.map digestFields := by
  have hframes : ∀ {slug : Str} {files : List FilePlan}, DigestFits slug files →
      ∀ b ∈ (slug :: files.flatMap fun p => [p.path, p.oldContent, p.newContent]).map utf8,
        Framing.Fits b := by
    intro slug files hfits b hb
    obtain ⟨field, hfield, rfl⟩ := List.mem_map.1 hb
    exact hfits field hfield
  have hbytes := Framing.frames_inj (hframes hfits) (hframes hfits') h
  have hfields := List.map_injective_iff.2 (fun _ _ hb => utf8_inj hb) hbytes
  obtain ⟨hslug, hfiles⟩ := List.cons.inj hfields
  rw [flatMap_digestFields, flatMap_digestFields] at hfiles
  exact ⟨hslug, digestFields_of_flatMap hfiles⟩

/-- The digest depends on the slug, the paths and the contents only. -/
theorem planDigest_congr (env : Env) {slug : Str} {files files' : List FilePlan}
    (h : files.map digestFields = files'.map digestFields) :
    planDigest env slug files = planDigest env slug files' := by
  unfold planDigest
  rw [flatMap_digestFields, flatMap_digestFields, h]

/-! ## Reading the disk as the projection -/

/-- Planning reads from the later disk what the review read from the projection over the first one. -/
structure Agrees (disk : Disk) (projected : List (Str × Str)) (later : Disk) : Prop where
  read (path : Str) : (readForPlan later path none).map Prod.snd
    = (readForPlan disk path (projected.lookup path)).map Prod.snd
  directory (path : Str) : later.file path = .directory ↔ disk.file path = .directory

theorem Agrees.refl (disk : Disk) : Agrees disk [] disk := ⟨fun _ => rfl, fun _ => Iff.rfl⟩

/-- A planned file is determined by the content that was read. -/
theorem planFile_eq (disk : Disk) (path : Str) (vars : List Str) (baseUrl marker : Str)
    (projected : Option Str) :
    (planFile disk path vars baseUrl marker projected).map digestFields
      = ((readForPlan disk path projected).map Prod.snd).map fun old =>
          (path, old, (planDocument vars baseUrl marker (EnvDocument.parse old)).1.render) := by
  unfold planFile
  cases readForPlan disk path projected with
  | error e => rfl
  | ok r => rfl

theorem planFile_ok_of_read {disk disk' : Disk} {path : Str} {projected projected' : Option Str}
    (hread : (readForPlan disk' path projected').map Prod.snd
      = (readForPlan disk path projected).map Prod.snd)
    {vars : List Str} {baseUrl marker : Str} {file : FilePlan}
    (h : planFile disk path vars baseUrl marker projected = .ok file) (baseUrl' : Str) :
    ∃ file', planFile disk' path vars baseUrl' marker projected' = .ok file' ∧
      (baseUrl' = baseUrl → digestFields file' = digestFields file) := by
  have hfields := planFile_eq disk path vars baseUrl marker projected
  have hfields' := planFile_eq disk' path vars baseUrl' marker projected'
  rw [hread] at hfields'
  rw [h] at hfields
  cases hold : (readForPlan disk path projected).map Prod.snd with
  | error e =>
      rw [hold] at hfields
      cases hfields
  | ok old =>
      rw [hold] at hfields hfields'
      obtain ⟨file', hfile', hf⟩ : ∃ file', planFile disk' path vars baseUrl' marker projected' = .ok file' ∧
          digestFields file'
            = (path, old, (planDocument vars baseUrl' marker (EnvDocument.parse old)).1.render) := by
        cases hplan : planFile disk' path vars baseUrl' marker projected' with
        | error e =>
            rw [hplan] at hfields'
            cases hfields'
        | ok file' =>
            rw [hplan] at hfields'
            exact ⟨file', rfl, Except.ok.inj hfields'⟩
      refine ⟨file', hfile', ?_⟩
      rintro rfl
      rw [hf]
      exact (Except.ok.inj hfields).symm

/-- The files of a plan, planned again on the later disk. -/
theorem planFiles_again {disk later : Disk} {projected : List (Str × Str)}
    (hagrees : Agrees disk projected later) {paths : List Str} {vars : List Str} {baseUrl marker : Str}
    {files : List FilePlan}
    (h : paths.mapM (fun path => planFile disk path vars baseUrl marker (projected.lookup path))
      = .ok files) (baseUrl' : Str) :
    ∃ files', paths.mapM (fun path => planFile later path vars baseUrl' marker none) = .ok files' ∧
      (baseUrl' = baseUrl → files'.map digestFields = files.map digestFields) := by
  induction paths generalizing files with
  | nil =>
      rw [List.mapM_nil] at h
      obtain rfl := Except.ok.inj h
      exact ⟨[], rfl, fun _ => rfl⟩
  | cons path paths ih =>
      obtain ⟨file, rest, hfile, hrest, rfl⟩ := mapM_cons_eq_ok.1 h
      obtain ⟨file', hfile', hf⟩ := planFile_ok_of_read (hagrees.read path) hfile baseUrl'
      obtain ⟨rest', hrest', hr⟩ := ih hrest
      refine ⟨file' :: rest', mapM_cons_eq_ok.2 ⟨file', rest', hfile', hrest', rfl⟩, ?_⟩
      intro hurl
      rw [List.map_cons, List.map_cons, hf hurl, hr hurl]

/-- The parts of a plan over a projection. -/
structure PlannedOver (env : Env) (disk : Disk) (db : Db) (req : LinkRequest) (providerId : Str)
    (projected : List (Str × Str)) (plan : LinkPlan) : Prop where
  prefix_ : plan.routePrefix = req.routePrefix
  provider : plan.providerId = providerId
  vars : linkVars env providerId req.varOverride = .ok plan.vars
  baseUrl : plan.baseUrl = linkBaseUrl env plan.port plan.linkSlug req.routePrefix providerId
  files : (plan.files.map FilePlan.path).mapM (fun path => planFile disk path plan.vars plan.baseUrl
    (markerComment providerId req.projectName) (projected.lookup path)) = .ok plan.files
  paths : plan.files ≠ []
  digest : plan.digest = planDigest env plan.linkSlug plan.files

theorem paths_of_planFiles {disk : Disk} {projected : List (Str × Str)} {paths : List Str}
    {vars : List Str} {baseUrl marker : Str} {files : List FilePlan}
    (h : paths.mapM (fun path => planFile disk path vars baseUrl marker (projected.lookup path))
      = .ok files) : files.map FilePlan.path = paths := by
  have hpaths := map_eq_of_forall₂ (g := FilePlan.path) (f := id) (forall₂_of_mapM h)
    fun path file hfile => (planFile_eq_ok hfile).1.symm
  rw [← hpaths, List.map_id]

theorem resolveFiles_ne_nil {disk : Disk} {req : LinkRequest} {paths : List Str}
    (h : resolveFiles disk req = .ok paths) : paths ≠ [] := by
  unfold resolveFiles at h
  split at h
  · split at h
    · cases h
    · split at h
      · rw [← Except.ok.inj h]
        simp
      · cases h
  · rename_i hne
    split at h
    · cases h
    · rw [← Except.ok.inj h]
      exact hne

theorem plannedOver_of_ok {env : Env} {disk : Disk} {db : Db} {req : LinkRequest} {providerId : Str}
    {portOverride : Option Nat} {projected : List (Str × Str)} {fresh : Str} {plan : LinkPlan}
    (h : planLinkAsProvider env disk db req providerId portOverride projected fresh = .ok plan) :
    PlannedOver env disk db req providerId projected plan := by
  unfold planLinkAsProvider at h
  obtain ⟨vars, hvars, hrest⟩ := bind_eq_ok.1 h
  split at hrest
  · cases hrest
  · obtain ⟨paths, hpaths, hplans⟩ := bind_eq_ok.1 hrest
    obtain ⟨files, hfiles, hpure⟩ := bind_eq_ok.1 hplans
    obtain rfl := Except.ok.inj hpure
    have hmap : files.map FilePlan.path = paths := paths_of_planFiles hfiles
    refine ⟨rfl, rfl, hvars, rfl, ?_, ?_, rfl⟩
    · show (files.map FilePlan.path).mapM _ = Except.ok files
      rw [hmap]
      exact hfiles
    · show files ≠ []
      rintro rfl
      exact resolveFiles_ne_nil hpaths hmap.symm

theorem PlannedOver.file {env : Env} {disk : Disk} {db : Db} {req : LinkRequest} {providerId : Str}
    {projected : List (Str × Str)} {plan : LinkPlan}
    (h : PlannedOver env disk db req providerId projected plan) : ∀ file ∈ plan.files,
      planFile disk file.path plan.vars plan.baseUrl (markerComment providerId req.projectName)
        (projected.lookup file.path) = .ok file := by
  intro file hfile
  obtain ⟨path, -, hplanned⟩ := exists_left_of_forall₂ (forall₂_of_mapM h.files) hfile
  rw [(planFile_eq_ok hplanned).1]
  exact hplanned

/-! ## Planning again -/

theorem not_directory_of_planFile {disk : Disk} {path : Str} {vars : List Str} {baseUrl marker : Str}
    {file : FilePlan} (h : planFile disk path vars baseUrl marker none = .ok file) :
    disk.file path ≠ .directory := by
  intro hdir
  unfold planFile readForPlan at h
  rw [hdir] at h
  cases h

theorem resolveFiles_again {later : Disk} {project : PlannedProject} {plan : LinkPlan}
    (hne : plan.files ≠ []) (hfiles : ∀ file ∈ plan.files, later.file file.path ≠ .directory) :
    resolveFiles later (applyRequest project plan) = .ok (plan.files.map FilePlan.path) := by
  have hnone : (plan.files.map FilePlan.path).find? (fun f => later.file f = .directory) = none := by
    rw [List.find?_eq_none]
    intro path hpath
    obtain ⟨file, hfile, rfl⟩ := List.mem_map.1 hpath
    simpa using hfiles file hfile
  unfold resolveFiles
  simp only [applyRequest]
  split
  · rename_i hnil
    exact absurd (List.map_eq_nil_iff.1 hnil) hne
  · rw [hnone]

/-- An approved plan, planned again with its slug when the disk has come to its projection, has the
    approved digest and the same paths and contents. -/
theorem planLinkWithSlug_again {env : Env} {disk later : Disk} {db db' : Db} {req : LinkRequest}
    {providerId : Str} {projected : List (Str × Str)} {plan : LinkPlan}
    (hplan : PlannedOver env disk db req providerId projected plan) (hoverride : req.varOverride = none)
    (hagrees : Agrees disk projected later) {project : PlannedProject}
    (hname : project.name = req.projectName) {custom : Bool}
    (hroute : routeProvider db' plan.routePrefix = some (providerId, custom))
    (hport : db'.port = some plan.port) (fresh : Str) :
    ∃ again, planLinkWithSlug env later db' (applyRequest project plan) plan.linkSlug fresh = .ok again ∧
      again.digest = plan.digest ∧ again.files.map digestFields = plan.files.map digestFields := by
  let url := fun slug => linkBaseUrl env plan.port slug plan.routePrefix providerId
  let marker := markerComment providerId project.name
  have hfiles := hplan.files
  rw [← hname] at hfiles
  have hurl : url plan.linkSlug = plan.baseUrl := by
    rw [hplan.baseUrl, ← hplan.prefix_]
  have hvars : linkVars env providerId none = .ok plan.vars := by
    rw [← hoverride]
    exact hplan.vars
  have hresolve : resolveFiles later (applyRequest project plan) = .ok (plan.files.map FilePlan.path) := by
    refine resolveFiles_again hplan.paths fun file hfile => ?_
    obtain ⟨files', hfiles', -⟩ := planFiles_again hagrees hfiles plan.baseUrl
    obtain ⟨file', -, hfile'⟩ := exists_right_of_forall₂ (forall₂_of_mapM hfiles')
      (List.mem_map_of_mem hfile)
    exact not_directory_of_planFile hfile'
  -- The slug of the first planning is the one of the pair's row, or a new one.
  let slug := ((findProjectLink db' project.id plan.routePrefix).map ProjectLinkRow.linkSlug).getD fresh
  obtain ⟨first, hfirst, -⟩ := planFiles_again hagrees hfiles (url slug)
  obtain ⟨files, hagain, hfields⟩ := planFiles_again hagrees hfiles (url plan.linkSlug)
  have hfields := hfields hurl
  have hlink : planLink env later db' (applyRequest project plan) fresh = .ok
      { projectId := project.id, projectName := project.name, routePrefix := plan.routePrefix,
        providerId, linkSlug := slug,
        existingLink := (findProjectLink db' project.id plan.routePrefix).isSome,
        port := plan.port, baseUrl := url slug, vars := plan.vars, files := first,
        digest := planDigest env slug first } := by
    have hselect : routeProvider db' (applyRequest project plan).routePrefix
        = some (providerId, custom) := hroute
    have hwrites : linkVars env providerId (applyRequest project plan).varOverride = .ok plan.vars :=
      hvars
    unfold planLink planLinkAsProvider
    rw [hselect]
    refine bind_eq_ok.2 ⟨plan.vars, hwrites, ?_⟩
    rw [hport]
    exact bind_eq_ok.2 ⟨_, hresolve, bind_eq_ok.2 ⟨first, hfirst, rfl⟩⟩
  have hdigest : planDigest env plan.linkSlug files = plan.digest := by
    rw [hplan.digest]
    exact planDigest_congr env hfields
  unfold planLinkWithSlug
  rw [hlink]
  by_cases hslug : slug = plan.linkSlug
  · have hsame : first = files := by
      rw [hslug, hagain] at hfirst
      exact (Except.ok.inj hfirst).symm
    refine ⟨_, if_pos hslug, ?_, ?_⟩
    · rw [hslug, hsame]
      exact hdigest
    · rw [hsame]
      exact hfields
  · refine ⟨{ projectId := project.id, projectName := project.name, routePrefix := plan.routePrefix,
              providerId, linkSlug := plan.linkSlug,
              existingLink := (findProjectLink db' project.id plan.routePrefix).isSome,
              port := plan.port, baseUrl := url plan.linkSlug, vars := plan.vars, files,
              digest := planDigest env plan.linkSlug files }, ?_, hdigest, hfields⟩
    have hselect : routeProvider db' (applyRequest project plan).routePrefix
        = some (providerId, custom) := hroute
    refine (if_neg hslug).trans ?_
    rw [hselect]
    exact bind_eq_ok.2 ⟨_, hresolve, bind_eq_ok.2 ⟨files, hagain, rfl⟩⟩

/-! ## Applying one plan -/

/-- A path that no changed plan is for keeps its file. -/
theorem file_writePlans_same {files : List FilePlan} {disk disk' : Disk} {path : Str}
    (hsame : ∀ file ∈ files, file.path = path → file.changed = false)
    (h : files.foldlM writePlanned disk = .ok disk') : disk'.file path = disk.file path := by
  induction files generalizing disk with
  | nil => rw [← Except.ok.inj h]
  | cons f files ih =>
      rw [List.foldlM_cons] at h
      obtain ⟨d, hd, hrest⟩ := bind_eq_ok.1 h
      rw [ih (fun g hg => hsame g (List.mem_cons_of_mem _ hg)) hrest]
      by_cases hpath : f.path = path
      · have hunchanged := hsame f (List.mem_cons_self ..) hpath
        unfold writePlanned at hd
        simp only [hunchanged, Bool.not_false, if_true] at hd
        rw [← Except.ok.inj hd]
      · exact file_writePlanned_ne hd (Ne.symm hpath)

theorem lookup_projectPlan_ne {projected : List (Str × Str)} {files : List FilePlan} {path : Str}
    (hne : ∀ file ∈ files, file.path ≠ path) :
    (projectPlan projected files).lookup path = projected.lookup path := by
  induction files generalizing projected with
  | nil => rfl
  | cons f files ih =>
      have hstep : ((f.path, f.newContent) :: projected).lookup path = projected.lookup path := by
        rw [List.lookup_cons, beq_false_of_ne (Ne.symm (hne f (List.mem_cons_self ..)))]
      rw [projectPlan, List.foldl_cons, ← projectPlan,
        ih (fun g hg => hne g (List.mem_cons_of_mem _ hg)), hstep]

theorem lookup_projectPlan {projected : List (Str × Str)} {files : List FilePlan} {path content : Str}
    (hcontent : ∀ file ∈ files, file.path = path → file.newContent = content)
    (h : (∃ file ∈ files, file.path = path) ∨ projected.lookup path = some content) :
    (projectPlan projected files).lookup path = some content := by
  induction files generalizing projected with
  | nil =>
      rcases h with ⟨_, hfile, -⟩ | h
      · cases hfile
      · exact h
  | cons f files ih =>
      rw [projectPlan, List.foldl_cons, ← projectPlan]
      refine ih (fun g hg => hcontent g (List.mem_cons_of_mem _ hg)) ?_
      by_cases hpath : f.path = path
      · refine .inr ?_
        rw [← hcontent f (List.mem_cons_self ..) hpath, ← hpath]
        exact List.lookup_cons_self
      · rcases h with ⟨g, hg, hgp⟩ | h
        · rcases List.mem_cons.1 hg with rfl | hg
          · exact absurd hgp hpath
          · exact .inl ⟨g, hg, hgp⟩
        · refine .inr ?_
          rw [List.lookup_cons, beq_false_of_ne (Ne.symm hpath)]
          exact h

/-- Writing what was planned again brings the disk to the next projection. -/
theorem Agrees.write {disk later later' : Disk} {projected : List (Str × Str)}
    (hagrees : Agrees disk projected later) {vars : List Str} {baseUrl marker baseUrl' marker' : Str}
    {vars' : List Str} {files again : List FilePlan}
    (hfiles : ∀ file ∈ files, planFile disk file.path vars baseUrl marker (projected.lookup file.path)
      = .ok file)
    (hagain : ∀ file ∈ again, planFile later file.path vars' baseUrl' marker' none = .ok file)
    (hfields : again.map digestFields = files.map digestFields)
    (hwrite : again.foldlM writePlanned later = .ok later') :
    Agrees disk (projectPlan projected files) later' := by
  have hunique : ∀ f ∈ again, ∀ g ∈ again, f.path = g.path → f = g := by
    intro f hf g hg hpath
    have hf' := hagain f hf
    rw [hpath, hagain g hg] at hf'
    exact (Except.ok.inj hf').symm
  have hpaths : ∀ path, (∃ file ∈ again, file.path = path) ↔ ∃ file ∈ files, file.path = path := by
    intro path
    have hmap : again.map FilePlan.path = files.map FilePlan.path := by
      have := congrArg (List.map Prod.fst) hfields
      simpa [digestFields, Function.comp_def] using this
    simp only [← List.mem_map, hmap]
  have key : ∀ path, (∃ file ∈ files, file.path = path) →
      (readForPlan later' path none).map Prod.snd
          = (readForPlan disk path ((projectPlan projected files).lookup path)).map Prod.snd ∧
        later'.file path ≠ .directory ∧ disk.file path ≠ .directory := by
    intro path hmem
    obtain ⟨g, hg, rfl⟩ := (hpaths path).2 hmem
    -- The plan of the review for this path says the same as `g`.
    obtain ⟨f, hf, hfg⟩ : ∃ f ∈ files, digestFields f = digestFields g := by
      have := List.mem_map_of_mem (f := digestFields) hg
      rw [hfields] at this
      exact List.mem_map.1 this
    have hpath : f.path = g.path := congrArg Prod.fst hfg
    have hnew : f.newContent = g.newContent := congrArg (fun t => t.2.2) hfg
    have hlookup : (projectPlan projected files).lookup g.path = some g.newContent := by
      refine lookup_projectPlan (fun f' hf' hp => ?_) (.inl hmem)
      have h' := hfiles f' hf'
      rw [hp, ← hpath, hfiles f hf] at h'
      rw [← Except.ok.inj h', hnew]
    have hlater := not_directory_of_planFile (hagain g hg)
    have hdisk := fun h => hlater ((hagrees.directory g.path).2 h)
    have hright : (readForPlan disk g.path (some g.newContent)).map Prod.snd = .ok g.newContent := by
      have hlink : disk.file g.path ≠ .symlink := by
        intro hsym
        have hplanned := hfiles f hf
        rw [hpath] at hplanned
        unfold planFile readForPlan at hplanned
        rw [hsym] at hplanned
        cases hplanned
      unfold readForPlan
      cases hfile : disk.file g.path with
      | symlink => exact absurd hfile hlink
      | _ => rfl
    by_cases hchanged : g.changed = true
    · have hfile := file_writePlans hunique hwrite g hg hchanged
      refine ⟨?_, by rw [hfile]; simp, hdisk⟩
      rw [hlookup, hright]
      unfold readForPlan
      rw [hfile]
      rfl
    · have hfile : later'.file g.path = later.file g.path := by
        refine file_writePlans_same (fun f' hf' hp => ?_) hwrite
        rw [hunique f' hf' g hg hp]
        exact Bool.eq_false_of_not_eq_true hchanged
      refine ⟨?_, by rwa [hfile], hdisk⟩
      have hplanned := hagain g hg
      unfold planFile at hplanned
      obtain ⟨⟨exists_, old⟩, hread, hpure⟩ := bind_eq_ok.1 hplanned
      have heq := Except.ok.inj hpure
      have hold : old = g.newContent := by
        have hc : g.changed = false := Bool.eq_false_of_not_eq_true hchanged
        rw [← heq] at hc ⊢
        exact (of_not_not (of_decide_eq_false hc)).symm
      rw [hlookup, hright, ← hold]
      unfold readForPlan at hread ⊢
      rw [hfile, hread]
      rfl
  constructor
  · intro path
    by_cases hmem : ∃ file ∈ files, file.path = path
    · exact (key path hmem).1
    · have hne : ∀ file ∈ files, file.path ≠ path := fun file hfile hp => hmem ⟨file, hfile, hp⟩
      have hfile : later'.file path = later.file path :=
        file_writePlans_same (fun g hg hp => absurd ((hpaths path).1 ⟨g, hg, hp⟩) hmem) hwrite
      rw [lookup_projectPlan_ne hne, ← hagrees.read path]
      unfold readForPlan
      rw [hfile]
  · intro path
    by_cases hmem : ∃ file ∈ files, file.path = path
    · obtain ⟨-, hlater, hdisk⟩ := key path hmem
      exact ⟨fun h => absurd h hlater, fun h => absurd h hdisk⟩
    · have hfile : later'.file path = later.file path :=
        file_writePlans_same (fun g hg hp => absurd ((hpaths path).1 ⟨g, hg, hp⟩) hmem) hwrite
      rw [hfile]
      exact hagrees.directory path

/-- Applying a link leaves the routes and the port. -/
theorem applyLink_keeps {env : Env} {disk disk' : Disk} {db db' : Db} {crypto : Option RestoreCrypto}
    {req : LinkRequest} {approved : LinkPlan} {fresh : Str} {prior : PriorEnv}
    (h : applyLink env disk db crypto req approved fresh = .ok (disk', db', prior)) :
    db'.routes = db.routes ∧ db'.port = db.port := by
  obtain ⟨plan, db₁, -, -, -, hensure, -, -, -, rfl, -⟩ := applyLink_eq_ok h
  have hrow : db₁.routes = db.routes ∧ db₁.port = db.port := by
    unfold ensureLinkRow addProjectLinkWithSlug at hensure
    split_ifs at hensure
    · rw [← Except.ok.inj hensure]
      exact ⟨rfl, rfl⟩
    · rw [← Except.ok.inj hensure]
      exact ⟨rfl, rfl⟩
  exact hrow

theorem port_of_planLink {env : Env} {disk : Disk} {db : Db} {req : LinkRequest} {providerId : Str}
    {portOverride : Option Nat} {projected : List (Str × Str)} {fresh : Str} {plan : LinkPlan}
    (h : planLinkAsProvider env disk db req providerId portOverride projected fresh = .ok plan) :
    (portOverride <|> db.port) = some plan.port := by
  unfold planLinkAsProvider at h
  obtain ⟨vars, -, hrest⟩ := bind_eq_ok.1 h
  split at hrest
  · cases hrest
  · rename_i port hport
    obtain ⟨paths, -, hplans⟩ := bind_eq_ok.1 hrest
    obtain ⟨files, -, hpure⟩ := bind_eq_ok.1 hplans
    obtain rfl := Except.ok.inj hpure
    exact hport

/-! ## The chain -/

/-- A plan of the review, planned again when the disk has come to its projection. -/
theorem planLinkAsProvider_again {env : Env} {disk later : Disk} {db db' : Db}
    {project : PlannedProject} {projectId : Str} {portOverride : Option Nat} {port : Nat}
    {projected : List (Str × Str)} {s : SelectedProvider} {plan : LinkPlan}
    (hagrees : Agrees disk projected later)
    (hplan : planLinkAsProvider env disk db (s.request project) s.providerId portOverride projected
      s.fresh = .ok plan)
    (hroute : ∃ custom, routeProvider db' s.providerId = some (s.providerId, custom))
    (hport : (portOverride <|> db.port) = some port) (hport' : db'.port = some port) (fresh : Str) :
    ∃ again, planLinkWithSlug env later db' (applyRequest { project with id := projectId } plan)
        plan.linkSlug fresh = .ok again ∧ again.digest = plan.digest ∧
      again.files.map digestFields = plan.files.map digestFields := by
  have hover := plannedOver_of_ok hplan
  have hrouted : plan.routePrefix = s.providerId := hover.prefix_
  have hp := port_of_planLink hplan
  rw [hport] at hp
  obtain ⟨custom, hroute⟩ := hroute
  have hroute' : routeProvider db' plan.routePrefix = some (s.providerId, custom) := by
    rw [hrouted]
    exact hroute
  have hport'' : db'.port = some plan.port := hport'.trans hp
  have hname : ({ project with id := projectId } : PlannedProject).name
      = (s.request project).projectName := rfl
  exact planLinkWithSlug_again hover rfl hagrees hname hroute' hport'' fresh

/-- A chain applied up to a plan finds the contents that this plan was approved over. -/
theorem planLinks_again {env : Env} {disk later disk' : Disk} {db db' db'' : Db}
    {project : PlannedProject} {projectId : Str} {portOverride : Option Nat} {port : Nat}
    {crypto : Option RestoreCrypto} {projected : List (Str × Str)} {selected : List SelectedProvider}
    {applied : List (LinkPlan × Str)} {plan : LinkPlan} {rest : List LinkPlan}
    (hagrees : Agrees disk projected later)
    (hplans : planLinks env disk db project portOverride projected selected
      = .ok (applied.map Prod.fst ++ plan :: rest))
    (hroutes : ∀ s ∈ selected, ∃ custom,
      routeProvider db' s.providerId = some (s.providerId, custom))
    (hport : (portOverride <|> db.port) = some port) (hport' : db'.port = some port)
    (happly : applyLinks env crypto { project with id := projectId } later db' applied
      = .ok (disk', db'')) (fresh : Str) :
    ∃ again, planLinkWithSlug env disk' db'' (applyRequest { project with id := projectId } plan)
        plan.linkSlug fresh = .ok again ∧ again.digest = plan.digest ∧
      plan.digest = planDigest env plan.linkSlug plan.files := by
  induction applied generalizing projected selected later db' with
  | nil =>
      cases selected with
      | nil => cases hplans
      | cons s selected =>
          obtain ⟨first, hplan, hrest⟩ := bind_eq_ok.1 hplans
          obtain ⟨plans, -, hpure⟩ := bind_eq_ok.1 hrest
          obtain ⟨rfl, rfl⟩ := List.cons.inj (Except.ok.inj hpure)
          obtain ⟨rfl, rfl⟩ := Prod.mk.inj (Except.ok.inj happly)
          obtain ⟨again, hagain, hdigest, -⟩ := planLinkAsProvider_again
            hagrees hplan (hroutes s (List.mem_cons_self ..)) hport hport' fresh
          exact ⟨again, hagain, hdigest, (plannedOver_of_ok hplan).digest⟩
  | cons next applied ih =>
      cases selected with
      | nil => cases hplans
      | cons s selected =>
          obtain ⟨first, hplan, hrest⟩ := bind_eq_ok.1 hplans
          obtain ⟨plans, hplans', hpure⟩ := bind_eq_ok.1 hrest
          obtain ⟨hfirst, htail⟩ := List.cons.inj (Except.ok.inj hpure)
          obtain ⟨next, slug⟩ := next
          obtain rfl : first = next := hfirst
          obtain ⟨⟨disk₁, db₁, prior⟩, hdone, happly'⟩ := bind_eq_ok.1 happly
          obtain ⟨again, hagain, -, hfields⟩ := planLinkAsProvider_again
            hagrees hplan (hroutes s (List.mem_cons_self ..)) hport hport' slug
          obtain ⟨hroutes₁, hport₁⟩ := applyLink_keeps hdone
          obtain ⟨written, -, -, -, hwritten, -, -, -, -, -, hwrite⟩ := applyLink_eq_ok hdone
          obtain rfl : again = written := Except.ok.inj (hagain.symm.trans hwritten)
          have hspec := plannedWith_of_planLinkWithSlug hwritten
          have hnext : Agrees disk (projectPlan projected first.files) disk₁ :=
            hagrees.write (plannedOver_of_ok hplan).file hspec.files hfields hwrite
          refine ih hnext (by rw [hplans', htail]; rfl) ?_ (hport₁.trans hport') happly'
          intro t ht
          unfold routeProvider
          rw [hroutes₁]
          exact hroutes t (List.mem_cons_of_mem _ ht)

/-- The manifests and a hash that keeps its input. -/
def framedEnv : Env where
  gateway := manifestSection
  blake3 := framedHash fun bytes => bytes.map fun b => Char.ofNat b.toNat

/-- The same environment with the bytes of a text written out, which is what a run evaluates. -/
theorem framedEnv_eq : framedEnv = ⟨manifestSection, fun fields =>
    (Framing.frames (fields.map fun t => t.flatMap String.utf8EncodeChar)).map fun b => Char.ofNat b.toNat⟩ := by
  have hutf8 : utf8 = fun t => t.flatMap String.utf8EncodeChar := funext utf8_eq_flatMap
  rw [← hutf8]
  rfl

def webProject : PlannedProject := ⟨[], "web".toList, "/web".toList⟩

def groqThenCohere : List SelectedProvider :=
  [⟨"groq".toList, [".env".toList], "web-1".toList⟩,
    ⟨"cohere".toList, [".env".toList], "web-2".toList⟩]

/-- A vault with the project and the two routes. -/
def twoRoutesDb : Db where
  projects := ["p1".toList]
  routes := [⟨"groq".toList, "groq".toList, true, none⟩, ⟨"cohere".toList, "cohere".toList, true, none⟩]
  links := []
  port := some 8787

/-- The two plans of the review, and the state when the first one is applied. -/
def applyGroqFirst : Except CoreError (LinkPlan × LinkPlan × Disk × Db) := do
  let disk := Disk.single "/web/.env".toList "A=1\n".toList
  match ← planLinks framedEnv disk twoRoutesDb webProject none [] groqThenCohere with
  | [groq, cohere] =>
      let applied ← applyLinks framedEnv (some plainCrypto) { webProject with id := "p1".toList } disk
        twoRoutesDb [(groq, "web-3".toList)]
      return (groq, cohere, applied)
  | _ => .error .busy

/-- Link the variable `var` to `groq` in a file in which two variables are linked already. -/
def planVarAgain (var : String) : Except CoreError LinkPlan :=
  planLink manifestEnv (Disk.single ".env".toList
    ((renderMarker (markerComment "groq".toList "web".toList)) ++ "\nA=".toList ++ groqUrl ++ '\n' ::
      (renderMarker (markerComment "groq".toList "web".toList)) ++ "\nB=".toList ++ groqUrl ++
      "\nNO_PROXY=127.0.0.1,localhost,::1\n".toList))
    groqDb { groqRequest with varOverride := some var.toList } []

end Tethra.Tracking
