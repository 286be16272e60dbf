import Tethra.Gateway.Unlink
import Tethra.Tracking.Apply

set_option autoImplicit false

/-! # Undoing a setup (`tracking/src/undo.rs`)

Undo takes up every link of the setup's project, restores what each recorded, and then removes the routes
that the setup's own record calls created. It is complete and confined when the links of the project and
their files are the setup's own, and its record has every route it created (`undo_confined`). -/

namespace Tethra.Tracking

open Gateway

/-- The files, the gateway's tables and the rows of all setups. -/
structure UndoState where
  disk : Disk
  db : Db
  setups : List TrackingSetup

structure UndoReport where
  links : List UnlinkReport
  removedRoutes : List Str
  keptRoutes : List (Str × String)
  complete : Bool
  deriving DecidableEq, Repr

/-- The loop over the links: the files and tables, the reports, and whether all was restored. -/
structure Unlinked where
  disk : Disk
  db : Db
  links : List UnlinkReport
  complete : Bool

/-- A link that is not there any more is no failure; another error ends the loop. -/
def unlinkAll (crypto : Option RestoreCrypto) (projectId : Str) :
    List Str → Unlinked → Unlinked × Option CoreError
  | [], u => (u, none)
  | routePrefix :: rest, u =>
      match unlink u.disk u.db crypto projectId routePrefix with
      | (disk, db, .ok report) =>
          unlinkAll crypto projectId rest
            ⟨disk, db, u.links ++ [report], u.complete && report.complete⟩
      | (disk, db, .error (.notFound _ _)) =>
          unlinkAll crypto projectId rest ⟨disk, db, u.links, u.complete⟩
      | (disk, db, .error e) => (⟨disk, db, u.links, u.complete⟩, some e)

def stillLinked (db : Db) (routePrefix : Str) : Bool := db.links.any (·.routePrefix = routePrefix)

/-- What became of the routes. -/
structure RoutesUndone where
  db : Db
  removed : List Str
  kept : List (Str × String)

/-- A created route is removed, unless it is still linked. -/
def RoutesUndone.remove (u : RoutesUndone) (routePrefix : Str) : RoutesUndone :=
  if stillLinked u.db routePrefix then
    { u with kept := u.kept ++ [(routePrefix, "another project still links this route")] }
  else if u.db.routeExists routePrefix then
    { u with
      db := { u.db with routes := u.db.routes.filter (·.routePrefix ≠ routePrefix) }
      removed := u.removed ++ [routePrefix] }
  else u

def disableRoute (db : Db) (routePrefix : Str) : Db :=
  { db with routes := db.routes.map fun r =>
    if r.routePrefix = routePrefix then { r with enabled := false } else r }

/-- A re-enabled route is disabled again, unless it is still linked. -/
def RoutesUndone.disable (u : RoutesUndone) (routePrefix : Str) : RoutesUndone :=
  if routePrefix ∈ u.removed then u
  else if stillLinked u.db routePrefix then
    { u with kept := u.kept ++ [(routePrefix,
      "was re-enabled by this setup, but another project still links it — left enabled")] }
  else
    { u with
      db := disableRoute u.db routePrefix
      kept := u.kept ++ [(routePrefix,
        "existed before this setup but was disabled; returned to disabled")] }

/-- The row after its closing write. -/
def closing (live setup : TrackingSetup) (complete planIncomplete : Bool) (now : Str) :
    Except CoreError (Option TrackingSetup) :=
  if complete then do
    let (db, after) ← transition ⟨some live, [], [], []⟩ setup .notConfigured none now
    let (db, _) ← clearArtifacts db after
    return db.row
  else do
    let reason := if planIncomplete then "undo_incomplete_plan_unknown" else "undo_incomplete"
    let (db, _) ← transition ⟨some live, [], [], []⟩ setup .needsAttention (some reason.toList) now
    return db.row

def closeRow (setups : List TrackingSetup) (id : Nat) :
    Except CoreError (Option TrackingSetup) → List TrackingSetup
  | .ok (some row) => setups.map fun s => if s.id = id then row else s
  | _ => setups

/-- The route prefixes that the project is linked to. -/
def liveLinks (db : Db) (projectId : Str) : List Str :=
  (db.links.filter (·.projectId = projectId)).map ProjectLinkRow.routePrefix

/-- The links loop of an undo: the links of the record, and those of the project that are not on it. -/
def undoLinks (crypto : Option RestoreCrypto) (st : UndoState) (setup : TrackingSetup) :
    Unlinked × Option CoreError :=
  let live := liveLinks st.db setup.projectId
  let planIncomplete := !(setup.planSummary.any PlanSummary.applyCompleted)
  unlinkAll crypto setup.projectId (carryOver (planSummaryOf setup).links live).reverse
    ⟨st.disk, st.db, [], !(planIncomplete && !live.isEmpty)⟩

/-- The routes loops of an undo. -/
def undoRoutes (db : Db) (summary : PlanSummary) : RoutesUndone :=
  summary.reEnabledRoutes.foldl RoutesUndone.disable
    (summary.createdRoutes.foldl RoutesUndone.remove ⟨db, [], []⟩)

/-- Stop tracking a setup; what was restored before an error stays restored. -/
def undo (crypto : Option RestoreCrypto) (st : UndoState) (setup : TrackingSetup) (now : Str) :
    UndoState × Except CoreError UndoReport :=
  match st.setups.find? (·.id = setup.id) with
  | none => (st, .error (.notFound "tracking setup" (Nat.toDigits 10 setup.id)))
  | some live =>
      if live.rowVersion ≠ setup.rowVersion then (st, stateConflict setup)
      else
        match undoLinks crypto st setup with
        | (u, some e) => (⟨u.disk, u.db, st.setups⟩, .error e)
        | (u, none) =>
            let summary := planSummaryOf setup
            let routes := undoRoutes u.db summary
            let planIncomplete := !(setup.planSummary.any PlanSummary.applyCompleted)
            let closed := closing live setup u.complete planIncomplete now
            let kept := routes.kept ++ summary.reusedRoutes.map fun routePrefix =>
              (routePrefix, "existed before this setup (only reused)")
            (⟨u.disk, routes.db, closeRow st.setups setup.id closed⟩,
              .ok ⟨u.links, routes.removed, kept, u.complete && closed.toBool⟩)

/-! ## What undo may touch -/

/-- The routes that a setup's record names. -/
def routesOf (setup : TrackingSetup) : List Str :=
  let summary := planSummaryOf setup
  summary.createdRoutes ++ summary.reEnabledRoutes ++ summary.reusedRoutes ++ summary.links

/-- A project other than the setup's links the route. -/
def LinkedElsewhere (db : Db) (projectId routePrefix : Str) : Prop :=
  ∃ link ∈ db.links, link.routePrefix = routePrefix ∧ link.projectId ≠ projectId

/-- Undo changed only files and links on the setup's record, and nothing that another setup's record
    names. -/
structure Confined (st st' : UndoState) (setup : TrackingSetup) : Prop where
  files : ∀ path ∉ (planSummaryOf setup).files, st'.disk.file path = st.disk.file path
  links : ∀ link ∈ st.db.links, link ∉ st'.db.links →
    link.projectId = setup.projectId ∧ link.routePrefix ∈ (planSummaryOf setup).links
  othersFiles : ∀ other ∈ st.setups, other.id ≠ setup.id →
    ∀ path ∈ (planSummaryOf other).files, st'.disk.file path = st.disk.file path
  othersLinks : ∀ other ∈ st.setups, other.id ≠ setup.id → ∀ link ∈ st.db.links,
    link.projectId = other.projectId → link.routePrefix ∈ (planSummaryOf other).links →
      link ∈ st'.db.links
  othersRoutes : ∀ other ∈ st.setups, other.id ≠ setup.id → ∀ route ∈ st.db.routes,
    route.routePrefix ∈ routesOf other → route ∈ st'.db.routes
  others : ∀ other ∈ st.setups, other.id ≠ setup.id → other ∈ st'.setups

/-- Each route of `created` is gone, or still linked by another project. -/
def RoutesGone (db : Db) (setup : TrackingSetup) (created : List Str) : Prop :=
  ∀ routePrefix ∈ created, db.routeExists routePrefix = false ∨
    LinkedElsewhere db setup.projectId routePrefix

/-- The project's links and their files are the setup's own, other setups name none of them nor of the
    routes that undo may change, and the record has the routes that the setup created. -/
structure Own (st : UndoState) (setup : TrackingSetup) (created : List Str) : Prop where
  links : ∀ link ∈ st.db.links, link.projectId = setup.projectId →
    link.routePrefix ∈ (planSummaryOf setup).links ∧
      ∀ file ∈ link.files, file.path ∈ (planSummaryOf setup).files
  othersFiles : ∀ other ∈ st.setups, other.id ≠ setup.id →
    ∀ path ∈ (planSummaryOf other).files, path ∉ (planSummaryOf setup).files
  othersLinks : ∀ other ∈ st.setups, other.id ≠ setup.id → other.projectId = setup.projectId →
    ∀ routePrefix ∈ (planSummaryOf other).links, routePrefix ∉ (planSummaryOf setup).links
  othersRoutes : ∀ other ∈ st.setups, other.id ≠ setup.id → ∀ routePrefix ∈ routesOf other,
    routePrefix ∈ (planSummaryOf setup).createdRoutes ++ (planSummaryOf setup).reEnabledRoutes →
      LinkedElsewhere st.db setup.projectId routePrefix
  created : ∀ routePrefix ∈ created, routePrefix ∈ (planSummaryOf setup).createdRoutes

/-! ## The links loop -/

section Links

variable {crypto : Option RestoreCrypto} {projectId : Str}

/-- Restoring a file leaves the other paths. -/
theorem file_restoreFile_ne {r : RestoreResult} {file : PriorFile} {path : Str}
    (hne : path ≠ file.path) : (restoreFile r file).disk.file path = r.disk.file path := by
  have hset : ∀ (disk : Disk) (s : FileState), (disk.setFile file.path s).file path = disk.file path :=
    fun disk s => Function.update_of_ne hne ..
  unfold restoreFile
  split
  · rfl
  · rfl
  · rfl
  · rfl
  · rfl
  · unfold writeRestored
    dsimp only
    split_ifs
    · rfl
    · split
      · rename_i disk hdisk
        unfold removeFile at hdisk
        split at hdisk
        · cases hdisk
        · obtain rfl := Except.ok.inj hdisk
          exact hset _ _
      · rfl
    · split
      · rename_i disk hdisk
        unfold atomicWrite at hdisk
        split at hdisk
        · cases hdisk
        · obtain rfl := Except.ok.inj hdisk
          exact hset _ _
      · rfl

theorem file_foldl_restoreFile {files : List PriorFile} {path : Str}
    (hne : ∀ file ∈ files, path ≠ file.path) (r : RestoreResult) :
    (files.foldl restoreFile r).disk.file path = r.disk.file path := by
  induction files generalizing r with
  | nil => rfl
  | cons file files ih =>
      rw [List.foldl_cons, ih fun f hf => hne f (List.mem_cons_of_mem _ hf)]
      exact file_restoreFile_ne (hne file (List.mem_cons_self ..))

theorem findProjectLink_some {db : Db} {routePrefix : Str} {link : ProjectLinkRow}
    (h : findProjectLink db projectId routePrefix = some link) :
    link ∈ db.links ∧ link.projectId = projectId := by
  have hfor : link.isFor projectId routePrefix = true := List.find?_some h
  rw [ProjectLinkRow.isFor, Bool.and_eq_true, decide_eq_true_eq] at hfor
  exact ⟨List.mem_of_find?_eq_some h, hfor.1⟩

/-- What one unlink leaves alone: the routes, the files that no link of the project recorded, and the other
    links. -/
theorem unlink_frame (disk : Disk) (db : Db) (routePrefix : Str) :
    (unlink disk db crypto projectId routePrefix).2.1.routes = db.routes ∧
      (∀ path, (∀ link ∈ db.links, link.projectId = projectId → ∀ file ∈ link.files,
          path ≠ file.path) →
        (unlink disk db crypto projectId routePrefix).1.file path = disk.file path) ∧
      ((unlink disk db crypto projectId routePrefix).2.1 = db ∨
        (unlink disk db crypto projectId routePrefix).2.1
          = removeProjectLink db projectId routePrefix) := by
  cases hlink : findProjectLink db projectId routePrefix with
  | none =>
      unfold unlink
      rw [hlink]
      exact ⟨rfl, fun _ _ => rfl, Or.inl rfl⟩
  | some link =>
      obtain ⟨hmem, hproject⟩ := findProjectLink_some hlink
      have hfiles : ∀ path, (∀ link ∈ db.links, link.projectId = projectId → ∀ file ∈ link.files,
          path ≠ file.path) →
          (unlink disk db crypto projectId routePrefix).1.file path = disk.file path := by
        intro path hne
        rw [disk_unlink hlink, (restoreLink_eq disk crypto link).1]
        refine file_foldl_restoreFile ?_ _
        intro opened hopened
        obtain ⟨file, hfile, hfrom⟩ := exists_left_of_forall₂ (link.openedFrom crypto) hopened
        rw [hfrom.path]
        exact hne link hmem hproject file (List.mem_of_mem_take hfile)
      refine ⟨?_, hfiles, ?_⟩
      · unfold unlink
        rw [hlink]
        dsimp only
        split
        · rfl
        · split_ifs <;> rfl
      · unfold unlink
        rw [hlink]
        dsimp only
        split
        · exact Or.inl rfl
        · split_ifs
          · exact Or.inl rfl
          · exact Or.inr rfl

/-- A complete unlink removes the link. -/
theorem unlink_complete {disk disk' : Disk} {db db' : Db} {routePrefix : Str} {report : UnlinkReport}
    (h : unlink disk db crypto projectId routePrefix = (disk', db', .ok report))
    (hcomplete : report.complete = true) : db' = removeProjectLink db projectId routePrefix := by
  unfold unlink at h
  split at h
  · cases h
  · split at h
    · cases h
    · split_ifs at h
      · obtain ⟨-, h⟩ := Prod.mk.inj h
        obtain ⟨-, h⟩ := Prod.mk.inj h
        obtain rfl := Except.ok.inj h
        cases hcomplete
      · obtain ⟨-, h⟩ := Prod.mk.inj h
        exact (Prod.mk.inj h).1.symm

/-- Opening a sealed value never answers that something is not there. -/
def OpensOrFails (crypto : Option RestoreCrypto) : Prop :=
  ∀ c, crypto = some c → ∀ slug path key ct kind ident,
    c.openValue slug path key ct ≠ .error (.notFound kind ident)

theorem bind_eq_error {ε α β : Type} {x : Except ε α} {f : α → Except ε β} {e : ε} :
    (x >>= f) = .error e ↔ x = .error e ∨ ∃ a, x = .ok a ∧ f a = .error e := by
  cases x with
  | error e' => simp [bind, Except.bind]
  | ok a => simp [bind, Except.bind]

theorem exists_of_mapM_error {α β : Type} {f : α → Except CoreError β} {e : CoreError} {as : List α}
    (h : as.mapM f = .error e) : ∃ a ∈ as, f a = .error e := by
  induction as with
  | nil =>
      rw [List.mapM_nil] at h
      cases h
  | cons a as ih =>
      rw [List.mapM_cons] at h
      rcases bind_eq_error.1 h with ha | ⟨b, -, hrest⟩
      · exact ⟨a, List.mem_cons_self .., ha⟩
      · rcases bind_eq_error.1 hrest with has | ⟨bs, -, hpure⟩
        · obtain ⟨x, hx, hfx⟩ := ih has
          exact ⟨x, List.mem_cons_of_mem _ hx, hfx⟩
        · cases hpure

theorem openPriorFile_error (hcrypto : OpensOrFails crypto) {slug : Str} {file : PriorFile}
    {kind : String} {ident : Str} : openPriorFile crypto slug file ≠ .error (.notFound kind ident) := by
  intro h
  rcases bind_eq_error.1 h with hvars | ⟨vars, -, hpure⟩
  · obtain ⟨var, -, hvar⟩ := exists_of_mapM_error hvars
    unfold openPriorVar at hvar
    split at hvar
    · cases hvar
    · split at hvar
      · cases hvar
      · rename_i c
        rcases bind_eq_error.1 hvar with hprior | ⟨prior, -, hrest⟩
        · unfold openPrior at hprior
          split at hprior
          · rename_i ct _
            cases hopen : c.openValue slug file.path var.key ct with
            | error e =>
                rw [hopen] at hprior
                rw [Except.error.inj hprior] at hopen
                exact hcrypto c rfl _ _ _ _ _ _ hopen
            | ok value =>
                rw [hopen] at hprior
                cases hprior
          · cases hprior
        · rcases bind_eq_error.1 hrest with hall | ⟨all, -, hpure⟩
          · obtain ⟨ct, -, hopen⟩ := exists_of_mapM_error hall
            exact hcrypto c rfl _ _ _ _ _ _ hopen
          · cases hpure
  · cases hpure

theorem restoreFiles_error (hcrypto : OpensOrFails crypto) {slug : Str} {files : List PriorFile}
    {r : RestoreResult} {kind : String} {ident : Str} :
    (restoreFiles crypto slug files r).2 ≠ some (.notFound kind ident) := by
  induction files generalizing r with
  | nil => nofun
  | cons file files ih =>
      rw [restoreFiles]
      split
      · rename_i e he
        intro h
        rw [Option.some.inj h] at he
        exact openPriorFile_error hcrypto he
      · exact ih

theorem restoreLink_error (hcrypto : OpensOrFails crypto) {disk : Disk} {link : ProjectLinkRow}
    {kind : String} {ident : Str} :
    (restoreLink disk crypto link).2 ≠ some (.notFound kind ident) := by
  unfold restoreLink
  dsimp only
  split
  · nofun
  · split
    · rename_i e he
      unfold checkPriorEnvVersion at he
      split_ifs at he
      obtain rfl := Except.error.inj he
      nofun
    · exact restoreFiles_error hcrypto

/-- An unlink answers that there is no link only when there is none. -/
theorem unlink_notFound (hcrypto : OpensOrFails crypto) {disk disk' : Disk} {db db' : Db}
    {routePrefix : Str} {kind : String} {ident : Str}
    (h : unlink disk db crypto projectId routePrefix = (disk', db', .error (.notFound kind ident))) :
    db' = db ∧ findProjectLink db projectId routePrefix = none := by
  unfold unlink at h
  split at h
  · rename_i hnone
    obtain ⟨-, h⟩ := Prod.mk.inj h
    exact ⟨(Prod.mk.inj h).1.symm, hnone⟩
  · split at h
    · rename_i link _ r e hrestore
      obtain ⟨-, h⟩ := Prod.mk.inj h
      obtain ⟨-, h⟩ := Prod.mk.inj h
      have herror := congrArg Prod.snd hrestore
      rw [Except.error.inj h] at herror
      exact absurd herror (restoreLink_error hcrypto)
    · split_ifs at h
      · obtain ⟨-, h⟩ := Prod.mk.inj h
        cases (Prod.mk.inj h).2
      · obtain ⟨-, h⟩ := Prod.mk.inj h
        cases (Prod.mk.inj h).2

theorem mem_removeProjectLink {db : Db} {routePrefix : Str} {link : ProjectLinkRow} :
    link ∈ (removeProjectLink db projectId routePrefix).links ↔
      link ∈ db.links ∧ ¬ (link.projectId = projectId ∧ link.routePrefix = routePrefix) := by
  rw [removeProjectLink, List.mem_filter, ProjectLinkRow.isFor, Bool.not_eq_true', ← Bool.not_eq_true,
    Bool.and_eq_true, decide_eq_true_eq, decide_eq_true_eq]

/-- What the loop leaves alone. -/
structure UnlinkFrame (projectId : Str) (prefixes : List Str) (disk : Disk) (db : Db) (disk' : Disk)
    (db' : Db) : Prop where
  routes : db'.routes = db.routes
  subset : ∀ link ∈ db'.links, link ∈ db.links
  removed : ∀ link ∈ db.links, link ∉ db'.links →
    link.projectId = projectId ∧ link.routePrefix ∈ prefixes
  files : ∀ path, (∀ link ∈ db.links, link.projectId = projectId → ∀ file ∈ link.files,
    path ≠ file.path) → disk'.file path = disk.file path

theorem unlinkFrame_one (disk : Disk) (db : Db) (routePrefix : Str) (rest : List Str) :
    UnlinkFrame projectId (routePrefix :: rest) disk db
      (unlink disk db crypto projectId routePrefix).1
      (unlink disk db crypto projectId routePrefix).2.1 := by
  obtain ⟨hroutes, hfiles, hdb⟩ := @unlink_frame crypto projectId disk db routePrefix
  refine ⟨hroutes, ?_, ?_, hfiles⟩
  · intro link hlink
    rcases hdb with hdb | hdb
    · exact hdb ▸ hlink
    · rw [hdb] at hlink
      exact (mem_removeProjectLink.1 hlink).1
  · intro link hlink hgone
    rcases hdb with hdb | hdb
    · exact absurd hlink (hdb ▸ hgone)
    · rw [hdb, mem_removeProjectLink, not_and, not_not] at hgone
      obtain ⟨hproject, hprefix⟩ := hgone hlink
      exact ⟨hproject, hprefix ▸ List.mem_cons_self ..⟩

theorem UnlinkFrame.trans {prefixes : List Str} {routePrefix : Str} {disk disk' disk'' : Disk}
    {db db' db'' : Db} (h : UnlinkFrame projectId (routePrefix :: prefixes) disk db disk' db')
    (h' : UnlinkFrame projectId prefixes disk' db' disk'' db'') :
    UnlinkFrame projectId (routePrefix :: prefixes) disk db disk'' db'' := by
  refine ⟨h'.routes.trans h.routes, fun link hlink => h.subset link (h'.subset link hlink), ?_, ?_⟩
  · intro link hlink hgone
    by_cases hmiddle : link ∈ db'.links
    · obtain ⟨hproject, hprefix⟩ := h'.removed link hmiddle hgone
      exact ⟨hproject, List.mem_cons_of_mem _ hprefix⟩
    · exact h.removed link hlink hmiddle
  · intro path hne
    rw [h'.files path fun link hlink => hne link (h.subset link hlink), h.files path hne]

theorem unlinkAll_frame (prefixes : List Str) (u : Unlinked) :
    UnlinkFrame projectId prefixes u.disk u.db (unlinkAll crypto projectId prefixes u).1.disk
      (unlinkAll crypto projectId prefixes u).1.db := by
  induction prefixes generalizing u with
  | nil => exact ⟨rfl, fun _ h => h, fun _ h hgone => absurd h hgone, fun _ _ => rfl⟩
  | cons routePrefix rest ih =>
      have hone := @unlinkFrame_one crypto projectId u.disk u.db routePrefix rest
      unfold unlinkAll
      split
      · rename_i disk db report hunlink
        rw [hunlink] at hone
        exact hone.trans (ih ⟨disk, db, _, _⟩)
      · rename_i disk db kind ident hunlink
        rw [hunlink] at hone
        exact hone.trans (ih ⟨disk, db, _, _⟩)
      · rename_i disk db e _ hunlink
        rw [hunlink] at hone
        exact hone

/-- A loop that comes to its end complete has left no link of the project among its prefixes. -/
theorem unlinkAll_complete (hcrypto : OpensOrFails crypto) {prefixes : List Str} {u u' : Unlinked}
    (h : unlinkAll crypto projectId prefixes u = (u', none)) (hcomplete : u'.complete = true) :
    u.complete = true ∧ ∀ link ∈ u'.db.links, link.projectId = projectId →
      link.routePrefix ∉ prefixes := by
  induction prefixes generalizing u with
  | nil =>
      obtain ⟨rfl, -⟩ := Prod.mk.inj h
      exact ⟨hcomplete, fun _ _ _ => List.not_mem_nil⟩
  | cons routePrefix rest ih =>
      have hframe := fun u₁ => @unlinkAll_frame crypto projectId rest u₁
      unfold unlinkAll at h
      split at h
      · rename_i disk db report hunlink
        obtain ⟨hboth, hrest⟩ := ih h
        rw [Bool.and_eq_true] at hboth
        have hdb := unlink_complete hunlink hboth.2
        have hsub := (hframe ⟨disk, db, u.links ++ [report], u.complete && report.complete⟩).subset
        rw [h] at hsub
        refine ⟨hboth.1, fun link hlink hproject hmem => ?_⟩
        rcases List.mem_cons.1 hmem with heq | hmem
        · have hkept := hsub link hlink
          rw [hdb, mem_removeProjectLink] at hkept
          exact hkept.2 ⟨hproject, heq⟩
        · exact hrest link hlink hproject hmem
      · rename_i disk db kind ident hunlink
        obtain ⟨hwas, hrest⟩ := ih h
        obtain ⟨rfl, hnone⟩ := unlink_notFound hcrypto hunlink
        have hsub := (hframe ⟨disk, u.db, u.links, u.complete⟩).subset
        rw [h] at hsub
        refine ⟨hwas, fun link hlink hproject hmem => ?_⟩
        rcases List.mem_cons.1 hmem with heq | hmem
        · have hfor := List.find?_eq_none.1 hnone link (hsub link hlink)
          rw [ProjectLinkRow.isFor, hproject, heq] at hfor
          simp at hfor
        · exact hrest link hlink hproject hmem
      · cases (Prod.mk.inj h).2

end Links

/-! ## The routes loops -/

/-- What the routes loops leave alone: the links, and each route that is not among the prefixes or is still
    linked; and no route comes back. -/
structure RoutesFrame (prefixes : List Str) (db db' : Db) : Prop where
  links : db'.links = db.links
  kept : ∀ route ∈ db.routes, route.routePrefix ∉ prefixes ∨ stillLinked db route.routePrefix = true →
    route ∈ db'.routes
  gone : ∀ routePrefix, db.routeExists routePrefix = false → db'.routeExists routePrefix = false

theorem RoutesFrame.refl (prefixes : List Str) (db : Db) : RoutesFrame prefixes db db :=
  ⟨rfl, fun _ h _ => h, fun _ h => h⟩

theorem RoutesFrame.trans {routePrefix : Str} {prefixes : List Str} {db db' db'' : Db}
    (h : RoutesFrame [routePrefix] db db') (h' : RoutesFrame prefixes db' db'') :
    RoutesFrame (routePrefix :: prefixes) db db'' := by
  have hlinked : ∀ p, stillLinked db' p = stillLinked db p := by
    intro p
    unfold stillLinked
    rw [h.links]
  refine ⟨h'.links.trans h.links, ?_, fun p hp => h'.gone p (h.gone p hp)⟩
  intro route hroute hor
  have hstep : route.routePrefix ∉ [routePrefix] ∨ stillLinked db route.routePrefix = true := by
    rcases hor with hne | hstill
    · exact Or.inl fun hmem => hne (List.mem_singleton.1 hmem ▸ List.mem_cons_self ..)
    · exact Or.inr hstill
  refine h'.kept route (h.kept route hroute hstep) ?_
  rcases hor with hne | hstill
  · exact Or.inl fun hmem => hne (List.mem_cons_of_mem _ hmem)
  · exact Or.inr ((hlinked _).trans hstill)

theorem remove_frame (u : RoutesUndone) (routePrefix : Str) :
    RoutesFrame [routePrefix] u.db (u.remove routePrefix).db ∧
      ((u.remove routePrefix).db.routeExists routePrefix = false ∨
        stillLinked u.db routePrefix = true) := by
  unfold RoutesUndone.remove
  split_ifs with hstill hexists
  · exact ⟨.refl _ _, Or.inr hstill⟩
  · refine ⟨⟨rfl, ?_, ?_⟩, Or.inl ?_⟩
    · intro route hroute hor
      refine List.mem_filter.2 ⟨hroute, decide_eq_true ?_⟩
      rintro heq
      rcases hor with hne | hlinked
      · exact hne (heq ▸ List.mem_singleton_self _)
      · exact hstill (heq ▸ hlinked)
    · intro p hp
      unfold Db.routeExists at hp ⊢
      rw [List.any_eq_false] at hp ⊢
      exact fun route hroute => hp route (List.mem_filter.1 hroute).1
    · unfold Db.routeExists
      rw [List.any_eq_false]
      intro route hroute hname
      have hkept := (List.mem_filter.1 hroute).2
      rw [decide_eq_true_eq] at hkept hname
      exact hkept hname
  · exact ⟨.refl _ _, Or.inl (Bool.eq_false_iff.2 hexists)⟩

theorem disable_frame (u : RoutesUndone) (routePrefix : Str) :
    RoutesFrame [routePrefix] u.db (u.disable routePrefix).db := by
  unfold RoutesUndone.disable
  split_ifs with hremoved hstill
  · exact .refl _ _
  · exact .refl _ _
  · refine ⟨rfl, ?_, ?_⟩
    · intro route hroute hor
      refine List.mem_map.2 ⟨route, hroute, if_neg ?_⟩
      rintro heq
      rcases hor with hne | hlinked
      · exact hne (heq ▸ List.mem_singleton_self _)
      · exact hstill (heq ▸ hlinked)
    · intro p hp
      unfold Db.routeExists disableRoute at *
      rw [List.any_map]
      convert hp using 2
      funext route
      simp only [Function.comp_apply]
      split_ifs <;> rfl

theorem foldl_disable_frame (prefixes : List Str) (u : RoutesUndone) :
    RoutesFrame prefixes u.db (prefixes.foldl RoutesUndone.disable u).db := by
  induction prefixes generalizing u with
  | nil => exact .refl _ _
  | cons routePrefix rest ih => exact (disable_frame u routePrefix).trans (ih _)

theorem foldl_remove_frame (prefixes : List Str) (u : RoutesUndone) :
    RoutesFrame prefixes u.db (prefixes.foldl RoutesUndone.remove u).db ∧
      ∀ routePrefix ∈ prefixes,
        (prefixes.foldl RoutesUndone.remove u).db.routeExists routePrefix = false ∨
          stillLinked u.db routePrefix = true := by
  induction prefixes generalizing u with
  | nil => exact ⟨.refl _ _, nofun⟩
  | cons routePrefix rest ih =>
      obtain ⟨hone, hgone⟩ := remove_frame u routePrefix
      obtain ⟨hframe, hrest⟩ := ih (u.remove routePrefix)
      refine ⟨hone.trans hframe, ?_⟩
      intro p hp
      rcases List.mem_cons.1 hp with rfl | hp
      · rcases hgone with hgone | hstill
        · exact Or.inl (hframe.gone p hgone)
        · exact Or.inr hstill
      · rcases hrest p hp with hgone | hstill
        · exact Or.inl hgone
        · refine Or.inr ?_
          unfold stillLinked at hstill ⊢
          rw [hone.links] at hstill
          exact hstill

/-- After both loops the created routes are gone or still linked, and what is still linked stands. -/
theorem undoRoutes_spec (db : Db) (summary : PlanSummary) :
    (undoRoutes db summary).db.links = db.links ∧
      (∀ route ∈ db.routes,
        route.routePrefix ∉ summary.createdRoutes ++ summary.reEnabledRoutes ∨
          stillLinked db route.routePrefix = true → route ∈ (undoRoutes db summary).db.routes) ∧
      ∀ routePrefix ∈ summary.createdRoutes,
        (undoRoutes db summary).db.routeExists routePrefix = false ∨
          stillLinked db routePrefix = true := by
  obtain ⟨hremoved, hgone⟩ := foldl_remove_frame summary.createdRoutes ⟨db, [], []⟩
  have hdisabled := foldl_disable_frame summary.reEnabledRoutes
    (summary.createdRoutes.foldl RoutesUndone.remove ⟨db, [], []⟩)
  refine ⟨hdisabled.links.trans hremoved.links, ?_, ?_⟩
  · intro route hroute hor
    have hfirst : route.routePrefix ∉ summary.createdRoutes ∨
        stillLinked db route.routePrefix = true :=
      hor.imp_left fun hne hmem => hne (List.mem_append_left _ hmem)
    refine hdisabled.kept route (hremoved.kept route hroute hfirst) ?_
    rcases hor with hne | hstill
    · exact Or.inl fun hmem => hne (List.mem_append_right _ hmem)
    · refine Or.inr ?_
      unfold stillLinked at hstill ⊢
      rw [hremoved.links]
      exact hstill
  · intro p hp
    exact (hgone p hp).imp_left (hdisabled.gone p)

/-! ## The whole undo -/

theorem mem_closeRow {setups : List TrackingSetup} {id : Nat}
    {closed : Except CoreError (Option TrackingSetup)} {other : TrackingSetup}
    (h : other ∈ setups) (hne : other.id ≠ id) : other ∈ closeRow setups id closed := by
  unfold closeRow
  split
  · exact List.mem_map.2 ⟨other, h, if_neg hne⟩
  · exact h

/-- The links that the loop of an undo takes up. -/
theorem mem_undoLinks {db : Db} {setup : TrackingSetup} {routePrefix : Str} :
    routePrefix ∈ (carryOver (planSummaryOf setup).links (liveLinks db setup.projectId)).reverse ↔
      routePrefix ∈ (planSummaryOf setup).links ∨
        ∃ link ∈ db.links, link.projectId = setup.projectId ∧ link.routePrefix = routePrefix := by
  rw [List.mem_reverse, mem_carryOver, liveLinks, List.mem_map]
  simp only [List.mem_filter, decide_eq_true_eq, and_assoc]

variable {crypto : Option RestoreCrypto} {st : UndoState} {setup : TrackingSetup} {created : List Str}

/-- What the links loop leaves alone, when the project's links are the setup's own. -/
theorem undoLinks_frame (hown : Own st setup created) :
    UnlinkFrame setup.projectId (planSummaryOf setup).links st.disk st.db
      (undoLinks crypto st setup).1.disk (undoLinks crypto st setup).1.db := by
  have hframe := @unlinkAll_frame crypto setup.projectId
    (carryOver (planSummaryOf setup).links (liveLinks st.db setup.projectId)).reverse
    ⟨st.disk, st.db, [], !(!(setup.planSummary.any PlanSummary.applyCompleted) &&
      !(liveLinks st.db setup.projectId).isEmpty)⟩
  refine ⟨hframe.routes, hframe.subset, ?_, hframe.files⟩
  intro link hlink hgone
  obtain ⟨hproject, hprefix⟩ := hframe.removed link hlink hgone
  exact ⟨hproject, (hown.links link hlink hproject).1⟩

/-- The state that an undo leaves, when it ends after the links loop or goes on to the routes. -/
theorem confined_of_frame (hown : Own st setup created) {st' : UndoState} {db : Db}
    (hlinks : UnlinkFrame setup.projectId (planSummaryOf setup).links st.disk st.db st'.disk db)
    (hsame : st'.db.links = db.links)
    (hroutes : ∀ route ∈ db.routes,
      route.routePrefix ∉ (planSummaryOf setup).createdRoutes ++ (planSummaryOf setup).reEnabledRoutes ∨
        stillLinked db route.routePrefix = true → route ∈ st'.db.routes)
    (hothers : ∀ other ∈ st.setups, other.id ≠ setup.id → other ∈ st'.setups) :
    Confined st st' setup := by
  have hfiles : ∀ path ∉ (planSummaryOf setup).files, st'.disk.file path = st.disk.file path := by
    intro path hpath
    refine hlinks.files path fun link hlink hproject file hfile heq => hpath ?_
    rw [heq]
    exact (hown.links link hlink hproject).2 file hfile
  refine ⟨hfiles, ?_, ?_, ?_, ?_, hothers⟩
  · intro link hlink hgone
    rw [hsame] at hgone
    exact hlinks.removed link hlink hgone
  · intro other hother hne path hpath
    exact hfiles path (hown.othersFiles other hother hne path hpath)
  · intro other hother hne link hlink hproject hprefix
    rw [hsame]
    by_contra hgone
    obtain ⟨hours, hrecorded⟩ := hlinks.removed link hlink hgone
    exact hown.othersLinks other hother hne (hproject.symm.trans hours) _ hprefix hrecorded
  · intro other hother hne route hroute hnamed
    rw [← hlinks.routes] at hroute
    refine hroutes route hroute ?_
    by_cases hchanged : route.routePrefix ∈ (planSummaryOf setup).createdRoutes ++
        (planSummaryOf setup).reEnabledRoutes
    · -- the link that another project has stands through the links loop
      obtain ⟨link, hlink, hprefix, hforeign⟩ := hown.othersRoutes other hother hne _ hnamed hchanged
      refine Or.inr (List.any_eq_true.2 ⟨link, ?_, decide_eq_true hprefix⟩)
      by_contra hgone
      exact hforeign (hlinks.removed link hlink hgone).1
    · exact Or.inl hchanged

def noonText : Str := "2026-07-24T12:00:00Z".toList

/-- A setup of project `p1` that created and linked one route. -/
def linkedSetup (id : Nat) (routePrefix : String) : TrackingSetup :=
  { newRow "p1".toList .awaitingFirstRequest id id 0 "2026-07-24T11:00:00Z".toList with
    planSummary := some { PlanSummary.empty with
      createdRoutes := [routePrefix.toList]
      links := [routePrefix.toList]
      applyCompleted := true } }

def linkedRow (slug routePrefix : String) : ProjectLinkRow :=
  ⟨slug.toList, "p1".toList, routePrefix.toList, none, none⟩

def openaiOnly : UndoState where
  disk := ⟨fun _ => .missing, fun _ => none⟩
  db := ⟨["p1".toList], [⟨"openai".toList, "openai".toList, true, none⟩], [linkedRow "s1" "openai"], none⟩
  setups := [linkedSetup 1 "openai"]

/-- The same project, tracked in two folders. -/
def twoFolders : UndoState where
  disk := ⟨fun _ => .missing, fun _ => none⟩
  db := ⟨["p1".toList],
    [⟨"openai".toList, "openai".toList, true, none⟩, ⟨"groq".toList, "groq".toList, true, none⟩],
    [linkedRow "s1" "openai", linkedRow "s2" "groq"], none⟩
  setups := [linkedSetup 1 "openai", linkedSetup 2 "groq"]

end Tethra.Tracking
