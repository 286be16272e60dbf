import Tethra.Lib.Quote
import Tethra.Tracking.Apply
import Tethra.Tracking.PlanChain

set_option autoImplicit false

/-! # The consent to a folder link (`tracking/src/plan.rs`, `tracking/src/project.rs`)

`prepareLink` plans what linking a folder would do and gives a digest of the plan; `confirmLink` plans
again and goes on when the digest is the same. The digest is read back to the decisions that it was made
of (`linkFields_inj`). What a file holds and which variables are set in it is not among them, and the
digest of the `.env` writer is that of the plan made at the confirmation (`consent_iff`). -/

namespace Tethra.Tracking

open Gateway Framing

/-! ## What is detected and selected -/

/-- How a provider can be configured; the reason of an unsupported one is for the warnings only. -/
inductive Configurability where
  | automatic
  | needsOriginConfirm (inferredOrigin : Str)
  | needsOriginInput
  | unsupported
  deriving DecidableEq, Repr

inductive DetectionConfidence where
  | possible
  | likely
  | confirmed
  deriving DecidableEq, Repr

def DetectionConfidence.atLeastLikely : DetectionConfidence → Bool
  | .possible => false
  | .likely => true
  | .confirmed => true

structure ProviderDetection where
  providerId : Str
  confidence : DetectionConfidence
  configurability : Configurability
  targetEnvFiles : List Str
  deriving DecidableEq, Repr

structure ProjectDetection where
  folder : Str
  providers : List ProviderDetection
  dotenvLoader : Option Bool
  dockerCompose : Bool
  deriving DecidableEq, Repr

structure Selections where
  included : List Str
  confirmedOrigins : List (Str × Str)

/-- The providers whose destination is in a manifest of the program. -/
def Selections.defaults (detection : ProjectDetection) : Selections where
  included := (detection.providers.filter fun p =>
    p.configurability = .automatic && p.confidence.atLeastLikely).map ProviderDetection.providerId
  confirmedOrigins := []

/-! ## The service -/

/-- The status of the login service; `definition` is the data directory of what is installed. -/
structure ServiceStatus where
  installed : Bool
  definition : Option Str
  matchesDataDir : Bool
  binaryVersion : Option Str
  running : Bool
  deriving DecidableEq, Repr

inductive ServiceAction where
  | installService
  | startService
  | repairService (installed current : Str)
  | alreadyRunning
  deriving DecidableEq, Repr

/-- The login slot is held by another data directory. -/
def foreignService (service : ServiceStatus) : CoreError :=
  .invalidInput
    (("the login slot for the local tracking service is held by another Tethra"
      ++ "              installation (").toList
      ++ service.definition.getD "unknown data directory".toList
      ++ ("). Tethra will not reconfigure it. Use that installation, or"
        ++ "              uninstall its service first: `tethra gateway uninstall --data-dir ").toList
      ++ service.definition.getD "<its data dir>".toList ++ "`.".toList)

def planServiceActions (version : Str) (service : ServiceStatus) (listenerLive : Bool) :
    Except CoreError (List ServiceAction) :=
  if service.installed && !service.matchesDataDir then .error (foreignService service)
  else if listenerLive then .ok [.alreadyRunning]
  else if !service.installed then .ok [.installService]
  else
    let drifted := service.binaryVersion.any (· ≠ version)
    .ok ((if drifted then [.repairService (service.binaryVersion.getD []) version]
        else if service.running then [.alreadyRunning] else [])
      ++ if service.running then [] else [.startService])

/-! ## The routes -/

/-- The action for a route that is in the table. -/
def existingRoute (pid : Str) (row : GatewayRoute) : RouteAction :=
  if row.enabled then .reuseRoute pid row.providerId else .reEnableRoute pid row.providerId

/-- The row of a prefix (`route_row`). -/
def routeRow (db : Db) (prefix_ : Str) : Option GatewayRoute :=
  db.routes.find? (·.routePrefix = prefix_)

/-- What is done about the route of a provider; `none` skips the provider. -/
def routeAction (lowercase : Str → Str) (db : Db) (selections : Selections) (p : ProviderDetection) :
    Except CoreError (Option RouteAction) :=
  let pid := p.providerId
  match p.configurability, selections.included.contains pid with
  | .unsupported, true => .error (.invalidInput (pid ++ " cannot be configured (unsupported)".toList))
  | _, false => .ok none
  | .automatic, true =>
      .ok (some (match routeRow db pid with
        | some row => existingRoute pid row
        | none => .createManifestRoute pid pid))
  | _, true =>
      match selections.confirmedOrigins.lookup pid with
      | none => .error (.invalidInput
          (pid ++ " needs a confirmed origin before it can be tracked".toList))
      | some origin =>
          match validateOrigin lowercase origin with
          | .error message => .error (.invalidInput message)
          | .ok (host, _) =>
              .ok (some (match routeRow db pid with
                | some row => existingRoute pid row
                | none => .createCustomRoute pid pid ("https://".toList ++ host)))

/-! ## The plan -/

inductive AttributionPlan where
  | requested
  | skip
  deriving DecidableEq, Repr

inductive RestartExpectation where
  | requiredLikely
  | unknown
  | notNeeded
  deriving DecidableEq, Repr

structure TrackingPlan where
  projectId : Str
  projectName : Str
  folder : Str
  serviceActions : List ServiceAction
  routeActions : List RouteAction
  linkPlans : List LinkPlan
  attribution : AttributionPlan
  restartExpectation : RestartExpectation
  port : Nat
  portProvisional : Bool
  deriving DecidableEq, Repr

/-- What the program was built with, and the functions outside: the hash under the digest, the
    characters that a debug print gives by number, and Unicode lowercasing. -/
structure Build where
  env : Env
  version : Str
  hash : List UInt8 → Str
  unprintable : Char → Bool
  lowercase : Str → Str

/-- What a call finds; `slugs` are the ones that `new_link_slug` draws for the providers. -/
structure Scene where
  disk : Disk
  db : Db
  detection : Except CoreError ProjectDetection
  service : ServiceStatus
  listenerLive : Bool
  freePort : Except CoreError Nat
  slugs : Str → Str

/-- The route action and the link plan of each selected provider, planned over what the ones before
    would leave in the files. -/
def planProviders (b : Build) (s : Scene) (selections : Selections) (project : PlannedProject)
    (portOverride : Option Nat) :
    List (Str × Str) → List ProviderDetection → Except CoreError (List (RouteAction × LinkPlan))
  | _, [] => .ok []
  | projected, p :: providers => do
      match ← routeAction b.lowercase s.db selections p with
      | none => planProviders b s selections project portOverride projected providers
      | some action =>
          let request := SelectedProvider.request project ⟨p.providerId, p.targetEnvFiles, []⟩
          let plan ← planLinkAsProvider b.env s.disk s.db request p.providerId portOverride projected
            (s.slugs p.providerId)
          let plans ← planProviders b s selections project portOverride
            (projectPlan projected plan.files) providers
          return (action, plan) :: plans

def restartExpectation (detection : ProjectDetection) (plans : List LinkPlan) : RestartExpectation :=
  if !plans.any (fun lp => lp.files.any FilePlan.changed) then .notNeeded
  else if detection.dotenvLoader = some true then .requiredLikely
  else if detection.dockerCompose then .unknown
  else .requiredLikely

def nothingToConfigure : Str := "nothing to configure: no supported provider was selected".toList

/-- The persisted port, or a provisional one. -/
def planPort (s : Scene) : Except CoreError (Nat × Bool) :=
  match s.db.port with
  | some port => .ok (port, false)
  | none => s.freePort.map fun port => (port, true)

/-- `plan::plan`, without the warnings of the preview. -/
def planTracking (b : Build) (s : Scene) (detection : ProjectDetection) (selections : Selections)
    (id name : Str) : Except CoreError TrackingPlan := do
  let (port, portProvisional) ← planPort s
  let serviceActions ← planServiceActions b.version s.service s.listenerLive
  let plans ← planProviders b s selections ⟨id, name, detection.folder⟩
    (if portProvisional then some port else none) [] detection.providers
  if plans = [] then .error (.invalidInput nothingToConfigure)
  else
    pure { projectId := id, projectName := name, folder := detection.folder, serviceActions,
           routeActions := plans.map Prod.fst, linkPlans := plans.map Prod.snd,
           attribution := .requested,
           restartExpectation := restartExpectation detection (plans.map Prod.snd),
           port, portProvisional }

/-- Persist a port when there is none yet. -/
def ensurePort (s : Scene) : Except CoreError Db :=
  match s.db.port with
  | some _ => .ok s.db
  | none => s.freePort.map fun port => { s.db with port := some port }

/-! ## The digest of a preview -/

def ServiceAction.variant : ServiceAction → String
  | .installService => "InstallService"
  | .startService => "StartService"
  | .repairService _ _ => "RepairService"
  | .alreadyRunning => "AlreadyRunning"

def ServiceAction.fields : ServiceAction → List (String × Str)
  | .installService => []
  | .startService => []
  | .repairService installed current => [("installed", installed), ("current", current)]
  | .alreadyRunning => []

/-- The debug print of a service action. -/
def ServiceAction.debug (unprintable : Char → Bool) (action : ServiceAction) : Str :=
  Quote.debugStruct unprintable action.variant action.fields

def RouteAction.variant : RouteAction → String
  | .createManifestRoute _ _ => "CreateManifestRoute"
  | .createCustomRoute _ _ _ => "CreateCustomRoute"
  | .reuseRoute _ _ => "ReuseRoute"
  | .reEnableRoute _ _ => "ReEnableRoute"

def RouteAction.fields : RouteAction → List (String × Str)
  | .createManifestRoute routePrefix providerId =>
      [("prefix", routePrefix), ("provider_id", providerId)]
  | .createCustomRoute routePrefix providerId origin =>
      [("prefix", routePrefix), ("provider_id", providerId), ("origin", origin)]
  | .reuseRoute routePrefix providerId => [("prefix", routePrefix), ("provider_id", providerId)]
  | .reEnableRoute routePrefix providerId => [("prefix", routePrefix), ("provider_id", providerId)]

/-- The debug print of a route action. -/
def RouteAction.debug (unprintable : Char → Bool) (action : RouteAction) : Str :=
  Quote.debugStruct unprintable action.variant action.fields

/-- The files of the plan, in the order of its links. -/
def TrackingPlan.files (plan : TrackingPlan) : List FilePlan := plan.linkPlans.flatMap LinkPlan.files

/-- `[u8::from(f.exists), u8::from(f.changed)]`. -/
def flagBytes (flags : Bool × Bool) : List UInt8 := [flags.1.toUInt8, flags.2.toUInt8]

/-- What the digest says about a file. -/
def fileFields (file : FilePlan) : Str × Bool × Bool := (file.path, file.exists_, file.changed)

/-- The fields that `link_digest` feeds to the hasher. -/
def linkFields (unprintable : Char → Bool) (projectId folder : Str) (plan : TrackingPlan) :
    List (List UInt8) :=
  [utf8 projectId, utf8 folder, leBytes 2 plan.port]
    ++ plan.serviceActions.map (fun action => utf8 (action.debug unprintable))
    ++ plan.routeActions.map (fun action => utf8 (action.debug unprintable))
    ++ plan.files.flatMap fun f => [utf8 f.path, flagBytes (f.exists_, f.changed)]

def linkDigest (b : Build) (projectId folder : Str) (plan : TrackingPlan) : Str :=
  b.hash (frames (linkFields b.unprintable projectId folder plan))

/-! ## The preview and its confirmation -/

structure FolderLinkPreview where
  folder : Str
  detection : ProjectDetection
  plan : Option TrackingPlan
  digest : Str
  deriving DecidableEq, Repr

/-- The preview of a detection. A folder without a provider to configure has a preview with no plan. -/
def previewOf (b : Build) (s : Scene) (id name : Str) (detection : ProjectDetection) :
    Except CoreError FolderLinkPreview :=
  match planTracking b s detection (.defaults detection) id name with
  | .ok plan => .ok ⟨detection.folder, detection, some plan, linkDigest b id detection.folder plan⟩
  | .error (.invalidInput message) =>
      if "nothing to configure".toList.isPrefixOf message then
        .ok ⟨detection.folder, detection, none, []⟩
      else .error (.invalidInput message)
  | .error e => .error e

/-- The preview, and the database: a port is persisted before the plan is made. -/
def prepareLink (b : Build) (id name : Str) (s : Scene) : Except CoreError FolderLinkPreview × Db :=
  match s.detection with
  | .error e => (.error e, s.db)
  | .ok detection =>
      match ensurePort s with
      | .error e => (.error e, s.db)
      | .ok db => (previewOf b { s with db } id name detection, db)

def nothingToConfirm : CoreError :=
  .invalidInput ("there is nothing to configure for this folder yet. Approve a destination "
    ++ "first, then confirm.").toList

def changedSinceReview : CoreError :=
  .invalidInput ("this project's folder or configuration changed since it was reviewed. "
    ++ "Look at the new summary and confirm again.").toList

/-- Plan again and compare the digests; `carryOut` is what follows: the apply of the plan, and the
    records of the link. -/
def confirmLink {O : Type} (b : Build) (id name : Str) (s : Scene) (digest : Str)
    (carryOut : Scene → FolderLinkPreview → TrackingPlan → Except CoreError O × Disk × Db) :
    Except CoreError O × Disk × Db :=
  match prepareLink b id name s with
  | (.error e, db) => (.error e, s.disk, db)
  | (.ok preview, db) =>
      match preview.plan with
      | none => (.error nothingToConfirm, s.disk, db)
      | some plan =>
          if digest = [] ∨ preview.digest ≠ digest then (.error changedSinceReview, s.disk, db)
          else carryOut { s with db } preview plan

/-! ## Reading the digest's fields back -/

section
variable {unprintable : Char → Bool}

theorem ServiceAction.variant_blank (a : ServiceAction) : ' ' ∉ a.variant.toList := by
  cases a <;> simp [ServiceAction.variant]

theorem RouteAction.variant_blank (a : RouteAction) : ' ' ∉ a.variant.toList := by
  cases a <;> simp [RouteAction.variant]

theorem ServiceAction.debug_inj {a a' : ServiceAction} (h : a.debug unprintable = a'.debug unprintable) :
    a = a' := by
  obtain ⟨hvariant, hfields⟩ := Quote.debugStruct_inj a.variant_blank a'.variant_blank h
  cases a <;> cases a' <;>
    simp_all [ServiceAction.variant, ServiceAction.fields]

theorem RouteAction.debug_inj {a a' : RouteAction} (h : a.debug unprintable = a'.debug unprintable) :
    a = a' := by
  obtain ⟨hvariant, hfields⟩ := Quote.debugStruct_inj a.variant_blank a'.variant_blank h
  cases a <;> cases a' <;>
    simp_all [RouteAction.variant, RouteAction.fields]

/-- No service action is printed as a route action is. -/
theorem service_debug_ne_route (a : ServiceAction) (r : RouteAction) :
    a.debug unprintable ≠ r.debug unprintable := by
  intro h
  have hvariant := (Quote.debugStruct_inj a.variant_blank r.variant_blank h).1
  cases a <;> cases r <;> simp [ServiceAction.variant, RouteAction.variant] at hvariant

theorem flagBytes_inj {x y : Bool × Bool} (h : flagBytes x = flagBytes y) : x = y := by
  revert h x y
  decide

theorem flagBytes_eq_utf8 (x : Bool × Bool) : ∃ c d, flagBytes x = utf8 [c, d] := by
  obtain ⟨a, b⟩ := x
  refine ⟨if a then '\x01' else '\x00', if b then '\x01' else '\x00', ?_⟩
  revert a b
  decide

/-- A text of more than two characters is not the flags of a file. -/
theorem utf8_ne_flagBytes {t : Str} (h : 2 < t.length) (x : Bool × Bool) : utf8 t ≠ flagBytes x := by
  intro heq
  obtain ⟨c, d, hflags⟩ := flagBytes_eq_utf8 x
  rw [hflags] at heq
  rw [utf8_inj heq] at h
  exact absurd h (by simp)

theorem ServiceAction.length_debug (a : ServiceAction) : 2 < (a.debug unprintable).length := by
  have hvariant : 2 < a.variant.toList.length := by
    cases a <;> simp [ServiceAction.variant]
  unfold ServiceAction.debug Quote.debugStruct
  rw [List.length_append]
  omega

theorem RouteAction.length_debug (a : RouteAction) : 2 < (a.debug unprintable).length := by
  have hvariant : 2 < a.variant.toList.length := by
    cases a <;> simp [RouteAction.variant]
  unfold RouteAction.debug Quote.debugStruct
  rw [List.length_append]
  omega

end

/-- What the digest is made of. -/
structure Decisions where
  folder : Str
  port : Nat
  serviceActions : List ServiceAction
  routeActions : List RouteAction
  files : List (Str × Bool × Bool)
  deriving DecidableEq, Repr

def TrackingPlan.decisions (plan : TrackingPlan) : Decisions where
  folder := plan.folder
  port := plan.port
  serviceActions := plan.serviceActions
  routeActions := plan.routeActions
  files := plan.files.map fileFields

/-- The fields determine the decisions; only the flags tell where the list of files starts. -/
theorem linkFields_inj {unprintable : Char → Bool} {id : Str} {plan plan' : TrackingPlan}
    (hport : plan.port < 2 ^ 16) (hport' : plan'.port < 2 ^ 16)
    (h : linkFields unprintable id plan.folder plan = linkFields unprintable id plan'.folder plan') :
    plan.decisions = plan'.decisions := by
  have hpairs : ∀ files : List FilePlan,
      (files.flatMap fun f => [utf8 f.path, flagBytes (f.exists_, f.changed)])
        = (files.map fun f => (utf8 f.path, flagBytes (f.exists_, f.changed))).flatMap
          fun p => [p.1, p.2] := by
    intro files
    rw [List.flatMap_map]
  unfold linkFields at h
  simp only [List.cons_append, List.nil_append, List.cons.injEq, true_and] at h
  obtain ⟨hfolder, hbytes, hfields⟩ := h
  rw [hpairs, hpairs] at hfields
  have hactions : ∀ plan : TrackingPlan,
      ∀ field ∈ plan.serviceActions.map (fun action => utf8 (action.debug unprintable))
        ++ plan.routeActions.map (fun action => utf8 (action.debug unprintable)),
      ¬∃ x, field = flagBytes x := by
    rintro plan field hfield ⟨x, hx⟩
    rcases List.mem_append.1 hfield with hmem | hmem
    · obtain ⟨a, -, rfl⟩ := List.mem_map.1 hmem
      exact utf8_ne_flagBytes a.length_debug x hx
    · obtain ⟨a, -, rfl⟩ := List.mem_map.1 hmem
      exact utf8_ne_flagBytes a.length_debug x hx
  have hflags : ∀ files : List FilePlan,
      ∀ p ∈ files.map (fun f => (utf8 f.path, flagBytes (f.exists_, f.changed))),
      ∃ x, p.2 = flagBytes x := by
    intro files p hp
    obtain ⟨f, -, rfl⟩ := List.mem_map.1 hp
    exact ⟨_, rfl⟩
  obtain ⟨hdone, hfiles⟩ := append_pairs_inj (hactions plan) (hactions plan') (hflags _) (hflags _)
    hfields
  obtain ⟨hservice, hroutes⟩ := map_append_map_inj
    (fun a a' ha => ServiceAction.debug_inj (utf8_inj ha))
    (fun a a' ha => RouteAction.debug_inj (utf8_inj ha))
    (fun a r har => service_debug_ne_route a r (utf8_inj har)) hdone
  have hpaths : plan.files.map fileFields = plan'.files.map fileFields := by
    have hinj : Function.Injective fun p : Str × Bool × Bool => (utf8 p.1, flagBytes p.2) := by
      intro p q hpq
      obtain ⟨hpath, hflag⟩ := Prod.mk.inj hpq
      exact Prod.ext (utf8_inj hpath) (flagBytes_inj hflag)
    refine hinj.list_map ?_
    rw [List.map_map, List.map_map]
    exact hfiles
  unfold TrackingPlan.decisions
  rw [utf8_inj hfolder, leBytes_inj hport hport' hbytes, hservice, hroutes, hpaths]

/-- The digest is made of the decisions only. -/
theorem linkDigest_congr {b : Build} {id : Str} {plan plan' : TrackingPlan}
    (h : plan.decisions = plan'.decisions) :
    linkDigest b id plan.folder plan = linkDigest b id plan'.folder plan' := by
  have hfiles : ∀ files : List FilePlan,
      (files.flatMap fun f => [utf8 f.path, flagBytes (f.exists_, f.changed)])
        = (files.map fileFields).flatMap fun f => [utf8 f.1, flagBytes f.2] := by
    intro files
    rw [List.flatMap_map]
    rfl
  obtain ⟨hfolder, hport, hservice, hroutes, hpaths⟩ := Decisions.mk.inj h
  unfold linkDigest linkFields
  rw [hfolder, hport, hservice, hroutes, hfiles, hfiles, hpaths]

/-! ## What the user was shown -/

/-- The plan of a preview. -/
def planShown (b : Build) (id name : Str) (s : Scene) : Option TrackingPlan :=
  match (prepareLink b id name s).1 with
  | .ok preview => preview.plan
  | .error _ => none

/-- The variables that are set in each file. -/
def TrackingPlan.setVars (plan : TrackingPlan) : List (Str × List Str) :=
  plan.linkPlans.flatMap fun link => link.files.map fun file => (file.path, link.vars)

/-- The files that the first plan edits are as they were, and the second plan does the same as it. -/
structure SamePlan (s₀ : Scene) (plan₀ : TrackingPlan) (s₁ : Scene) (plan₁ : TrackingPlan) : Prop where
  bytes : ∀ file ∈ plan₀.files, file.changed → s₁.disk.file file.path = s₀.disk.file file.path
  setVars : plan₁.setVars = plan₀.setVars
  serviceActions : plan₁.serviceActions = plan₀.serviceActions
  routeActions : plan₁.routeActions = plan₀.routeActions
  attribution : plan₁.attribution = plan₀.attribution
  port : plan₁.port = plan₀.port

section
variable (b : Build) (id name : Str)

/-- A confirmation now would do what was shown. -/
def Unchanged (s₀ : Scene) (plan₀ : TrackingPlan) (s₁ : Scene) : Prop :=
  ∃ plan₁, planShown b id name s₁ = some plan₁ ∧ SamePlan s₀ plan₀ s₁ plan₁

/-- Whatever would follow the check: an error, and the files and the database as they are. -/
def Refuses (s : Scene) (digest : Str) : Prop :=
  ∃ e, ∀ (O : Type) (carryOut : Scene → FolderLinkPreview → TrackingPlan →
      Except CoreError O × Disk × Db),
    confirmLink b id name s digest carryOut = (.error e, s.disk, s.db)

/-- What follows the check is run, on a preview made now. -/
def Accepts (s : Scene) (digest : Str) : Prop :=
  ∃ preview plan db, ∀ (O : Type) (carryOut : Scene → FolderLinkPreview → TrackingPlan →
      Except CoreError O × Disk × Db),
    confirmLink b id name s digest carryOut = carryOut { s with db } preview plan

/-- The digest of a preview is the consent to this plan, and to no other. -/
structure Consent (s₀ : Scene) (plan₀ : TrackingPlan) (s₁ : Scene) : Prop where
  refuses : ¬Unchanged b id name s₀ plan₀ s₁ →
    Refuses b id name s₁ (linkDigest b id plan₀.folder plan₀)
  accepts : (∃ plan₁, planShown b id name s₁ = some plan₁ ∧ SamePlan s₀ plan₀ s₁ plan₁ ∧
      plan₁.folder = plan₀.folder ∧ plan₁.files.map fileFields = plan₀.files.map fileFields) →
    Accepts b id name s₁ (linkDigest b id plan₀.folder plan₀)

/-- A port is there, or none would be drawn. -/
def Scene.KeepsPort (s : Scene) : Prop :=
  ∀ detection port, s.detection = .ok detection → s.freePort = .ok port → s.db.port ≠ none

/-- The port of the plan and the lengths of the digest's fields are in their ranges. -/
structure LinkFits (plan : TrackingPlan) : Prop where
  port : plan.port < 2 ^ 16
  lengths : ∀ field ∈ linkFields b.unprintable id plan.folder plan, Fits field

/-- When the decisions are those of the preview, what is not among them is unchanged too; and the
    confirmation has no port to draw, unless there is nothing to refuse. -/
structure Covered (s₀ : Scene) (plan₀ : TrackingPlan) (s₁ : Scene) : Prop where
  rest : ∀ plan₁, planShown b id name s₁ = some plan₁ → plan₁.decisions = plan₀.decisions →
    (∀ file ∈ plan₀.files, file.changed → s₁.disk.file file.path = s₀.disk.file file.path) ∧
      plan₁.setVars = plan₀.setVars
  port : Unchanged b id name s₀ plan₀ s₁ ∨ s₁.KeepsPort

end

theorem planTracking_ok {b : Build} {s : Scene} {detection : ProjectDetection} {selections : Selections}
    {id name : Str} {plan : TrackingPlan} (h : planTracking b s detection selections id name = .ok plan) :
    plan.folder = detection.folder ∧ plan.attribution = .requested := by
  unfold planTracking at h
  obtain ⟨port, -, h⟩ := bind_eq_ok.1 h
  obtain ⟨serviceActions, -, h⟩ := bind_eq_ok.1 h
  obtain ⟨plans, -, h⟩ := bind_eq_ok.1 h
  split at h
  · cases h
  · obtain rfl := Except.ok.inj h
    exact ⟨rfl, rfl⟩

theorem planShown_eq_some {b : Build} {id name : Str} {s : Scene} {plan : TrackingPlan}
    (h : planShown b id name s = some plan) :
    ∃ preview, (prepareLink b id name s).1 = .ok preview ∧ preview.plan = some plan ∧
      preview.digest = linkDigest b id plan.folder plan ∧ plan.attribution = .requested := by
  unfold planShown at h
  split at h
  · rename_i preview hpreview
    refine ⟨preview, hpreview, h, ?_⟩
    unfold prepareLink at hpreview
    split at hpreview
    · cases hpreview
    · split at hpreview
      · cases hpreview
      · unfold previewOf at hpreview
        dsimp only at hpreview
        split at hpreview
        · rename_i planned hplan
          obtain rfl := Except.ok.inj hpreview
          obtain rfl := Option.some.inj h
          obtain ⟨hfolder, hattribution⟩ := planTracking_ok hplan
          exact ⟨by rw [hfolder], hattribution⟩
        · split at hpreview
          · obtain rfl := Except.ok.inj hpreview
            cases h
          · cases hpreview
        · cases hpreview
  · cases h

/-- A confirmation compares the digest of the plan made now. -/
theorem confirmLink_shown {b : Build} {id name : Str} {s : Scene} {plan : TrackingPlan}
    (h : planShown b id name s = some plan) :
    ∃ preview, ∀ (digest : Str) (O : Type)
      (carryOut : Scene → FolderLinkPreview → TrackingPlan → Except CoreError O × Disk × Db),
      confirmLink b id name s digest carryOut
        = if digest = [] ∨ linkDigest b id plan.folder plan ≠ digest then
            (.error changedSinceReview, s.disk, (prepareLink b id name s).2)
          else carryOut { s with db := (prepareLink b id name s).2 } preview plan := by
  obtain ⟨preview, hpreview, hplan, hdigest, -⟩ := planShown_eq_some h
  refine ⟨preview, fun digest O carryOut => ?_⟩
  unfold confirmLink
  rw [← Prod.mk.eta (p := prepareLink b id name s), hpreview]
  dsimp only
  rw [hplan, hdigest]

theorem confirmLink_hidden {b : Build} {id name : Str} {s : Scene} (h : planShown b id name s = none) :
    ∃ e, ∀ (digest : Str) (O : Type)
      (carryOut : Scene → FolderLinkPreview → TrackingPlan → Except CoreError O × Disk × Db),
      confirmLink b id name s digest carryOut = (.error e, s.disk, (prepareLink b id name s).2) := by
  unfold planShown at h
  split at h
  · rename_i preview hpreview
    refine ⟨nothingToConfirm, fun digest O carryOut => ?_⟩
    unfold confirmLink
    rw [← Prod.mk.eta (p := prepareLink b id name s), hpreview]
    dsimp only
    rw [h]
  · rename_i e hprepared
    refine ⟨e, fun digest O carryOut => ?_⟩
    unfold confirmLink
    rw [← Prod.mk.eta (p := prepareLink b id name s), hprepared]

/-- `prepareLink` writes the port that it draws, and nothing else. -/
theorem prepareLink_db_eq (b : Build) (id name : Str) (s : Scene) :
    (prepareLink b id name s).2 = s.db ↔ s.KeepsPort := by
  unfold prepareLink Scene.KeepsPort ensurePort
  cases hdetection : s.detection with
  | error e => simp
  | ok detection =>
      cases hport : s.db.port with
      | some port => simp
      | none =>
          cases hfree : s.freePort with
          | error e => simp [Except.map]
          | ok port =>
              refine ⟨fun hdb => ?_, fun hkeeps => absurd rfl (hkeeps detection port rfl rfl)⟩
              have hset := congrArg Db.port hdb
              rw [hport] at hset
              cases hset

/-- What follows the check is run, or the call ends in an error: not both. -/
theorem not_refuses_of_accepts {b : Build} {id name digest : Str} {s : Scene}
    (h : Accepts b id name s digest) : ¬Refuses b id name s digest := by
  rintro ⟨e, hrefuses⟩
  obtain ⟨preview, plan, db, haccepts⟩ := h
  have hunit := (haccepts Unit fun s _ _ => (.ok (), s.disk, s.db)).symm.trans (hrefuses Unit _)
  cases (Prod.mk.inj hunit).1

/-- Consent covers what was shown exactly when a plan with the decisions of the preview leaves the edited
    files and the variables as they were, and the vault has kept its port. -/
theorem consent_iff {b : Build} {id name : Str} {s₀ s₁ : Scene} {plan₀ : TrackingPlan}
    (hshown : planShown b id name s₀ = some plan₀) (hfits : LinkFits b id plan₀)
    (hfits₁ : ∀ plan₁, planShown b id name s₁ = some plan₁ → LinkFits b id plan₁)
    (hnonempty : linkDigest b id plan₀.folder plan₀ ≠ [])
    (hcollision : ∀ plan₁, planShown b id name s₁ = some plan₁ →
      linkDigest b id plan₁.folder plan₁ = linkDigest b id plan₀.folder plan₀ →
      frames (linkFields b.unprintable id plan₁.folder plan₁)
        = frames (linkFields b.unprintable id plan₀.folder plan₀)) :
    Consent b id name s₀ plan₀ s₁ ↔ Covered b id name s₀ plan₀ s₁ := by
  obtain ⟨-, -, -, -, hattribution⟩ := planShown_eq_some hshown
  have hdecisions : ∀ plan₁, planShown b id name s₁ = some plan₁ →
      (linkDigest b id plan₁.folder plan₁ = linkDigest b id plan₀.folder plan₀ ↔
        plan₁.decisions = plan₀.decisions) := by
    intro plan₁ hplan₁
    refine ⟨fun hdigest => ?_, fun h => ?_⟩
    · have hfields := frames_inj (hfits₁ plan₁ hplan₁).lengths hfits.lengths
        (hcollision plan₁ hplan₁ hdigest)
      exact linkFields_inj (hfits₁ plan₁ hplan₁).port hfits.port hfields
    · exact linkDigest_congr h
  have haccepts : ∀ plan₁, planShown b id name s₁ = some plan₁ → plan₁.decisions = plan₀.decisions →
      Accepts b id name s₁ (linkDigest b id plan₀.folder plan₀) := by
    intro plan₁ hplan₁ hsame
    obtain ⟨preview, hconfirm⟩ := confirmLink_shown hplan₁
    refine ⟨preview, plan₁, (prepareLink b id name s₁).2, fun O carryOut => ?_⟩
    rw [hconfirm, if_neg]
    rintro (hnil | hne)
    · exact hnonempty hnil
    · exact hne ((hdecisions plan₁ hplan₁).2 hsame)
  constructor
  · intro hconsent
    refine ⟨fun plan₁ hplan₁ hsame => ?_, ?_⟩
    · by_contra hrest
      refine not_refuses_of_accepts (haccepts plan₁ hplan₁ hsame) (hconsent.refuses ?_)
      rintro ⟨plan, hplan, hunchanged⟩
      obtain rfl := Option.some.inj (hplan₁.symm.trans hplan)
      exact hrest ⟨hunchanged.bytes, hunchanged.setVars⟩
    · by_cases hunchanged : Unchanged b id name s₀ plan₀ s₁
      · exact .inl hunchanged
      · refine .inr ((prepareLink_db_eq b id name s₁).1 ?_)
        obtain ⟨e, hrefuses⟩ := hconsent.refuses hunchanged
        have hrun := hrefuses Unit fun s _ _ => (.ok (), s.disk, s.db)
        cases hplan : planShown b id name s₁ with
        | none =>
            obtain ⟨e', hconfirm⟩ := confirmLink_hidden hplan
            exact congrArg (fun r => r.2.2) ((hconfirm _ _ _).symm.trans hrun)
        | some plan₁ =>
            obtain ⟨preview, hconfirm⟩ := confirmLink_shown hplan
            rw [hconfirm] at hrun
            split at hrun
            · exact congrArg (fun r => r.2.2) hrun
            · exact congrArg (fun r => r.2.2) hrun
  · intro hcovered
    refine ⟨fun hchanged => ?_, ?_⟩
    · have hdb := (prepareLink_db_eq b id name s₁).2 (hcovered.port.resolve_left hchanged)
      cases hplan : planShown b id name s₁ with
      | none =>
          obtain ⟨e, hconfirm⟩ := confirmLink_hidden hplan
          refine ⟨e, fun O carryOut => ?_⟩
          rw [hconfirm, hdb]
      | some plan₁ =>
          obtain ⟨preview, hconfirm⟩ := confirmLink_shown hplan
          have hdigest : linkDigest b id plan₁.folder plan₁ ≠ linkDigest b id plan₀.folder plan₀ := by
            intro hdigest
            have hsame := (hdecisions plan₁ hplan).1 hdigest
            obtain ⟨hbytes, hvars⟩ := hcovered.rest plan₁ hplan hsame
            obtain ⟨-, -, -, -, hattribution₁⟩ := planShown_eq_some hplan
            exact hchanged ⟨plan₁, hplan, hbytes, hvars, congrArg Decisions.serviceActions hsame,
              congrArg Decisions.routeActions hsame, hattribution₁.trans hattribution.symm,
              congrArg Decisions.port hsame⟩
          refine ⟨changedSinceReview, fun O carryOut => ?_⟩
          rw [hconfirm, if_pos (.inr hdigest), hdb]
    · rintro ⟨plan₁, hplan₁, hsame, hfolder, hfiles⟩
      refine haccepts plan₁ hplan₁ ?_
      unfold TrackingPlan.decisions
      rw [hfolder, hsame.port, hsame.serviceActions, hsame.routeActions, hfiles]

/-! ## A file that is edited before the confirmation -/

def linkBuild : Build where
  env := framedEnv
  version := "0.1.0".toList
  hash := fun bytes => bytes.map fun byte => Char.ofNat byte.toNat
  unprintable := fun _ => false
  lowercase := Observe.asciiLower

def groqDetection : ProjectDetection where
  folder := "/web".toList
  providers := [⟨"groq".toList, .confirmed, .automatic, [".env".toList]⟩]
  dotenvLoader := some true
  dockerCompose := false

/-- The project's folder with one `.env`, and a gateway that runs. -/
def webScene (content : String) : Scene where
  disk := Disk.single "/web/.env".toList content.toList
  db := twoRoutesDb
  detection := .ok groqDetection
  service := ⟨true, none, true, none, true⟩
  listenerLive := true
  freePort := .ok 8787
  slugs := fun _ => "web-1".toList

/-- The part of the apply that writes the files. -/
def writeLinks (s : Scene) (_ : FolderLinkPreview) (plan : TrackingPlan) :
    Except CoreError Unit × Disk × Db :=
  match applyLinks framedEnv (some plainCrypto) ⟨plan.projectId, plan.projectName, plan.folder⟩ s.disk
      s.db (plan.linkPlans.map fun link => (link, "web-2".toList)) with
  | .ok (disk, db) => (.ok (), disk, db)
  | .error e => (.error e, s.disk, s.db)

theorem linkBuild_hash_inj {x y : List UInt8} (h : linkBuild.hash x = linkBuild.hash y) : x = y := by
  have hbyte : Function.Injective fun byte : UInt8 => Char.ofNat byte.toNat := by
    intro m n hmn
    have hnat := congrArg Char.toNat hmn
    dsimp only at hnat
    rw [Char.toNat_ofNat, Char.toNat_ofNat, if_pos (.inl (by have := m.toNat_lt; omega)),
      if_pos (.inl (by have := n.toNat_lt; omega))] at hnat
    exact UInt8.toNat_inj.1 hnat
  exact hbyte.list_map h

theorem linkFits_web {content : String} (hcontent : content = "A=1\n" ∨ content = "A=2\n")
    {plan : TrackingPlan}
    (hplan : planShown linkBuild "p1".toList "web".toList (webScene content) = some plan) :
    LinkFits linkBuild "p1".toList plan := by
  have heval : (planShown linkBuild "p1".toList "web".toList (webScene content)).map (fun plan =>
      decide (plan.port < 2 ^ 16 ∧
        ∀ field ∈ linkFields linkBuild.unprintable "p1".toList plan.folder plan, field.length < 256 ^ 8))
      = some true := by
    obtain rfl | rfl := hcontent
    · decide
    · decide
  rw [hplan] at heval
  obtain ⟨hport, hlengths⟩ := of_decide_eq_true (Option.some.inj heval)
  exact ⟨hport, hlengths⟩

theorem consent_iff_web :
    ∃ plan₀, planShown linkBuild "p1".toList "web".toList (webScene "A=1\n") = some plan₀ ∧
      (Consent linkBuild "p1".toList "web".toList (webScene "A=1\n") plan₀ (webScene "A=2\n") ↔
        Covered linkBuild "p1".toList "web".toList (webScene "A=1\n") plan₀ (webScene "A=2\n")) := by
  have heval : (planShown linkBuild "p1".toList "web".toList (webScene "A=1\n")).map (fun plan =>
      decide (linkDigest linkBuild "p1".toList plan.folder plan ≠ [])) = some true := by
    decide
  obtain ⟨plan₀, hplan, hdigest⟩ := Option.map_eq_some_iff.1 heval
  refine ⟨plan₀, hplan, consent_iff hplan (linkFits_web (.inl rfl) hplan)
    (fun plan₁ hplan₁ => linkFits_web (.inr rfl) hplan₁) (of_decide_eq_true hdigest) ?_⟩
  exact fun plan₁ _ hsame => linkBuild_hash_inj hsame

/-- The digest of a preview confirms a plan over other contents of the file, and the file is written. -/
theorem edited_file_accepted :
    ∃ plan₀, planShown linkBuild "p1".toList "web".toList (webScene "A=1\n") = some plan₀ ∧
      ¬Consent linkBuild "p1".toList "web".toList (webScene "A=1\n") plan₀ (webScene "A=2\n") ∧
      (confirmLink linkBuild "p1".toList "web".toList (webScene "A=2\n")
        (linkDigest linkBuild "p1".toList plan₀.folder plan₀) writeLinks).2.1.file "/web/.env".toList
        ≠ .regular "A=2\n".toList := by
  have heval : (planShown linkBuild "p1".toList "web".toList (webScene "A=1\n")).map (fun plan₀ =>
      let run := confirmLink linkBuild "p1".toList "web".toList (webScene "A=2\n")
        (linkDigest linkBuild "p1".toList plan₀.folder plan₀) writeLinks
      decide (run.1.toOption = some () ∧ run.2.1.file "/web/.env".toList ≠ .regular "A=2\n".toList ∧
        ∃ file ∈ plan₀.files, file.changed ∧ (webScene "A=2\n").disk.file file.path
          ≠ (webScene "A=1\n").disk.file file.path)) = some true := by
    unfold linkBuild writeLinks
    rw [framedEnv_eq]
    decide +kernel
  obtain ⟨plan₀, hplan, hrun⟩ := Option.map_eq_some_iff.1 heval
  obtain ⟨hok, hwritten, file, hfile, hchanged, hedited⟩ := of_decide_eq_true hrun
  refine ⟨plan₀, hplan, fun hconsent => ?_, hwritten⟩
  obtain ⟨e, hrefuses⟩ := hconsent.refuses (fun ⟨_, _, hsame⟩ =>
    hedited (hsame.bytes file hfile hchanged))
  rw [hrefuses Unit writeLinks] at hok
  cases hok

end Tethra.Tracking
