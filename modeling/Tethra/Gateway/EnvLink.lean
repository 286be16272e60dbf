import Tethra.Core.EnvFile
import Tethra.Gateway.Routes

set_option autoImplicit false

/-! # The `.env` link writer (`gateway/src/envlink.rs`)

Linking a project to a route points the provider's variables at the local gateway: `planFile` computes
the rewrite of one file and the record of what it held, `applyLink` commits the record and writes the
files, `unlink` restores them from the record. The warnings and the masked diff of a plan are for the
preview only and are left out. -/

namespace Tethra.Gateway

open Text Tethra.Core.EnvFile

/-! ## Files -/

/-- What a path holds. -/
inductive FileState where
  | missing
  | statFailed (error : Str)
  | symlink
  | directory
  | unreadable (error : Str)
  | regular (content : Str)
  deriving DecidableEq, Repr

/-- The files, and the error that the operating system answers a write of each with. -/
structure Disk where
  file : Str → FileState
  writeError : Str → Option Str

def Disk.setFile (disk : Disk) (path : Str) (s : FileState) : Disk :=
  { disk with file := Function.update disk.file path s }

/-- `envgov::atomic_write`: replace the file, or leave it as it is. -/
def atomicWrite (disk : Disk) (path content : Str) : Except Str Disk :=
  match disk.writeError path with
  | some e => .error e
  | none => .ok (disk.setFile path (.regular content))

/-- `envgov::write_new`: create the file, never replace one. -/
def writeNew (disk : Disk) (path content : Str) : Except CoreError Disk :=
  match disk.writeError path, disk.file path with
  | some e, _ => .error (.io e)
  | none, .missing => .ok (disk.setFile path (.regular content))
  | none, _ => .error (.invalidInput
      (path ++ " already exists; pass the overwrite flag to replace it".toList))

/-- `std::fs::remove_file`. -/
def removeFile (disk : Disk) (path : Str) : Except Str Disk :=
  match disk.writeError path with
  | some e => .error e
  | none => .ok (disk.setFile path .missing)

/-! ## Requests and plans -/

/-- The `[gateway]` section of a provider manifest. -/
structure GatewaySection where
  envVars : List Str
  basePath : Str
  deriving DecidableEq, Repr

structure LinkRequest where
  projectId : Str
  projectName : Str
  routePrefix : Str
  projectDir : Option Str
  files : List Str
  varOverride : Option Str
  deriving DecidableEq, Repr

structure FilePlan where
  path : Str
  exists_ : Bool
  changed : Bool
  newContent : Str
  oldContent : Str
  prior : PriorFile
  deriving DecidableEq, Repr

structure LinkPlan where
  projectId : Str
  projectName : Str
  routePrefix : Str
  providerId : Str
  linkSlug : Str
  existingLink : Bool
  port : Nat
  baseUrl : Str
  vars : List Str
  files : List FilePlan
  digest : Str
  deriving DecidableEq, Repr

/-- What the planner uses of code that is not modelled: the provider manifests and the hash. -/
structure Env where
  gateway : Str → Option GatewaySection
  blake3 : List Str → Str

/-- Bind a plan to the state it was computed against: what was read and what would be written. -/
def planDigest (env : Env) (slug : Str) (files : List FilePlan) : Str :=
  env.blake3 (slug :: files.flatMap fun p => [p.path, p.oldContent, p.newContent])

/-- The marker comment placed above every line the writer owns. -/
def markerComment (providerId projectName : Str) : Str :=
  gatewayMarkerTag ++ " route: ".toList ++ providerId ++ " (project: ".toList ++ projectName
    ++ (") — remove this line if 127.0.0.1 refuses connections, "
      ++ "or run: tethra gateway status").toList

/-- `NO_PROXY_ENTRIES`. -/
def noProxyEntries : List Str := ["127.0.0.1".toList, "localhost".toList, "::1".toList]

/-- Which variables to write for a provider, honoring an override. -/
def linkVars (env : Env) (providerId : Str) (varOverride : Option Str) :
    Except CoreError (List Str) :=
  match varOverride with
  | some var =>
      let var := trim var
      if var.isEmpty || var.contains '=' || var.any isWhitespace then
        .error (.invalidInput ("'".toList ++ var ++ "' is not a variable name".toList))
      else .ok [var]
  | none =>
      match ((env.gateway providerId).map GatewaySection.envVars).getD [] with
      | [] => .error (.unsupported providerId "gateway_env_link"
          ("this provider declares no base-URL environment variable; pass the "
            ++ "variable name explicitly (--var NAME) if its SDK supports one").toList)
      | declared => .ok declared

/-- The client-side base path for a provider. -/
def basePath (env : Env) (providerId : Str) : Str :=
  ((env.gateway providerId).map GatewaySection.basePath).getD []

def linkBaseUrl (env : Env) (port : Nat) (slug prefix_ providerId : Str) : Str :=
  "http://127.0.0.1:".toList ++ Nat.toDigits 10 port ++ "/p/".toList ++ slug ++ '/' :: prefix_
    ++ basePath env providerId

/-! ## Planning one file -/

def toAsciiLower (c : Char) : Char :=
  if 0x41 ≤ c.toNat ∧ c.toNat ≤ 0x5A then Char.ofNat (c.toNat + 0x20) else c

def eqIgnoreAsciiCase (a b : Str) : Bool := a.map toAsciiLower = b.map toAsciiLower

/-- The entries of a comma-separated list. -/
def commaEntries (current : Str) : List Str :=
  ((current.splitOn ',').map trim).filter (· ≠ [])

/-- The loopback entries that a `NO_PROXY` list lacks. -/
def missingEntries (current : Str) : List Str :=
  noProxyEntries.filter fun needed => !(commaEntries current).any (eqIgnoreAsciiCase · needed)

/-- Append the loopback entries missing from a `NO_PROXY` list. -/
def extendNoProxy (current : Str) : Str :=
  (missingEntries current).foldl
    (fun out needed => if out.isEmpty then needed else out ++ ',' :: needed) (trim current)

/-- A fresh record of a variable: nothing is sealed or withheld yet. -/
def PriorVar.fresh (key : Str) (prior : Option Str) (priorAll : List Str) (written : Str) :
    PriorVar :=
  { key, prior, sealed := none, priorWithheld := false, written, priorAll, sealedAll := [] }

/-- Repoint one variable, recording what it held. -/
def planVar (baseUrl marker : Str) (st : EnvDocument × List PriorVar) (var : Str) :
    EnvDocument × List PriorVar :=
  let existing := (st.1.get var).map EnvEntry.value
  let all := st.1.values var
  let priorAll := if 1 < all.length then all else []
  (st.1.setWithComment var baseUrl marker, st.2 ++ [.fresh var existing priorAll baseUrl])

/-- The spellings of `NO_PROXY`, one for each of their occurrences. -/
def proxyKeys (doc : EnvDocument) : List Str :=
  (doc.entries.filter fun e => eqIgnoreAsciiCase e.key "no_proxy".toList).map EnvEntry.key

/-- Extend one spelling of `NO_PROXY`. -/
def planProxyKey (st : EnvDocument × List PriorVar) (key : Str) : EnvDocument × List PriorVar :=
  let current := ((st.1.get key).map EnvEntry.value).getD []
  let extended := extendNoProxy current
  if extended ≠ current then
    (st.1.set key extended, st.2 ++ [.fresh key (some current) [] extended])
  else st

/-- Extend every existing spelling of `NO_PROXY`, or create it. -/
def planNoProxy (marker : Str) (st : EnvDocument × List PriorVar) : EnvDocument × List PriorVar :=
  match proxyKeys st.1 with
  | [] =>
      let value := [','].intercalate noProxyEntries
      (st.1.setWithComment "NO_PROXY".toList value marker,
        st.2 ++ [.fresh "NO_PROXY".toList none [] value])
  | keys => keys.foldl planProxyKey st

/-- The edits of one document: the variables, then `NO_PROXY`. -/
def planDocument (vars : List Str) (baseUrl marker : Str) (doc : EnvDocument) :
    EnvDocument × List PriorVar :=
  planNoProxy marker (vars.foldl (planVar baseUrl marker) (doc, []))

/-- The content that planning works on: what a preceding plan of the same review left, or the
    disk. -/
def readForPlan (disk : Disk) (path : Str) (projected : Option Str) :
    Except CoreError (Bool × Str) :=
  match disk.file path, projected with
  | .symlink, _ => .error (.invalidInput (path
      ++ " is a symlink; refusing to rewrite it (link the target file directly)".toList))
  | _, some content => .ok (true, content)
  | .missing, none => .ok (false, [])
  | .statFailed _, none => .ok (false, [])
  | .directory, none => .error (.io "Is a directory (os error 21)".toList)
  | .unreadable e, none => .error (.io e)
  | .regular content, none => .ok (true, content)

/-- Plan the rewrite of one file. -/
def planFile (disk : Disk) (path : Str) (vars : List Str) (baseUrl marker : Str)
    (projected : Option Str) : Except CoreError FilePlan := do
  let (exists_, oldContent) ← readForPlan disk path projected
  let (doc, priorVars) := planDocument vars baseUrl marker (EnvDocument.parse oldContent)
  let newContent := doc.render
  pure { path, exists_, changed := newContent ≠ oldContent, newContent, oldContent,
         prior := { path, existed := exists_, vars := priorVars } }

/-! ## Planning a link -/

/-- `dir.join(".env")`. -/
def joinEnv (dir : Str) : Str :=
  if dir.getLast? = some '/' then dir ++ ".env".toList else dir ++ "/.env".toList

/-- Which files a request names: the explicit list, or the project directory's `.env`. -/
def resolveFiles (disk : Disk) (req : LinkRequest) : Except CoreError (List Str) :=
  match req.files with
  | [] =>
      match req.projectDir with
      | none => .error (.invalidInput
          ("no environment file selected: pass --env-file <path>, or --dir <project "
            ++ "directory> to use its .env").toList)
      | some dir =>
          if disk.file dir = .directory then .ok [joinEnv dir]
          else .error (.invalidInput (dir ++ " is not a directory".toList))
  | files =>
      match files.find? fun f => disk.file f = .directory with
      | some f => .error (.invalidInput
          (f ++ " is a directory; pass the environment FILE to link".toList))
      | none => .ok files

/-- `plan_link_as_provider_projected`; `fresh` is the slug that `new_link_slug` would draw. -/
def planLinkAsProvider (env : Env) (disk : Disk) (db : Db) (req : LinkRequest) (providerId : Str)
    (portOverride : Option Nat) (projected : List (Str × Str)) (fresh : Str) :
    Except CoreError LinkPlan := do
  let vars ← linkVars env providerId req.varOverride
  match portOverride <|> db.port with
  | none => .error (.invalidInput
      ("the gateway has no persisted port yet, so a stable base URL cannot be "
        ++ "written. Enable the gateway (or run `tethra gateway serve` once) first.").toList)
  | some port =>
      let existing := findProjectLink db req.projectId req.routePrefix
      let linkSlug := (existing.map ProjectLinkRow.linkSlug).getD fresh
      let baseUrl := linkBaseUrl env port linkSlug req.routePrefix providerId
      let marker := markerComment providerId req.projectName
      let paths ← resolveFiles disk req
      let files ← paths.mapM fun path =>
        planFile disk path vars baseUrl marker (projected.lookup path)
      pure { projectId := req.projectId, projectName := req.projectName,
             routePrefix := req.routePrefix, providerId, linkSlug,
             existingLink := existing.isSome, port, baseUrl, vars, files,
             digest := planDigest env linkSlug files }

def noRoute (req : LinkRequest) : CoreError := .notFound "gateway route" req.routePrefix

/-- Compute the plan. -/
def planLink (env : Env) (disk : Disk) (db : Db) (req : LinkRequest) (fresh : Str) :
    Except CoreError LinkPlan :=
  match routeProvider db req.routePrefix with
  | none => .error (noRoute req)
  | some (providerId, _) => planLinkAsProvider env disk db req providerId none [] fresh

/-- Plan with a fixed slug. -/
def planLinkWithSlug (env : Env) (disk : Disk) (db : Db) (req : LinkRequest) (slug fresh : Str) :
    Except CoreError LinkPlan := do
  let plan ← planLink env disk db req fresh
  if plan.linkSlug = slug then pure plan
  else
    match routeProvider db req.routePrefix with
    | none => .error (noRoute req)
    | some (providerId, _) =>
        let baseUrl := linkBaseUrl env plan.port slug req.routePrefix providerId
        let marker := markerComment providerId req.projectName
        let paths ← resolveFiles disk req
        let files ← paths.mapM fun path => planFile disk path plan.vars baseUrl marker none
        pure { plan with digest := planDigest env slug files, linkSlug := slug, baseUrl, files }

/-! ## Applying -/

/-- The stored record of a link, re-sealed or redacted. -/
def existingPrior (db : Db) (crypto : Option RestoreCrypto) (slug : Str) :
    Except CoreError (List PriorFile) :=
  match (db.links.find? (·.linkSlug = slug)).bind ProjectLinkRow.priorEnv with
  | none => .ok []
  | some prior => do
      checkPriorEnvVersion prior.v
      match crypto with
      | some _ => sealPriorFiles crypto slug prior.files
      | none => pure (redactAllPlaintext prior.files)

/-- Insert the row of a link that the plan did not find. -/
def ensureLinkRow (db : Db) (req : LinkRequest) (plan : LinkPlan) : Except CoreError Db :=
  if !plan.existingLink then
    addProjectLinkWithSlug db req.projectId req.routePrefix plan.linkSlug
  else .ok db

/-- Write one planned file. -/
def writePlanned (disk : Disk) (file : FilePlan) : Except CoreError Disk :=
  if !file.changed then .ok disk
  else if file.exists_ then (atomicWrite disk file.path file.newContent).mapError .io
  else writeNew disk file.path file.newContent

/-- Apply a previously previewed plan: re-plan, refuse when the digest differs, commit the record,
    then write the files. -/
def applyLink (env : Env) (disk : Disk) (db : Db) (crypto : Option RestoreCrypto)
    (req : LinkRequest) (approved : LinkPlan) (fresh : Str) :
    Except CoreError (Disk × Db × PriorEnv) := do
  let replanned ← planLinkWithSlug env disk db req approved.linkSlug fresh
  if replanned.digest ≠ approved.digest then
    .error (.invalidInput
      ("the environment files changed since the preview; re-run the link to see "
        ++ "the current diff").toList)
  else
    let db ← ensureLinkRow db req replanned
    let sealed ← sealPriorFiles crypto replanned.linkSlug (replanned.files.map FilePlan.prior)
    let stored ← existingPrior db crypto replanned.linkSlug
    let prior : PriorEnv :=
      { v := priorEnvVersion, port := replanned.port, files := mergePrior stored sealed }
    let db := updateLinkEnv db replanned.linkSlug
      (replanned.files.head?.map FilePlan.path) (some prior)
    let disk ← replanned.files.foldlM writePlanned disk
    pure (disk, db, prior)

/-! ## Restoring -/

/-- How one variable was handled during restore. -/
inductive RestoreOutcome where
  | restored (path key : Str)
  | leftUserEdit (path key : Str)
  | alreadyRestored (path key : Str)
  | fileMissing (path : Str)
  | createdFileRemoved (path : Str)
  | priorNotRecorded (path key : Str)
  | failed (path key error : Str)
  deriving DecidableEq, Repr

/-- Whether one outcome leaves that variable settled. -/
def outcomeIsSettled : RestoreOutcome → Bool
  | .restored .. => true
  | .alreadyRestored .. => true
  | .fileMissing .. => true
  | .createdFileRemoved .. => true
  | .leftUserEdit .. => true
  | .priorNotRecorded .. => false
  | .failed .. => false

/-- The document, whether it changed, and what happened so far. -/
structure RestoreState where
  doc : EnvDocument
  changed : Bool
  outcomes : List RestoreOutcome

/-- Put the recorded prior state of a variable back. -/
def restorePrior (var : PriorVar) (doc : EnvDocument) : EnvDocument :=
  match var.prior with
  | some p =>
      let doc := if 1 < var.priorAll.length then doc.setEachOccurrence var.key var.priorAll
        else doc.set var.key p
      (doc.removeMarkerAbove var.key).1
  | none => doc.removeWithComment var.key

/-- Restore one variable, deciding on its effective value. -/
def restoreVar (path : Str) (st : RestoreState) (var : PriorVar) : RestoreState :=
  match (st.doc.get var.key).map EnvEntry.value, var.prior with
  | none, none => { st with outcomes := st.outcomes ++ [.alreadyRestored path var.key] }
  | none, some _ => { st with outcomes := st.outcomes ++ [.leftUserEdit path var.key] }
  | some cur, prior =>
      if cur = var.written then
        if var.priorWithheld then
          { st with outcomes := st.outcomes ++ [.priorNotRecorded path var.key] }
        else
          { doc := restorePrior var st.doc, changed := true,
            outcomes := st.outcomes ++ [.restored path var.key] }
      else if prior = some cur then
        let (doc, removed) := st.doc.removeMarkerAbove var.key
        { doc, changed := st.changed || removed,
          outcomes := st.outcomes ++ [.alreadyRestored path var.key] }
      else { st with outcomes := st.outcomes ++ [.leftUserEdit path var.key] }

/-- The restored document of a content. -/
def restoreDocument (file : PriorFile) (content : Str) : RestoreState :=
  file.vars.foldl (restoreVar file.path)
    { doc := EnvDocument.parse content, changed := false, outcomes := [] }

/-- The result of restoring files: the disk, the outcomes, and whether anything failed. -/
structure RestoreResult where
  disk : Disk
  outcomes : List RestoreOutcome
  anyFailure : Bool

def RestoreResult.fail (r : RestoreResult) (path : Str) (error : Str) : RestoreResult :=
  { r with outcomes := r.outcomes ++ [.failed path [] error], anyFailure := true }

/-- Write the restored document, or remove a created file in which nothing is left. -/
def writeRestored (file : PriorFile) (st : RestoreState) (r : RestoreResult) : RestoreResult :=
  let r := { r with outcomes := r.outcomes ++ st.outcomes }
  if !st.changed then r
  else if !file.existed && st.doc.entries.isEmpty then
    match removeFile r.disk file.path with
    | .ok disk => { r with disk, outcomes := r.outcomes ++ [.createdFileRemoved file.path] }
    | .error e => r.fail file.path e
  else
    match atomicWrite r.disk file.path st.doc.render with
    | .ok disk => { r with disk }
    | .error e => r.fail file.path e

def restoreFile (r : RestoreResult) (file : PriorFile) : RestoreResult :=
  match r.disk.file file.path with
  | .symlink => r.fail file.path
      ("the file is now a symlink; refusing to replace it "
        ++ "(restore the target file by hand, then unlink again)").toList
  | .missing => { r with outcomes := r.outcomes ++ [.fileMissing file.path] }
  | .statFailed e => r.fail file.path e
  | .unreadable e => r.fail file.path e
  | .directory => r.fail file.path "Is a directory (os error 21)".toList
  | .regular content => writeRestored file (restoreDocument file content) r

structure UnlinkReport where
  routePrefix : Str
  projectId : Str
  outcomes : List RestoreOutcome
  complete : Bool
  deriving DecidableEq, Repr

/-- The loop of `unlink` over the files of a record: a record that does not open ends it, and the
    files restored so far stay restored. -/
def restoreFiles (crypto : Option RestoreCrypto) (slug : Str) :
    List PriorFile → RestoreResult → RestoreResult × Option CoreError
  | [], r => (r, none)
  | file :: files, r =>
      match openPriorFile crypto slug file with
      | .error e => (r, some e)
      | .ok opened => restoreFiles crypto slug files (restoreFile r opened)

/-- Restore what a link row records. -/
def restoreLink (disk : Disk) (crypto : Option RestoreCrypto) (link : ProjectLinkRow) :
    RestoreResult × Option CoreError :=
  let start : RestoreResult := { disk, outcomes := [], anyFailure := false }
  match link.priorEnv with
  | none => (start, none)
  | some prior =>
      match checkPriorEnvVersion prior.v with
      | .error e => (start, some e)
      | .ok _ => restoreFiles crypto link.linkSlug prior.files start

/-- Restore the recorded prior state and remove the link row. -/
def unlink (disk : Disk) (db : Db) (crypto : Option RestoreCrypto) (projectId prefix_ : Str) :
    Disk × Db × Except CoreError UnlinkReport :=
  match findProjectLink db projectId prefix_ with
  | none => (disk, db, .error (.notFound "gateway project link" (projectId ++ ':' :: prefix_)))
  | some link =>
      match restoreLink disk crypto link with
      | (r, some e) => (r.disk, db, .error e)
      | (r, none) =>
          if r.anyFailure || !r.outcomes.all outcomeIsSettled then
            (r.disk, db, .ok { routePrefix := prefix_, projectId, outcomes := r.outcomes,
                               complete := false })
          else
            (r.disk, removeProjectLink db projectId prefix_,
              .ok { routePrefix := prefix_, projectId, outcomes := r.outcomes, complete := true })

end Tethra.Gateway
