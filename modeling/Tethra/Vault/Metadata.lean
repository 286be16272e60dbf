import Tethra.Lib.Steps
import Tethra.Tracking.Detect
import Tethra.Vault.Store
import Tethra.Core.Discovery

set_option autoImplicit false

/-! # Metadata updates (`core/src/vault.rs`: `update_credential`, `update_project`, `destination_add`)

A request sets several fields, each with a statement of its own and no transaction around them. A field is checked
when its turn comes, so that an error keeps the fields written before it: a request that fails changes nothing exactly
when what it wrote before the error was there already (`failed_unchanged_iff`). -/

namespace Tethra.Metadata

open Text Steps
open Observe (asciiLower)
open Vault (sameName)
open Detect (normalizeProvider Reader)
open Discovery (Environment)

/-! ## Rows -/

structure ProjectRow where
  id : Str
  name : Str
  description : Str
  notes : Str
  environmentsJson : Str
  archived : Bool
  createdAt : Str
  updatedAt : Str
  deriving DecidableEq, Repr

structure CredentialRow where
  id : Str
  projectId : Str
  provider : Str
  name : Str
  environment : Str
  linkedCredentialId : Option Str
  fingerprint : List UInt8
  createdAt : Str
  updatedAt : Str
  keyCreatedAt : Option Str
  expiresAt : Option Str
  lastValidatedAt : Option Str
  lastUsedAt : Option Str
  docsUrl : Str
  notes : Str
  manuallyDisabled : Bool
  revoked : Bool
  markedInvalid : Bool
  possiblyExposed : Bool
  exposureNote : Str
  deriving DecidableEq, Repr

structure DestinationRow where
  id : Str
  kind : Str
  name : Str
  config : Str
  authCiphertext : Option (List UInt8)
  authMasked : Option Str
  createdAt : Str
  updatedAt : Str
  deriving DecidableEq, Repr

structure AuditEvent where
  atTime : Str
  event : String
  projectId : Option Str
  credentialId : Option Str
  detail : Str
  deriving DecidableEq, Repr

structure ActivityEvent where
  atTime : Str
  source : String
  kind : String
  credentialId : Option Str
  projectId : Option Str
  detail : String
  measurements : String
  deriving DecidableEq, Repr

/-- The tables, with their primary keys. -/
structure Db where
  projects : List ProjectRow
  projectRepos : List (Str × Str)
  credentials : List CredentialRow
  destinations : List DestinationRow
  auditEvents : List AuditEvent
  activityEvents : List ActivityEvent
  projectIds : (projects.map ProjectRow.id).Nodup
  credentialIds : (credentials.map CredentialRow.id).Nodup

/-- The columns that an `UPDATE` of a credential sets; its id is not one of them. -/
abbrev Edit : Type := { f : CredentialRow → CredentialRow // ∀ row, (f row).id = row.id }

abbrev ProjectEdit : Type := { f : ProjectRow → ProjectRow // ∀ row, (f row).id = row.id }

def Db.setCredential (db : Db) (id : Str) (edit : Edit) : Db :=
  { db with
    credentials := Keyed.modify CredentialRow.id id edit.1 db.credentials
    credentialIds := by
      rw [Keyed.keys_modify fun row h => (edit.2 row).trans h]
      exact db.credentialIds }

def Db.setProject (db : Db) (id : Str) (edit : ProjectEdit) : Db :=
  { db with
    projects := Keyed.modify ProjectRow.id id edit.1 db.projects
    projectIds := by
      rw [Keyed.keys_modify fun row h => (edit.2 row).trans h]
      exact db.projectIds }

def Db.audit (db : Db) (event : AuditEvent) : Db := { db with auditEvents := db.auditEvents ++ [event] }

def Db.activity (db : Db) (event : ActivityEvent) : Db := { db with activityEvents := db.activityEvents ++ [event] }

/-! ## The requests -/

structure UpdateProject where
  name : Option Str
  description : Option Str
  notes : Option Str
  environments : Option (List Environment)
  addRepoPaths : List Str
  removeRepoPaths : List Str

structure UpdateCredential where
  name : Option Str
  provider : Option Str
  environment : Option Environment
  keyCreatedAt : Option (Option Str)
  expiresAt : Option (Option Str)
  docsUrl : Option Str
  notes : Option Str
  markUsedNow : Bool
  markValidated : Option Bool
  disabled : Option Bool
  revoked : Option Bool
  possiblyExposed : Option Bool
  exposureNote : Option Str

/-- `..Default::default()`. -/
def UpdateCredential.none : UpdateCredential :=
  ⟨.none, .none, .none, .none, .none, .none, .none, false, .none, .none, .none, .none, .none⟩

inductive Os where
  | macos
  | linux
  | windows
  | other
  deriving DecidableEq, Repr

/-- What a request's code reads of its surroundings: the parsers of dates and of JSON, the file system, the clock at
    each look, a fresh id and the cipher. -/
structure Surroundings where
  reader : Reader
  parseUserDate : Str → Option Int
  parseRfc3339 : Str → Option Int
  toRfc3339 : Int → Str
  parseEnvironments : Str → Except CoreError (List Environment)
  canonicalRepoPath : Str → Str
  now : Nat → Str
  newId : Str
  encrypt : Str → Str → List UInt8
  os : Os


/-! ## Reading -/

/-- By id, else by name. -/
def projectRowByIdent (db : Db) (ident : Str) : Except CoreError ProjectRow :=
  match db.projects.find? (·.id = ident) with
  | some row => .ok row
  | none =>
      match db.projects.find? fun p => sameName p.name ident with
      | some row => .ok row
      | none => .error (.notFound "project" ident)

/-- By id, as `project/name`, or by a name that only one has. -/
def resolveCredential (db : Db) (selector : Str) : Except CoreError CredentialRow :=
  match db.credentials.find? (·.id = selector) with
  | some row => .ok row
  | none =>
      match splitOnce '/' selector with
      | some (ident, name) => do
          let project ← projectRowByIdent db ident
          match db.credentials.find? fun c => c.projectId = project.id && sameName c.name name with
          | some row => return row
          | none => .error (.notFound "credential" selector)
      | none =>
          match db.credentials.filter fun c => sameName c.name selector with
          | [] => .error (.notFound "credential" selector)
          | [row] => .ok row
          | _ => .error (.ambiguous "credential" selector)

def Environment.asStr : Environment → Str
  | .development => "development".toList
  | .test => "test".toList
  | .staging => "staging".toList
  | .production => "production".toList

/-- `Environment::from_str`. -/
def parseEnvironment (s : Str) : Except CoreError Environment :=
  let other := asciiLower (trim s)
  if other ∈ ["development".toList, "dev".toList] then .ok .development
  else if other = "test".toList then .ok .test
  else if other = "staging".toList then .ok .staging
  else if other ∈ ["production".toList, "prod".toList] then .ok .production
  else .error (.invalidInput ("unknown environment '".toList ++ other
    ++ "'; expected development, test, staging, or production".toList))

def projectOf (db : Db) (projectId : Str) : Option ProjectRow := db.projects.find? (·.id = projectId)

def projectNameOf (db : Db) (projectId : Str) : Except CoreError Str :=
  match projectOf db projectId with
  | some project => .ok project.name
  | none => .error (.db "Query returned no rows".toList)

/-- The other credentials with the fingerprint, by project and name. -/
def findReuseMatches (db : Db) (row : CredentialRow) : List (Str × Str × Str) :=
  let found := db.credentials.filterMap fun c =>
    if c.fingerprint = row.fingerprint ∧ c.id ≠ row.id then
      (projectOf db c.projectId).map fun p => (p.name, c.name, c.environment)
    else none
  found.insertionSort fun a b =>
    asciiLower a.1 < asciiLower b.1 ∨ asciiLower a.1 = asciiLower b.1 ∧ asciiLower a.2.1 ≤ asciiLower b.2.1

def firstError {α β : Type} (f : α → Except CoreError β) (xs : List α) : Option CoreError :=
  xs.findSome? fun x => match f x with
    | .error e => some e
    | .ok _ => none

/-- `credential_model`, with the row for what is shown of it; the lenient timestamps cannot fail. -/
def credentialModel (env : Surroundings) (db : Db) (row : CredentialRow) : Except CoreError CredentialRow := do
  let _ ← projectNameOf db row.projectId
  match firstError (fun m => parseEnvironment m.2.2) (findReuseMatches db row) with
  | some e => throw e
  | none => pure PUnit.unit
  let _ ← parseEnvironment row.environment
  match row.linkedCredentialId with
  | none => pure PUnit.unit
  | some targetId =>
      match db.credentials.find? (·.id = targetId) with
      | none => throw (.vaultCorrupted "reference target is missing")
      | some target => let _ ← projectNameOf db target.projectId
  match env.parseRfc3339 row.createdAt with
  | none => throw (.invalidInput ("'".toList ++ row.createdAt ++ "' is not an RFC 3339 timestamp".toList))
  | some _ => return row

def getCredential (env : Surroundings) (db : Db) (selector : Str) : Except CoreError CredentialRow := do
  let row ← resolveCredential db selector
  credentialModel env db row

/-- `project_model`, with the row for what is shown of it. -/
def projectModel (env : Surroundings) (row : ProjectRow) : Except CoreError ProjectRow :=
  match env.parseEnvironments row.environmentsJson with
  | .error e => .error e
  | .ok _ => .ok row

def getProject (env : Surroundings) (db : Db) (ident : Str) : Except CoreError ProjectRow := do
  let row ← projectRowByIdent db ident
  projectModel env row

/-! ## Updating a credential -/

def ensureCredentialNameFree (db : Db) (projectId name excludeId : Str) : Except CoreError PUnit :=
  if db.credentials.any fun c => c.projectId = projectId && sameName c.name name && decide (c.id ≠ excludeId) then
    .error (.alreadyExists "credential" name)
  else .ok ⟨⟩

def parseOptionalDate (env : Surroundings) : Option Str → Except CoreError (Option Str)
  | none => .ok none
  | some s =>
      if trim s = [] then .ok none
      else
        match env.parseUserDate s with
        | some t => .ok (some (env.toRfc3339 t))
        | none => .error (.invalidInput ("'".toList ++ s ++
            "' is not a date; use YYYY-MM-DD or an RFC 3339 timestamp".toList))

def credentialName (db : Db) (row : CredentialRow) (name : Str) : Except CoreError Str :=
  let name := trim name
  if name = [] then .error (.invalidInput "credential name must not be empty".toList)
  else do
    ensureCredentialNameFree db row.projectId name row.id
    return name

section

variable {β : Type}

/-- A field of a request that is checked before it is written. -/
def checkedField {γ : Type} (value : Option β) (check : Db → β → Except CoreError γ) (write : γ → Db → Db) (label : String) :
    Step Db CoreError String := fun db =>
  match value with
  | none => .ok (db, [])
  | some b =>
      match check db b with
      | .error e => .error e
      | .ok c => .ok (write c db, [label])

/-- A field of a request that is written as it is. -/
def field (value : Option β) (write : β → Db → Db) (label : β → String) : (Db → Db) × List String :=
  match value with
  | none => (id, [])
  | some b => (write b, [label b])

def fieldWrites (fields : List ((Db → Db) × List String)) : List (Step Db CoreError String) :=
  fields.map fun w => Steps.write w.1 w.2

end

def setName (name : Str) : Edit := ⟨fun row => { row with name }, fun _ => rfl⟩

def setProvider (env : Surroundings) (provider : Str) : Edit :=
  ⟨fun row => { row with provider := normalizeProvider env.reader provider }, fun _ => rfl⟩

def setEnvironment (environment : Environment) : Edit :=
  ⟨fun row => { row with environment := Environment.asStr environment }, fun _ => rfl⟩

def setKeyCreatedAt (keyCreatedAt : Option Str) : Edit := ⟨fun row => { row with keyCreatedAt }, fun _ => rfl⟩

def setExpiresAt (expiresAt : Option Str) : Edit := ⟨fun row => { row with expiresAt }, fun _ => rfl⟩

/-- The fields before the dates. -/
def earlyFields (env : Surroundings) (id : Str) (u : UpdateCredential) : List ((Db → Db) × List String) :=
  [field u.provider (fun provider db => db.setCredential id (setProvider env provider)) fun _ => "provider",
   field u.environment (fun environment db => db.setCredential id (setEnvironment environment)) fun _ => "environment"]

/-- The fields after the dates, which nothing checks. -/
def lateFields (env : Surroundings) (row : CredentialRow) (u : UpdateCredential) : List ((Db → Db) × List String) :=
  let set (f : CredentialRow → CredentialRow) (hf : ∀ row, (f row).id = row.id) (db : Db) : Db :=
    db.setCredential row.id ⟨f, hf⟩
  [field u.docsUrl (fun docsUrl => set (fun row => { row with docsUrl := trim docsUrl }) fun _ => rfl) fun _ => "docs_url",
   field u.notes (fun notes => set (fun row => { row with notes }) fun _ => rfl) fun _ => "notes",
   field (if u.markUsedNow then some ⟨⟩ else none)
     (fun _ : PUnit => set (fun row => { row with lastUsedAt := some (env.now 0) }) fun _ => rfl) fun _ => "last_used_at",
   field u.markValidated
     (fun valid => set (fun row => { row with lastValidatedAt := some (env.now 1), markedInvalid := !valid }) fun _ => rfl)
     fun valid => if valid then "validated_ok" else "validated_failed",
   field u.disabled
     (fun disabled db =>
       (set (fun row => { row with manuallyDisabled := disabled }) (fun _ => rfl) db).activity
         { atTime := env.now 2
           source := "credential_state"
           kind := if disabled then "credential_disabled" else "credential_enabled"
           credentialId := some row.id
           projectId := some row.projectId
           detail := if disabled then "credential marked disabled" else "credential re-enabled"
           measurements := "" })
     fun _ => "manually_disabled",
   field u.revoked (fun revoked => set (fun row => { row with revoked }) fun _ => rfl) fun _ => "revoked",
   match u.possiblyExposed with
   | some exposed =>
       field (some exposed)
         (fun exposed => set (fun row => { row with
           possiblyExposed := exposed
           exposureNote := if exposed then u.exposureNote.getD [] else [] }) fun _ => rfl) fun _ => "possibly_exposed"
   | none => field u.exposureNote (fun exposureNote => set (fun row => { row with exposureNote }) fun _ => rfl) fun _ => "exposure_note"]

def credentialFields (env : Surroundings) (row : CredentialRow) (u : UpdateCredential) : List (Step Db CoreError String) :=
  [checkedField u.name (fun db name => credentialName db row name)
     (fun name db => db.setCredential row.id (setName name)) "name"]
    ++ fieldWrites (earlyFields env row.id u)
    ++ [checkedField u.keyCreatedAt (fun _ value => parseOptionalDate env value)
          (fun value db => db.setCredential row.id (setKeyCreatedAt value)) "key_created_at",
        checkedField u.expiresAt (fun _ value => parseOptionalDate env value)
          (fun value db => db.setCredential row.id (setExpiresAt value)) "expires_at"]
    ++ fieldWrites (lateFields env row u)

def fieldsDetail (changed : List String) : Str := ("fields=" ++ ",".intercalate changed).toList

def updateCredential (env : Surroundings) (selector : Str) (u : UpdateCredential) (db : Db) :
    Db × Except CoreError CredentialRow :=
  match resolveCredential db selector with
  | .error e => (db, .error e)
  | .ok row =>
      match run (credentialFields env row u) db with
      | (db, .error e) => (db, .error e)
      | (db, .ok []) => (db, getCredential env db row.id)
      | (db, .ok changed) =>
          let db := db.setCredential row.id ⟨fun row => { row with updatedAt := env.now 3 }, fun _ => rfl⟩
          let db := db.audit ⟨env.now 4, "credential_updated", some row.projectId, some row.id, fieldsDetail changed⟩
          (db, getCredential env db row.id)

/-! ## Updating a project -/

def projectNameTaken (db : Db) (name excludeId : Str) : Bool :=
  db.projects.any fun p => sameName p.name name && decide (p.id ≠ excludeId)

def projectName (db : Db) (row : ProjectRow) (name : Str) : Except CoreError Str :=
  let name := trim name
  if name = [] then .error (.invalidInput "project name must not be empty".toList)
  else if '/' ∈ name then
    .error (.invalidInput "project names must not contain '/' (it is used as a selector separator)".toList)
  else if projectNameTaken db name row.id then .error (.alreadyExists "project" name)
  else .ok name

def Environment.rank : Environment → Nat
  | .development => 0
  | .test => 1
  | .staging => 2
  | .production => 3

/-- The JSON of the environments, sorted and each once. -/
def environmentsText (environments : List Environment) : Str :=
  let envs := (environments.insertionSort fun a b => Environment.rank a ≤ Environment.rank b).destutter (· ≠ ·)
  "[".toList ++ ",".toList.intercalate (envs.map fun e => "\"".toList ++ Environment.asStr e ++ "\"".toList) ++ "]".toList

def addRepo (env : Surroundings) (id repo : Str) (db : Db) : Db :=
  let row := (id, env.canonicalRepoPath repo)
  if row ∈ db.projectRepos then db else { db with projectRepos := db.projectRepos ++ [row] }

def removeRepo (env : Surroundings) (id repo : Str) (db : Db) : Db :=
  { db with projectRepos := db.projectRepos.filter fun r =>
      !(decide (r.1 = id) && (decide (r.2 = repo) || decide (r.2 = env.canonicalRepoPath repo))) }

def editProjectName (name : Str) : ProjectEdit := ⟨fun row => { row with name }, fun _ => rfl⟩

def setEnvironmentsJson (environmentsJson : Str) : ProjectEdit := ⟨fun row => { row with environmentsJson }, fun _ => rfl⟩

/-- The fields after the name, which nothing checks. -/
def projectWrites (env : Surroundings) (id : Str) (u : UpdateProject) : List ((Db → Db) × List String) :=
  let set (f : ProjectRow → ProjectRow) (hf : ∀ row, (f row).id = row.id) (db : Db) : Db := db.setProject id ⟨f, hf⟩
  [field u.description (fun description => set (fun row => { row with description := trim description }) fun _ => rfl)
     fun _ => "description",
   field u.notes (fun notes => set (fun row => { row with notes }) fun _ => rfl) fun _ => "notes",
   field u.environments (fun environments db => db.setProject id (setEnvironmentsJson (environmentsText environments)))
     fun _ => "environments"]
    ++ (u.addRepoPaths.map fun repo => (addRepo env id repo, ["repos"]))
    ++ u.removeRepoPaths.map fun repo => (removeRepo env id repo, ["repos"])

def projectFields (env : Surroundings) (row : ProjectRow) (u : UpdateProject) : List (Step Db CoreError String) :=
  checkedField u.name (fun db name => projectName db row name)
      (fun name db => db.setProject row.id (editProjectName name)) "name"
    :: fieldWrites (projectWrites env row.id u)

def updateProject (env : Surroundings) (ident : Str) (u : UpdateProject) (db : Db) : Db × Except CoreError ProjectRow :=
  match projectRowByIdent db ident with
  | .error e => (db, .error e)
  | .ok row =>
      match run (projectFields env row u) db with
      | (db, .error e) => (db, .error e)
      | (db, .ok []) => (db, getProject env db row.id)
      | (db, .ok changed) =>
          let db := db.setProject row.id ⟨fun row => { row with updatedAt := env.now 0 }, fun _ => rfl⟩
          let db := db.audit ⟨env.now 1, "project_updated", some row.id, none, fieldsDetail (changed.destutter (· ≠ ·))⟩
          (db, getProject env db row.id)

/-! ## Adding a destination -/

inductive DestSupport where
  | implemented
  | platformUnavailable
  deriving DecidableEq, Repr

/-- A kind of destination, with its support for writing. -/
structure DestinationKindInfo where
  kind : Str
  name : Str
  write : DestSupport

def catalog (os : Os) : List DestinationKindInfo :=
  let only (o : Os) : DestSupport := if os = o then .implemented else .platformUnavailable
  [⟨"vault".toList, "Tethra local vault".toList, .implemented⟩,
   ⟨"env_mapping".toList, "Local environment mappings".toList, .implemented⟩,
   ⟨"env_export".toList, "Exported .env file".toList, .implemented⟩,
   ⟨"macos_keychain".toList, "macOS Keychain".toList, only .macos⟩,
   ⟨"linux_secret_service".toList, "Linux Secret Service".toList, only .linux⟩,
   ⟨"windows_credential_manager".toList, "Windows Credential Manager".toList, only .windows⟩,
   ⟨"aws_secrets_manager".toList, "AWS Secrets Manager".toList, .implemented⟩,
   ⟨"github_actions".toList, "GitHub Actions repository secrets".toList, .implemented⟩,
   ⟨"vercel".toList, "Vercel environment variables".toList, .implemented⟩]

def kindInfo (os : Os) (kind : Str) : Except CoreError DestinationKindInfo :=
  match (catalog os).find? (·.kind = kind) with
  | some info => .ok info
  | none => .error (.invalidInput ("unknown destination kind '".toList ++ kind ++ "'".toList))

def configurableKinds (os : Os) : List Str :=
  ((catalog os).filter fun k => k.kind ∉ ["vault".toList, "env_mapping".toList, "env_export".toList]).map (·.kind)

/-- `destinations::insert`, without a credential. -/
def insert (env : Surroundings) (kind name config : Str) (db : Db) : Except CoreError (Db × Str) := do
  let _ ← kindInfo env.os kind
  if kind ∉ configurableKinds env.os then
    throw (.invalidInput ("'".toList ++ kind
      ++ "' is a built-in local destination and cannot be added manually".toList))
  if db.destinations.any fun d => decide (d.id = env.newId) || sameName d.name name then
    throw (.alreadyExists "destination" name)
  let row : DestinationRow := ⟨env.newId, kind, name, config, none, none, env.now 0, env.now 0⟩
  return ({ db with destinations := db.destinations ++ [row] }, env.newId)

def maskValue (value : Str) : Str :=
  let v := trim value
  if 12 ≤ v.length then v.take 4 ++ "…".toList ++ v.drop (v.length - 2)
  else if 8 ≤ v.length then v.take 2 ++ "…".toList
  else "••••".toList

def destination (db : Db) (ident : Str) : Except CoreError DestinationRow :=
  match db.destinations.find? fun d => decide (d.id = ident) || sameName d.name ident with
  | some row => .ok row
  | none => .error (.notFound "destination" ident)

/-- What is checked before the row is inserted: the kind and the name. -/
def destinationName (env : Surroundings) (kind name : Str) : Except CoreError Str := do
  let info ← kindInfo env.os kind
  if info.write = .platformUnavailable then
    throw (.unsupported kind "destination" (info.name ++ " is not available on this platform".toList))
  let name := trim name
  if name = [] then throw (.invalidInput "destination name must not be empty".toList)
  return name

def destinationAdd (env : Surroundings) (kind name config : Str) (auth : Option Str) (db : Db) :
    Db × Except CoreError DestinationRow :=
  match destinationName env kind name with
  | .error e => (db, .error e)
  | .ok name =>
      match insert env kind name config db with
      | .error e => (db, .error e)
      | .ok (db, id) =>
          let added (db : Db) : Db × Except CoreError DestinationRow :=
            let db := db.audit ⟨env.now 1, "destination_added", none, none,
              "kind=".toList ++ kind ++ " name=".toList ++ name⟩
            (db, destination db id)
          match auth with
          | none => added db
          | some auth =>
              if trim auth = [] then (db, .error (.invalidInput "the destination credential must not be empty".toList))
              else
                let sealed (row : DestinationRow) : DestinationRow :=
                  { row with
                    authCiphertext := some (env.encrypt id auth)
                    authMasked := some (maskValue auth) }
                added { db with destinations := Keyed.modify DestinationRow.id id sealed db.destinations }

end Tethra.Metadata
