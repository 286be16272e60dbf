import Tethra.Core.Migrations

set_option autoImplicit false

/-! # Restoring a backup (`core/src/backup.rs`)

A restore reads and decrypts the backup, sets the old database aside, and builds the new one from the
payload in several transactions. The file system, SQLite, the cipher and the parsers answer as they do;
every answer may be an error. What a failed restore leaves in the directory depends on when it fails. -/

namespace Tethra.Restore

open Migrations

/-! ## The payload -/

/-- One value of the database; a real number is given by its bits. -/
inductive Cell where
  | null
  | int (i : Int)
  | real (bits : UInt64)
  | text (t : Str)
  | blob (b64 : Str)
  deriving DecidableEq

inductive Value where
  | null
  | integer (i : Int)
  | real (bits : UInt64)
  | text (t : Str)
  | blob (bytes : List UInt8)
  deriving DecidableEq

structure TableExport where
  name : Str
  columns : List Str
  rows : List (List Cell)

structure BackupPayloadV2 where
  schemaVersion : Int
  tables : List TableExport

structure ProjectExportV1 where
  id : Str
  name : Str
  description : Str
  notes : Str
  environments : Str
  archived : Bool
  createdAt : Str
  updatedAt : Str
  wrappedProjectKeyHex : Str
  keyWrapMode : Str
  projectKdfParams : Option Str
  projectSaltHex : Option Str

structure CredentialExportV1 where
  id : Str
  projectId : Str
  provider : Str
  name : Str
  environment : Str
  credentialType : Str
  ciphertextHex : Option Str
  linkedCredentialId : Option Str
  fingerprintHex : Str
  maskedValue : Str
  createdAt : Str
  updatedAt : Str
  keyCreatedAt : Option Str
  expiresAt : Option Str
  lastValidatedAt : Option Str
  lastUsedAt : Option Str
  docsUrl : Str
  notes : Str
  manuallyDisabled : Bool
  revoked : Bool
  markedInvalid : Bool
  possiblyExposed : Bool
  exposureNote : Str

structure AuditExportV1 where
  at_ : Str
  event : Str
  projectId : Option Str
  credentialId : Option Str
  detail : Str

/-- The five tables of the first format. -/
structure BackupPayloadV1 where
  schemaVersion : Int
  vaultMeta : List (Str × Str)
  projects : List ProjectExportV1
  projectRepos : List (Str × Str)
  credentials : List CredentialExportV1
  auditEvents : List AuditExportV1

inductive Payload where
  | v1 (p : BackupPayloadV1)
  | v2 (p : BackupPayloadV2)

def Payload.schemaVersion : Payload → Int
  | .v1 p => p.schemaVersion
  | .v2 p => p.schemaVersion

def Payload.tableLen (table : Str) : Payload → Nat
  | .v1 p =>
      if table = "projects".toList then p.projects.length
      else if table = "credentials".toList then p.credentials.length
      else 0
  | .v2 p => ((p.tables.find? fun t => t.name = table).map fun t => t.rows.length).getD 0

/-- The file of a backup; `kdf` are the parameters of the key derivation as they stand in the file. -/
structure BackupFile where
  format : Str
  version : Nat
  vaultId : Str
  createdAt : Str
  kdf : Str
  saltHex : Str
  payloadB64 : Str

structure BackupInfo where
  path : Str
  vaultId : Str
  createdAt : Str
  schemaVersion : Int
  formatVersion : Nat
  projectCount : Nat
  credentialCount : Nat
  deriving DecidableEq

def infoFor (path : Str) (file : BackupFile) (payload : Payload) : BackupInfo where
  path
  vaultId := file.vaultId
  createdAt := file.createdAt
  schemaVersion := payload.schemaVersion
  formatVersion := file.version
  projectCount := payload.tableLen "projects".toList
  credentialCount := payload.tableLen "credentials".toList

/-! ## The machine -/

/-- The answers to one restore. `Key` are the derived keys, and `Db` is what a connection holds. -/
structure Machine (Key Db : Type) where
  /-- The contents of the backup file. -/
  readFile : Except CoreError Str
  parseFile : Str → Option BackupFile
  parseV1 : List UInt8 → Option BackupPayloadV1
  parseV2 : List UInt8 → Option BackupPayloadV2
  hexDecode : Str → Option (List UInt8)
  base64Decode : Str → Option (List UInt8)
  /-- The derivation from the backup password, a salt and the parameters. -/
  deriveKey : List UInt8 → Str → Except CoreError Key
  /-- Decrypt an envelope that is bound to the format version and the vault. -/
  decrypt : Key → Nat → Str → List UInt8 → Option (List UInt8)
  /-- The debug form of a text. -/
  showDebug : Str → Str
  timestamp : Str
  /-- The path of the database, as an error shows it. -/
  dbPath : Str
  /-- The errors of the file system; none is a success. -/
  rename : Str → Str → Option CoreError
  createDirAll : Option CoreError
  restrictPermissions : Option CoreError
  removeSession : Option CoreError
  /-- A connection that cannot be opened creates no file. -/
  connect : Except CoreError Db
  configure : Db → Except CoreError Db
  migrateWith : List Migration → Db → Except CoreError Db
  /-- Begin a transaction with deferred foreign keys. -/
  begin : Db → Except CoreError Db
  prepare : Str → Db → Bool
  insert : Str → List Value → Db → Except CoreError Db
  commit : Db → Except CoreError Db
  recordAudit : Str → Db → Except CoreError Db

variable {Key Db : Type} (m : Machine Key Db)

def orError {α : Type} (e : CoreError) : Option α → Except CoreError α
  | some a => .ok a
  | none => .error e

def invalid {α : Type} (message : String) : Except CoreError α := .error (.backupInvalid message.toList)

/-! ## Reading -/

def backupFormat : Str := "api-tracker-backup".toList

def backupVersion : Nat := 2

def parsePayload (version : Nat) (plaintext : List UInt8) : Except CoreError Payload :=
  orError (.backupInvalid "decrypted payload is malformed".toList)
    (if version = 1 then (m.parseV1 plaintext).map .v1 else (m.parseV2 plaintext).map .v2)

def readAndDecrypt : Except CoreError (BackupFile × Payload) := do
  let raw ← m.readFile
  let file ← orError (.backupInvalid "not a Tethra backup file".toList) (m.parseFile raw)
  if file.format ≠ backupFormat then invalid "unrecognized format marker"
  else if file.version = 0 ∨ backupVersion < file.version then
    .error (.backupInvalid ("backup format version ".toList ++ Nat.toDigits 10 file.version
      ++ " is not supported by this build (up to ".toList ++ Nat.toDigits 10 backupVersion
      ++ ")".toList))
  else do
    let salt ← orError (.backupInvalid "salt is not valid hex".toList) (m.hexDecode file.saltHex)
    let envelope ← orError (.backupInvalid "payload is not valid base64".toList)
      (m.base64Decode file.payloadB64)
    let key ← m.deriveKey salt file.kdf
    let plaintext ← orError (.crypto "backup (wrong backup password, corruption, or tampering)")
      (m.decrypt key file.version file.vaultId envelope)
    let payload ← parsePayload m file.version plaintext
    return (file, payload)

/-! ## Importing -/

def Cell.intoSqlValue : Cell → Except CoreError Value
  | .null => .ok .null
  | .int i => .ok (.integer i)
  | .real bits => .ok (.real bits)
  | .text t => .ok (.text t)
  | .blob b64 =>
      (orError (.backupInvalid "blob cell is not valid base64".toList) (m.base64Decode b64)).map .blob

/-- The characters of an identifier. -/
def validIdent (name : Str) : Bool :=
  !name.isEmpty && name.all fun c => c.isAlphanum || c = '_'

/-- Quote an identifier, which is checked to be inert. -/
def checkedIdent (name : Str) : Except CoreError Str :=
  if validIdent name then .ok ('"' :: name ++ ['"'])
  else .error (.backupInvalid ("invalid identifier in backup payload: ".toList ++ m.showDebug name))

/-- A statement with its values, or the error of computing them. -/
abbrev Insert := Str × Except CoreError (List Value)

/-- Compute the values and execute, statement after statement. -/
def runInserts : List Insert → Db → Except CoreError Db
  | [], db => .ok db
  | (sql, values) :: rest, db => do
      let values ← values
      let db ← m.insert sql values db
      runInserts rest db

def rowValues (table : TableExport) (row : List Cell) : Except CoreError (List Value) :=
  if row.length ≠ table.columns.length then
    .error (.backupInvalid ("row width mismatch in table '".toList ++ table.name ++ "'".toList))
  else row.mapM (Cell.intoSqlValue m)

def placeholders (n : Nat) : Str :=
  ", ".toList.intercalate ((List.range' 1 n).map fun i => '?' :: Nat.toDigits 10 i)

def insertSql (quoted : Str) (columns : List Str) : Str :=
  "INSERT INTO ".toList ++ quoted ++ " (".toList ++ ", ".toList.intercalate columns
    ++ ") VALUES (".toList ++ placeholders columns.length ++ ")".toList

def importTable (version : Int) (table : TableExport) (db : Db) : Except CoreError Db := do
  let quoted ← checkedIdent m table.name
  if table.rows.isEmpty then return db
  else do
    let columns ← table.columns.mapM (checkedIdent m)
    if m.prepare (insertSql quoted columns) db then
      runInserts m (table.rows.map fun row => (insertSql quoted columns, rowValues m table row)) db
    else
      .error (.backupInvalid ("backup table '".toList ++ table.name
        ++ "' does not match schema v".toList ++ (toString version).toList))

def importTables (version : Int) : List TableExport → Db → Except CoreError Db
  | [], db => .ok db
  | table :: rest, db => do
      let db ← importTable m version table db
      importTables version rest db

/-- The migrations up to the version, if it is one of theirs. -/
def migrationsUpto (version : Int) : Option (List Migration) :=
  (migrations.findIdx? fun migration => (migration.version : Int) = version).map fun upto =>
    migrations.take (upto + 1)

/-- Rebuild the schema at the payload's version, import every table, and migrate forward. -/
def restoreV2 (payload : BackupPayloadV2) (db : Db) : Except CoreError Db := do
  let upto ← orError (.backupInvalid ("backup schema v".toList
    ++ (toString payload.schemaVersion).toList
    ++ " does not correspond to any known migration".toList)) (migrationsUpto payload.schemaVersion)
  let db ← m.migrateWith upto db
  let db ← m.begin db
  let db ← importTables m payload.schemaVersion payload.tables db
  let db ← m.commit db
  m.migrateWith migrations db

/-! ## The first format -/

def optional : Option Str → Value
  | some t => .text t
  | none => .null

def bool (b : Bool) : Value := .integer (if b then 1 else 0)

def hex (what : String) (text : Str) : Except CoreError Value :=
  (orError (.backupInvalid what.toList) (m.hexDecode text)).map .blob

def optionalHex (what : String) : Option Str → Except CoreError Value
  | some text => hex m what text
  | none => .ok .null

def ProjectExportV1.values (p : ProjectExportV1) : Except CoreError (List Value) := do
  let key ← hex m "project key hex" p.wrappedProjectKeyHex
  let salt ← optionalHex m "project salt hex" p.projectSaltHex
  return [.text p.id, .text p.name, .text p.description, .text p.notes, .text p.environments,
    bool p.archived, .text p.createdAt, .text p.updatedAt, key, .text p.keyWrapMode,
    optional p.projectKdfParams, salt]

def CredentialExportV1.values (c : CredentialExportV1) : Except CoreError (List Value) := do
  let ciphertext ← optionalHex m "credential ciphertext hex" c.ciphertextHex
  let fingerprint ← hex m "fingerprint hex" c.fingerprintHex
  return [.text c.id, .text c.projectId, .text c.provider, .text c.name, .text c.environment,
    .text c.credentialType, ciphertext, optional c.linkedCredentialId, fingerprint,
    .text c.maskedValue, .text c.createdAt, .text c.updatedAt, optional c.keyCreatedAt,
    optional c.expiresAt, optional c.lastValidatedAt, optional c.lastUsedAt, .text c.docsUrl,
    .text c.notes, bool c.manuallyDisabled, bool c.revoked, bool c.markedInvalid,
    bool c.possiblyExposed, .text c.exposureNote]

def AuditExportV1.values (a : AuditExportV1) : List Value :=
  [.text a.at_, .text a.event, optional a.projectId, optional a.credentialId, .text a.detail]

def metaSql : Str :=
  ("INSERT INTO vault_meta (key, value) VALUES (?1, ?2) "
    ++ "ON CONFLICT(key) DO UPDATE SET value = excluded.value").toList

/-- The statement for a table of the first schema, with all of its columns there. -/
def v1Sql (table : String) (columns : List String) : Str :=
  insertSql table.toList (columns.map String.toList)

/-- The statements of the import, in their order. -/
def v1Inserts (p : BackupPayloadV1) : List Insert :=
  p.vaultMeta.map (fun kv => (metaSql, .ok [.text kv.1, .text kv.2]))
    ++ p.projects.map (fun project => (v1Sql "projects" ["id", "name", "description", "notes",
        "environments", "archived", "created_at", "updated_at", "wrapped_project_key",
        "key_wrap_mode", "project_kdf_params", "project_salt"], project.values m))
    ++ p.projectRepos.map (fun repo =>
        (v1Sql "project_repos" ["project_id", "path"], .ok [.text repo.1, .text repo.2]))
    ++ p.credentials.map (fun credential => (v1Sql "credentials" ["id", "project_id", "provider",
        "name", "environment", "credential_type", "ciphertext", "linked_credential_id",
        "fingerprint", "masked_value", "created_at", "updated_at", "key_created_at", "expires_at",
        "last_validated_at", "last_used_at", "docs_url", "notes", "manually_disabled", "revoked",
        "marked_invalid", "possibly_exposed", "exposure_note"], credential.values m))
    ++ p.auditEvents.map (fun a =>
        (v1Sql "audit_events" ["at", "event", "project_id", "credential_id", "detail"],
          .ok a.values))

/-- The import of the five tables into the current schema. -/
def restoreV1 (payload : BackupPayloadV1) (db : Db) : Except CoreError Db := do
  let db ← m.migrateWith migrations db
  let db ← m.begin db
  let db ← runInserts m (v1Inserts m payload) db
  m.commit db

def restorePayload : Payload → Db → Except CoreError Db
  | .v1 payload, db => restoreV1 m payload db
  | .v2 payload, db => restoreV2 m payload db

/-! ## The directory -/

/-- A file is known by the name it had when the restore began, or was created since. -/
inductive File where
  | old (name : Str)
  | created
  deriving DecidableEq

abbrev Dir := Str → Option File

/-- The directory of a restore, by the names that are there. -/
def Dir.start (present : Str → Bool) : Dir := fun name => if present name then some (.old name) else none

def Dir.exists (d : Dir) (name : Str) : Bool := (d name).isSome

def Dir.rename (d : Dir) (fromName toName : Str) : Dir :=
  Function.update (Function.update d toName (d fromName)) fromName none

def dbFile : Str := "vault.db".toList

def sessionFile : Str := "session.json".toList

def walSuffix : Str := "-wal".toList

def shmSuffix : Str := "-shm".toList

/-- A step on the directory; what it did stays when it fails. -/
abbrev RestoreM := ExceptT CoreError (StateM Dir)

def failIf (error : Option CoreError) : RestoreM Unit :=
  match error with
  | some e => throw e
  | none => pure ()

def fallible {α : Type} (x : Except CoreError α) : RestoreM α := liftExcept x

def rename (fromName toName : Str) : RestoreM Unit := do
  failIf (m.rename fromName toName)
  modify fun d => d.rename fromName toName

def asidePrefix : Str := "vault.db.replaced-".toList

def asideStem (n : Nat) : Str :=
  asidePrefix ++ m.timestamp ++ if n = 0 then [] else '-' :: Nat.toDigits 10 n

def taken (d : Dir) (candidate : Str) : Bool :=
  d.exists candidate || d.exists (candidate ++ walSuffix) || d.exists (candidate ++ shmSuffix)

/-- The first free aside name from the `n`-th on, among so many. -/
def freeName (d : Dir) : Nat → Nat → Option Str
  | 0, _ => none
  | tries + 1, n =>
      if taken d (asideStem m n) then freeName d tries (n + 1) else some (asideStem m n)

def asideName (d : Dir) : Option Str := freeName m d 10001 0

def noFreeName : CoreError := .io "could not find a free name to set the existing vault aside".toList

def renameSidecar (base suffix : Str) : RestoreM Unit := do
  let d ← get
  if d.exists (dbFile ++ suffix) then rename m (dbFile ++ suffix) (base ++ suffix)

/-- Set the old database aside, with its sidecars. -/
def setAside (force : Bool) : RestoreM Unit := do
  let d ← get
  if d.exists dbFile then
    if !force then throw (.vaultExists m.dbPath)
    else
      match asideName m d with
      | none => throw noFreeName
      | some base => do
          rename m dbFile base
          renameSidecar m base walSuffix
          renameSidecar m base shmSuffix

/-- `Connection::open` creates the file. -/
def connect : RestoreM Db := do
  let db ← fallible m.connect
  modify fun d => if d.exists dbFile then d else Function.update d dbFile (some .created)
  return db

/-- A session that is not there is no error. -/
def destroySession : RestoreM Unit := do
  failIf m.removeSession
  modify fun d => Function.update d sessionFile none

/-- Build the new database from the payload. -/
def install (payload : Payload) : RestoreM Unit := do
  failIf m.createDirAll
  failIf m.restrictPermissions
  let db ← connect m
  let db ← fallible (m.configure db)
  let db ← fallible (restorePayload m payload db)
  destroySession m
  let _ ← fallible (m.recordAudit "vault_restored_from_backup".toList db)

def schemaTooNew (found : Int) : CoreError :=
  .backupInvalid ("backup uses database schema v".toList ++ (toString found).toList
    ++ " but this build supports up to v".toList ++ Nat.toDigits 10 currentSchemaVersion)

def restoreBackup (path : Str) (force : Bool) : RestoreM BackupInfo := do
  let (file, payload) ← fallible (readAndDecrypt m)
  if (currentSchemaVersion : Int) < payload.schemaVersion then throw (schemaTooNew payload.schemaVersion)
  else do
    setAside m force
    install m payload
    return infoFor path file payload

/-! ## What goes through -/

/-- The statements are computed and accepted, one after another. -/
inductive Inserts : List Insert → Db → Db → Prop
  | nil (db : Db) : Inserts [] db db
  | cons {sql : Str} {values : List Value} {rest : List Insert} {db db₁ db₂ : Db}
      (haccepted : m.insert sql values db = .ok db₁) (hrest : Inserts rest db₁ db₂) :
      Inserts ((sql, .ok values) :: rest) db db₂

theorem runInserts_eq_ok {rows : List Insert} {db db' : Db} :
    runInserts m rows db = .ok db' ↔ Inserts m rows db db' := by
  induction rows generalizing db with
  | nil =>
      constructor
      · intro h
        obtain rfl := Except.ok.inj h
        exact .nil db
      · rintro ⟨⟩
        rfl
  | cons row rest ih =>
      obtain ⟨sql, values⟩ := row
      simp only [runInserts, bind_eq_ok]
      constructor
      · rintro ⟨values, rfl, db₁, haccepted, hrest⟩
        exact .cons haccepted (ih.1 hrest)
      · rintro (_ | ⟨haccepted, hrest⟩)
        exact ⟨_, rfl, _, haccepted, ih.2 hrest⟩

/-- The tables have names of the schema's kind, and the rows fit their columns and are accepted. -/
inductive Fits : List TableExport → Db → Db → Prop
  | nil (db : Db) : Fits [] db db
  | empty {table : TableExport} {rest : List TableExport} {db db' : Db}
      (hname : validIdent table.name = true) (hrows : table.rows = []) (hrest : Fits rest db db') :
      Fits (table :: rest) db db'
  | rows {table : TableExport} {rest : List TableExport} {quoted : Str} {columns : List Str}
      {db db₁ db' : Db} (hname : checkedIdent m table.name = .ok quoted) (hrows : table.rows ≠ [])
      (hcolumns : table.columns.mapM (checkedIdent m) = .ok columns)
      (hschema : m.prepare (insertSql quoted columns) db = true)
      (hinserts : Inserts m
        (table.rows.map fun row => (insertSql quoted columns, rowValues m table row)) db db₁)
      (hrest : Fits rest db₁ db') : Fits (table :: rest) db db'

theorem checkedIdent_eq_ok {name quoted : Str} :
    checkedIdent m name = .ok quoted ↔ validIdent name = true ∧ quoted = '"' :: name ++ ['"'] := by
  unfold checkedIdent
  split_ifs with h
  · simp [h, eq_comm]
  · simp [h]

theorem importTables_eq_ok {version : Int} {tables : List TableExport} {db db' : Db} :
    importTables m version tables db = .ok db' ↔ Fits m tables db db' := by
  induction tables generalizing db with
  | nil =>
      constructor
      · intro h
        obtain rfl := Except.ok.inj h
        exact .nil db
      · rintro ⟨⟩
        rfl
  | cons table rest ih =>
      simp only [importTables, importTable, bind_eq_ok]
      constructor
      · rintro ⟨db₁, ⟨quoted, hname, htable⟩, hrest⟩
        -- A table without rows checks its name and nothing else.
        split_ifs at htable with hrows
        · obtain rfl := Except.ok.inj htable
          exact .empty ((checkedIdent_eq_ok m).1 hname).1 (List.isEmpty_iff.1 hrows) (ih.1 hrest)
        · obtain ⟨columns, hcolumns, hinserts⟩ := bind_eq_ok.1 htable
          split_ifs at hinserts with hschema
          · exact .rows hname (fun h => hrows (List.isEmpty_iff.2 h)) hcolumns hschema
              ((runInserts_eq_ok m).1 hinserts) (ih.1 hrest)
      · rintro (_ | ⟨hname, hrows, hrest⟩ | ⟨hname, hrows, hcolumns, hschema, hinserts, hrest⟩)
        · refine ⟨db, ⟨_, (checkedIdent_eq_ok m).2 ⟨hname, rfl⟩, ?_⟩, ih.2 hrest⟩
          rw [if_pos (List.isEmpty_iff.2 hrows)]
          rfl
        · refine ⟨_, ⟨_, hname, ?_⟩, ih.2 hrest⟩
          rw [if_neg fun h => hrows (List.isEmpty_iff.1 h)]
          refine bind_eq_ok.2 ⟨_, hcolumns, ?_⟩
          rw [if_pos hschema]
          exact (runInserts_eq_ok m).2 hinserts

/-- The payload fits, and the database takes every transaction of the import. -/
inductive Imports : Payload → Db → Db → Prop
  | v1 {payload : BackupPayloadV1} {db db₁ db₂ db₃ db' : Db}
      (hschema : m.migrateWith migrations db = .ok db₁) (hbegin : m.begin db₁ = .ok db₂)
      (hrows : Inserts m (v1Inserts m payload) db₂ db₃) (hcommit : m.commit db₃ = .ok db') :
      Imports (.v1 payload) db db'
  | v2 {payload : BackupPayloadV2} {upto : List Migration} {db db₁ db₂ db₃ db₄ db' : Db}
      (hversion : migrationsUpto payload.schemaVersion = some upto)
      (hschema : m.migrateWith upto db = .ok db₁) (hbegin : m.begin db₁ = .ok db₂)
      (htables : Fits m payload.tables db₂ db₃) (hcommit : m.commit db₃ = .ok db₄)
      (hforward : m.migrateWith migrations db₄ = .ok db') : Imports (.v2 payload) db db'

theorem orError_eq_ok {α : Type} {e : CoreError} {x : Option α} {a : α} :
    orError e x = .ok a ↔ x = some a := by
  cases x with
  | none => simp [orError]
  | some b => simp [orError]

theorem restorePayload_eq_ok {payload : Payload} {db db' : Db} :
    restorePayload m payload db = .ok db' ↔ Imports m payload db db' := by
  cases payload with
  | v1 payload =>
      simp only [restorePayload, restoreV1, bind_eq_ok, runInserts_eq_ok]
      constructor
      · rintro ⟨db₁, hschema, db₂, hbegin, db₃, hrows, hcommit⟩
        exact .v1 hschema hbegin hrows hcommit
      · rintro ⟨hschema, hbegin, hrows, hcommit⟩
        exact ⟨_, hschema, _, hbegin, _, hrows, hcommit⟩
  | v2 payload =>
      simp only [restorePayload, restoreV2, bind_eq_ok, orError_eq_ok, importTables_eq_ok]
      constructor
      · rintro ⟨upto, hversion, db₁, hschema, db₂, hbegin, db₃, htables, db₄, hcommit, hforward⟩
        exact .v2 hversion hschema hbegin htables hcommit hforward
      · rintro (_ | ⟨hversion, hschema, hbegin, htables, hcommit, hforward⟩)
        exact ⟨_, hversion, _, hschema, _, hbegin, _, htables, _, hcommit, hforward⟩

/-! ## Runs -/

variable {α β : Type}

/-- What a step returns and leaves. -/
def RestoreM.on (x : RestoreM α) (d : Dir) : Except CoreError α × Dir := x.run.run d

theorem on_pure (a : α) (d : Dir) : (pure a : RestoreM α).on d = (.ok a, d) := rfl

theorem on_throw (e : CoreError) (d : Dir) : (throw e : RestoreM α).on d = (.error e, d) := rfl

theorem on_bind_ok {x : RestoreM α} {f : α → RestoreM β} {d d' : Dir} {a : α}
    (h : x.on d = (.ok a, d')) : (x >>= f).on d = (f a).on d' := by
  show (ExceptT.bindCont f (x.run.run d).1).run (x.run.run d).2 = _
  unfold RestoreM.on at h
  rw [h]
  rfl

theorem on_bind_error {x : RestoreM α} {f : α → RestoreM β} {d d' : Dir} {e : CoreError}
    (h : x.on d = (.error e, d')) : (x >>= f).on d = (.error e, d') := by
  show (ExceptT.bindCont f (x.run.run d).1).run (x.run.run d).2 = _
  unfold RestoreM.on at h
  rw [h]
  rfl

theorem on_fallible_ok {x : Except CoreError α} {a : α} (h : x = .ok a) (d : Dir) :
    (fallible x).on d = (.ok a, d) := by
  rw [h]
  rfl

theorem on_fallible_error {x : Except CoreError α} {e : CoreError} (h : x = .error e) (d : Dir) :
    (fallible x).on d = (.error e, d) := by
  rw [h]
  rfl

theorem on_failIf_none {x : Option CoreError} (h : x = none) (d : Dir) :
    (failIf x).on d = (.ok (), d) := by
  rw [h]
  rfl

theorem on_failIf_some {x : Option CoreError} {e : CoreError} (h : x = some e) (d : Dir) :
    (failIf x).on d = (.error e, d) := by
  rw [h]
  rfl

/-! ## Building the new database -/

/-- The new database comes to exist. -/
structure Starts : Prop where
  createDirAll : m.createDirAll = none
  restrictPermissions : m.restrictPermissions = none
  connect : ∃ db, m.connect = .ok db

/-- Every step of the new database goes through. -/
structure Installs (payload : Payload) : Prop where
  starts : Starts m
  database : ∃ db db₁ db₂ db₃, m.connect = .ok db ∧ m.configure db = .ok db₁ ∧
    Imports m payload db₁ db₂ ∧ m.recordAudit "vault_restored_from_backup".toList db₂ = .ok db₃
  removeSession : m.removeSession = none

/-- The directory behind the creation of the database. -/
def Dir.connected (d : Dir) : Dir := if d.exists dbFile then d else Function.update d dbFile (some .created)

theorem on_connect {db : Db} (h : m.connect = .ok db) (d : Dir) :
    (connect m).on d = (.ok db, d.connected) := by
  unfold connect
  rw [on_bind_ok (on_fallible_ok h d)]
  rfl

theorem session_ne_db : sessionFile ≠ dbFile := by decide

/-- Where no database is, one is there behind a failed installation exactly when it came to exist. -/
theorem on_install (payload : Payload) {d : Dir} (hd : d dbFile = none) :
    (Installs m payload ∧ ∃ d', (install m payload).on d = (.ok (), d')) ∨
    (¬Installs m payload ∧ ∃ e d', (install m payload).on d = (.error e, d') ∧
      ((Starts m ∧ d' dbFile = some .created) ∨ (¬Starts m ∧ d' dbFile = none))) := by
  have hconnected : d.connected dbFile = some .created := by
    simp [Dir.connected, Dir.exists, hd]
  unfold install
  -- One case for each step that fails; the last one is the success.
  cases hdir : m.createDirAll with
  | some e =>
      refine .inr ⟨fun h => ?_, e, d, on_bind_error (on_failIf_some rfl d), .inr ⟨fun h => ?_, hd⟩⟩
      · rw [h.starts.createDirAll] at hdir
        cases hdir
      · rw [h.createDirAll] at hdir
        cases hdir
  | none =>
  rw [on_bind_ok (on_failIf_none rfl d)]
  cases hrestrict : m.restrictPermissions with
  | some e =>
      refine .inr ⟨fun h => ?_, e, d, on_bind_error (on_failIf_some rfl d), .inr ⟨fun h => ?_, hd⟩⟩
      · rw [h.starts.restrictPermissions] at hrestrict
        cases hrestrict
      · rw [h.restrictPermissions] at hrestrict
        cases hrestrict
  | none =>
  rw [on_bind_ok (on_failIf_none rfl d)]
  cases hconnect : m.connect with
  | error e =>
      have herror : (connect m).on d = (.error e, d) := on_bind_error (on_fallible_error hconnect d)
      refine .inr ⟨fun h => ?_, e, d, on_bind_error herror, .inr ⟨fun h => ?_, hd⟩⟩
      · obtain ⟨db, hdb⟩ := h.starts.connect
        rw [hconnect] at hdb
        cases hdb
      · obtain ⟨db, hdb⟩ := h.connect
        rw [hconnect] at hdb
        cases hdb
  | ok db =>
  have hstarts : Starts m := ⟨hdir, hrestrict, db, hconnect⟩
  rw [on_bind_ok (on_connect m hconnect d)]
  cases hconfigure : m.configure db with
  | error e =>
      refine .inr ⟨?_, e, d.connected, on_bind_error (on_fallible_error rfl _),
        .inl ⟨hstarts, hconnected⟩⟩
      rintro ⟨-, ⟨db', db₁, db₂, db₃, hdb, hconf, -⟩, -⟩
      obtain rfl := Except.ok.inj (hconnect.symm.trans hdb)
      rw [hconfigure] at hconf
      cases hconf
  | ok db₁ =>
  rw [on_bind_ok (on_fallible_ok rfl _)]
  cases himport : restorePayload m payload db₁ with
  | error e =>
      refine .inr ⟨?_, e, d.connected, on_bind_error (on_fallible_error rfl _),
        .inl ⟨hstarts, hconnected⟩⟩
      rintro ⟨-, ⟨db', db₁', db₂, db₃, hdb, hconf, himports, -⟩, -⟩
      obtain rfl := Except.ok.inj (hconnect.symm.trans hdb)
      obtain rfl := Except.ok.inj (hconfigure.symm.trans hconf)
      rw [(restorePayload_eq_ok m).2 himports] at himport
      cases himport
  | ok db₂ =>
  rw [on_bind_ok (on_fallible_ok rfl _)]
  have himports := (restorePayload_eq_ok m).1 himport
  cases hsession : m.removeSession with
  | some e =>
      have herror : (destroySession m).on d.connected = (.error e, d.connected) :=
        on_bind_error (on_failIf_some hsession _)
      refine .inr ⟨fun h => ?_, e, d.connected, on_bind_error herror, .inl ⟨hstarts, hconnected⟩⟩
      rw [h.removeSession] at hsession
      cases hsession
  | none =>
  have hdestroy : (destroySession m).on d.connected
      = (.ok (), Function.update d.connected sessionFile none) := by
    unfold destroySession
    rw [on_bind_ok (on_failIf_none hsession _)]
    rfl
  rw [on_bind_ok hdestroy]
  have hdb : Function.update d.connected sessionFile none dbFile = some .created := by
    rw [Function.update_of_ne session_ne_db.symm, hconnected]
  cases haudit : m.recordAudit "vault_restored_from_backup".toList db₂ with
  | error e =>
      refine .inr ⟨?_, e, _, on_bind_error (on_fallible_error rfl _), .inl ⟨hstarts, hdb⟩⟩
      rintro ⟨-, ⟨db', db₁', db₂', db₃, hdb, hconf, himports', hrecord⟩, -⟩
      obtain rfl := Except.ok.inj (hconnect.symm.trans hdb)
      obtain rfl := Except.ok.inj (hconfigure.symm.trans hconf)
      have hsame := (restorePayload_eq_ok m).2 himports'
      obtain rfl := Except.ok.inj (himport.symm.trans hsame)
      rw [haudit] at hrecord
      cases hrecord
  | ok db₃ =>
      refine .inl ⟨⟨hstarts, ⟨db, db₁, db₂, db₃, hconnect, hconfigure, himports, haudit⟩, hsession⟩,
        Function.update d.connected sessionFile none, ?_⟩
      rw [on_bind_ok (on_fallible_ok rfl _)]
      exact on_pure () _

/-! ## Setting the old database aside -/

variable (present : Str → Bool)

/-- The sidecar is not there, or can be renamed. -/
def SidecarMoves (base suffix : Str) : Prop :=
  present (dbFile ++ suffix) = true → m.rename (dbFile ++ suffix) (base ++ suffix) = none

/-- An aside name is none of the short names of the vault, with a suffix or without. -/
theorem asideName_append_ne {d : Dir} {base : Str} (h : asideName m d = some base) (suffix : Str)
    {name : Str} (hname : name.length < asidePrefix.length) : base ++ suffix ≠ name := by
  have hstem : ∃ rest, base = asidePrefix ++ rest := by
    have hfree : ∀ tries n, freeName m d tries n = some base → ∃ rest, base = asidePrefix ++ rest := by
      intro tries
      induction tries with
      | zero => intro n h; cases h
      | succ tries ih =>
          intro n h
          unfold freeName at h
          split_ifs at h
          · exact ih (n + 1) h
          · obtain rfl := Option.some.inj h
            exact ⟨_, List.append_assoc _ _ _⟩
    exact hfree _ _ h
  obtain ⟨rest, rfl⟩ := hstem
  rintro rfl
  rw [List.append_assoc, List.length_append] at hname
  omega

/-- What a sidecar's renaming leaves: the database is as it was, and other names of the vault too. -/
theorem on_renameSidecar {base suffix : Str} {d : Dir} (hbase : base ++ suffix ≠ dbFile)
    (hsuffix : dbFile ++ suffix ≠ dbFile) :
    ((d.exists (dbFile ++ suffix) = true → m.rename (dbFile ++ suffix) (base ++ suffix) = none) ∧
      ∃ d', (renameSidecar m base suffix).on d = (.ok (), d') ∧ d' dbFile = d dbFile ∧
        ∀ name, name ≠ dbFile ++ suffix → name ≠ base ++ suffix → d' name = d name) ∨
    (d.exists (dbFile ++ suffix) = true ∧ ∃ e, m.rename (dbFile ++ suffix) (base ++ suffix) = some e ∧
      (renameSidecar m base suffix).on d = (.error e, d)) := by
  have hget : (renameSidecar m base suffix).on d
      = (if d.exists (dbFile ++ suffix) then rename m (dbFile ++ suffix) (base ++ suffix)
          else pure () : RestoreM Unit).on d := rfl
  rw [hget]
  cases hthere : d.exists (dbFile ++ suffix) with
  | false => exact .inl ⟨fun h => (by cases h), d, rfl, rfl, fun _ _ _ => rfl⟩
  | true =>
      cases hrename : m.rename (dbFile ++ suffix) (base ++ suffix) with
      | some e => exact .inr ⟨rfl, e, rfl, on_bind_error (on_failIf_some hrename d)⟩
      | none =>
          refine .inl ⟨fun _ => rfl, d.rename (dbFile ++ suffix) (base ++ suffix), ?_, ?_, ?_⟩
          · rw [if_pos rfl]
            exact on_bind_ok (on_failIf_none hrename d)
          · rw [Dir.rename, Function.update_of_ne hsuffix.symm, Function.update_of_ne hbase.symm]
          · intro name hfrom hto
            rw [Dir.rename, Function.update_of_ne hfrom, Function.update_of_ne hto]

/-- The old database can be set aside, with its sidecars. -/
structure SetsAside : Prop where
  moves : ∃ base, asideName m (Dir.start present) = some base ∧ m.rename dbFile base = none ∧
    SidecarMoves m present base walSuffix ∧ SidecarMoves m present base shmSuffix

theorem wal_ne_db : dbFile ++ walSuffix ≠ dbFile := by decide

theorem shm_ne_db : dbFile ++ shmSuffix ≠ dbFile := by decide

theorem start_exists (name : Str) : (Dir.start present).exists name = present name := by
  unfold Dir.exists Dir.start
  split_ifs with h
  · exact h.symm
  · exact (Bool.eq_false_of_not_eq_true h).symm

/-- Behind the renaming of the database there is none, whatever comes of the sidecars. -/
theorem on_sidecars {base : Str} (hbase : asideName m (Dir.start present) = some base) :
    ∃ d', d' dbFile = none ∧
      ((SidecarMoves m present base walSuffix ∧ SidecarMoves m present base shmSuffix ∧
          (renameSidecar m base walSuffix >>= fun _ => renameSidecar m base shmSuffix).on
            ((Dir.start present).rename dbFile base) = (.ok (), d')) ∨
        (¬(SidecarMoves m present base walSuffix ∧ SidecarMoves m present base shmSuffix) ∧
          ∃ e, (renameSidecar m base walSuffix >>= fun _ => renameSidecar m base shmSuffix).on
            ((Dir.start present).rename dbFile base) = (.error e, d'))) := by
  have hne : ∀ suffix name, name.length < asidePrefix.length → base ++ suffix ≠ name :=
    fun suffix _ hname => asideName_append_ne m hbase suffix hname
  have hbase_ne : ∀ name, name.length < asidePrefix.length → name ≠ base := by
    intro name hname h
    exact hne [] name hname (by rw [List.append_nil, h])
  have hgone : (Dir.start present).rename dbFile base dbFile = none := by
    rw [Dir.rename, Function.update_self]
  -- The sidecars are there behind the renaming of the database as before it.
  have hkept : ∀ name, name ≠ dbFile → name.length < asidePrefix.length →
      (Dir.start present).rename dbFile base name = Dir.start present name := by
    intro name hname hlen
    rw [Dir.rename, Function.update_of_ne hname, Function.update_of_ne (hbase_ne name hlen)]
  have hwal : ((Dir.start present).rename dbFile base).exists (dbFile ++ walSuffix)
      = present (dbFile ++ walSuffix) := by
    rw [← start_exists present]
    unfold Dir.exists
    rw [hkept _ wal_ne_db (by decide)]
  -- The first sidecar may fail with the database renamed already.
  rcases on_renameSidecar m (d := (Dir.start present).rename dbFile base)
      (hne walSuffix dbFile (by decide)) wal_ne_db with
    ⟨hmoves, d₁, hrun, hdb, hothers⟩ | ⟨hthere, e, hrename, hrun⟩
  · rw [hwal] at hmoves
    have hshm : d₁.exists (dbFile ++ shmSuffix) = present (dbFile ++ shmSuffix) := by
      rw [← start_exists present]
      unfold Dir.exists
      rw [hothers _ (by decide) (hne _ _ (by decide)).symm, hkept _ shm_ne_db (by decide)]
    rw [on_bind_ok hrun]
    rcases on_renameSidecar m (d := d₁) (hne shmSuffix dbFile (by decide)) shm_ne_db with
      ⟨hmoves', d₂, hrun', hdb', -⟩ | ⟨hthere, e, hrename, hrun'⟩
    · rw [hshm] at hmoves'
      exact ⟨d₂, hdb'.trans (hdb.trans hgone), .inl ⟨hmoves, hmoves', hrun'⟩⟩
    · refine ⟨d₁, hdb.trans hgone, .inr ⟨?_, e, hrun'⟩⟩
      rintro ⟨-, hmoves'⟩
      rw [hmoves' (hshm.symm.trans hthere)] at hrename
      cases hrename
  · refine ⟨_, hgone, .inr ⟨?_, e, on_bind_error hrun⟩⟩
    rintro ⟨hmoves, -⟩
    rw [hmoves (hwal.symm.trans hthere)] at hrename
    cases hrename

/-! ## All or nothing -/

/-- The vault that was there is still the one of the directory, with its session, and where none was,
    none is. -/
def AsBefore (d : Dir) : Prop :=
  if present dbFile then
    ∀ name ∈ [dbFile, dbFile ++ walSuffix, dbFile ++ shmSuffix, sessionFile],
      d name = Dir.start present name
  else d dbFile = none

/-- The restore is given up before anything is changed. -/
inductive Refused (force : Bool) : Prop
  | unreadable {e : CoreError} (h : readAndDecrypt m = .error e)
  | tooNew {file : BackupFile} {payload : Payload} (h : readAndDecrypt m = .ok (file, payload))
      (hversion : (currentSchemaVersion : Int) < payload.schemaVersion)
  | vaultExists (hthere : present dbFile = true) (hforce : force = false)
  | noFreeName (hthere : present dbFile = true) (h : asideName m (Dir.start present) = none)
  | notRenamed {base : Str} {e : CoreError} (hthere : present dbFile = true)
      (hbase : asideName m (Dir.start present) = some base) (h : m.rename dbFile base = some e)
  | notCreated (hthere : present dbFile = false) (h : ¬Starts m)

/-- Every step of the restore goes through. -/
structure Completes (force : Bool) : Prop where
  readable : ∃ file payload, readAndDecrypt m = .ok (file, payload) ∧
    payload.schemaVersion ≤ (currentSchemaVersion : Int) ∧ Installs m payload
  setsAside : present dbFile = true → force = true ∧ SetsAside m present

theorem asBefore_start : AsBefore present (Dir.start present) := by
  unfold AsBefore
  split_ifs with h
  · exact fun _ _ => rfl
  · exact if_neg h

/-- If the restore returns an error, the vault is as before. -/
def FailsAsBefore {α : Type} (r : Except CoreError α × Dir) : Prop :=
  ∀ e, r.1 = .error e → AsBefore present r.2

theorem failsAsBefore_error {α : Type} {e : CoreError} {d : Dir} :
    FailsAsBefore present ((.error e, d) : Except CoreError α × Dir) ↔ AsBefore present d :=
  ⟨fun h => h e rfl, fun h _ _ => h⟩

theorem failsAsBefore_ok {α : Type} (a : α) (d : Dir) :
    FailsAsBefore present ((.ok a, d) : Except CoreError α × Dir) := fun _ h => by cases h

theorem not_asBefore_of_gone {d : Dir} (hthere : present dbFile = true)
    (hd : d dbFile ≠ some (.old dbFile)) : ¬AsBefore present d := by
  intro h
  rw [AsBefore, if_pos hthere] at h
  have hdb := h dbFile (List.mem_cons_self ..)
  rw [Dir.start, if_pos hthere] at hdb
  exact hd hdb

theorem setsAside_iff {base : Str} (hbase : asideName m (Dir.start present) = some base)
    (hrename : m.rename dbFile base = none) : SetsAside m present ↔
      SidecarMoves m present base walSuffix ∧ SidecarMoves m present base shmSuffix := by
  constructor
  · rintro ⟨base', hbase', -, hmoves⟩
    obtain rfl := Option.some.inj (hbase.symm.trans hbase')
    exact hmoves
  · exact fun hmoves => ⟨base, hbase, hrename, hmoves⟩

section Read

variable {file : BackupFile} {payload : Payload} (hread : readAndDecrypt m = .ok (file, payload))
  (hversion : ¬(currentSchemaVersion : Int) < payload.schemaVersion)

include hread hversion

theorem completes_iff {force : Bool} : Completes m present force ↔
    Installs m payload ∧ (present dbFile = true → force = true ∧ SetsAside m present) := by
  constructor
  · rintro ⟨⟨file', payload', hread', -, hinstalls⟩, haside⟩
    obtain ⟨-, rfl⟩ := Prod.mk.inj (Except.ok.inj (hread.symm.trans hread'))
    exact ⟨hinstalls, haside⟩
  · rintro ⟨hinstalls, haside⟩
    exact ⟨⟨file, payload, hread, not_lt.1 hversion, hinstalls⟩, haside⟩

/-- A backup that is read is refused by what is in the directory alone. -/
theorem refused_iff {force : Bool} : Refused m present force ↔
    (present dbFile = true ∧ (force = false ∨ asideName m (Dir.start present) = none ∨
      ∃ base, asideName m (Dir.start present) = some base ∧ m.rename dbFile base ≠ none)) ∨
    (present dbFile = false ∧ ¬Starts m) := by
  constructor
  · rintro (h | ⟨h, hv⟩ | ⟨hthere, h⟩ | ⟨hthere, h⟩ | ⟨hthere, hbase, h⟩ | ⟨hthere, h⟩)
    · rw [hread] at h
      cases h
    · obtain ⟨-, rfl⟩ := Prod.mk.inj (Except.ok.inj (hread.symm.trans h))
      exact absurd hv hversion
    · exact .inl ⟨hthere, .inl h⟩
    · exact .inl ⟨hthere, .inr (.inl h)⟩
    · exact .inl ⟨hthere, .inr (.inr ⟨_, hbase, by rw [h]; exact Option.some_ne_none _⟩)⟩
    · exact .inr ⟨hthere, h⟩
  · rintro (⟨hthere, h | h | ⟨base, hbase, h⟩⟩ | ⟨hthere, h⟩)
    · exact .vaultExists hthere h
    · exact .noFreeName hthere h
    · obtain ⟨e, he⟩ := Option.ne_none_iff_exists'.1 h
      exact .notRenamed hthere hbase he
    · exact .notCreated hthere h

/-- Where no database is, nothing is set aside. -/
theorem restore_fresh (path : Str) (force : Bool) (hthere : present dbFile = false) :
    FailsAsBefore present ((do
        setAside m force
        install m payload
        return infoFor path file payload : RestoreM BackupInfo).on (Dir.start present)) ↔
      Refused m present force ∨ Completes m present force := by
  rw [completes_iff m present hread hversion, refused_iff m present hread hversion]
  have hnone : (setAside m force).on (Dir.start present) = (.ok (), Dir.start present) := by
    show (if (Dir.start present).exists dbFile then _ else pure () : RestoreM Unit).on _ = _
    rw [start_exists, hthere]
    rfl
  rw [on_bind_ok hnone]
  have hempty : Dir.start present dbFile = none := by simp [Dir.start, hthere]
  rcases on_install m payload hempty with
    ⟨hinstalls, d', hrun⟩ | ⟨hnot, e, d', hrun, hleft⟩
  · rw [on_bind_ok hrun]
    exact ⟨fun _ => .inr ⟨hinstalls, fun h => by rw [hthere] at h; cases h⟩, fun _ => failsAsBefore_ok present _ _⟩
  · rw [on_bind_error hrun, failsAsBefore_error, AsBefore, hthere, if_neg (by decide)]
    rcases hleft with ⟨hstarts, hcreated⟩ | ⟨hstarts, hgone⟩
    · refine ⟨fun hbefore => ?_, ?_⟩
      · rw [hbefore] at hcreated
        cases hcreated
      · rintro ((⟨h, -⟩ | ⟨-, h⟩) | ⟨h, -⟩)
        · cases h
        · exact absurd hstarts h
        · exact absurd h hnot
    · exact ⟨fun _ => .inl (.inr ⟨rfl, hstarts⟩), fun _ => hgone⟩

/-- Where a database is, it is renamed and nothing takes that back. -/
theorem restore_over (path : Str) (force : Bool) (hthere : present dbFile = true) :
    FailsAsBefore present ((do
        setAside m force
        install m payload
        return infoFor path file payload : RestoreM BackupInfo).on (Dir.start present)) ↔
      Refused m present force ∨ Completes m present force := by
  rw [completes_iff m present hread hversion, refused_iff m present hread hversion]
  have haside : (setAside m force).on (Dir.start present) = (if !force then throw (.vaultExists m.dbPath)
      else match asideName m (Dir.start present) with
        | none => throw noFreeName
        | some base => rename m dbFile base >>= fun _ => renameSidecar m base walSuffix >>= fun _ =>
            renameSidecar m base shmSuffix : RestoreM Unit).on (Dir.start present) := by
    show (if (Dir.start present).exists dbFile then _ else _ : RestoreM Unit).on _ = _
    rw [start_exists, hthere]
    rfl
  cases force with
  | false =>
      rw [on_bind_error (haside.trans (on_throw _ _)), failsAsBefore_error]
      exact ⟨fun _ => .inl (.inl ⟨hthere, .inl rfl⟩), fun _ => asBefore_start present⟩
  | true =>
  cases hbase : asideName m (Dir.start present) with
  | none =>
      rw [hbase] at haside
      rw [on_bind_error (haside.trans (on_throw _ _)), failsAsBefore_error]
      exact ⟨fun _ => .inl (.inl ⟨hthere, .inr (.inl rfl)⟩), fun _ => asBefore_start present⟩
  | some base =>
  rw [hbase] at haside
  cases hrename : m.rename dbFile base with
  | some e =>
      have hfails : (rename m dbFile base >>= fun _ => renameSidecar m base walSuffix >>= fun _ =>
          renameSidecar m base shmSuffix : RestoreM Unit).on (Dir.start present)
          = (.error e, Dir.start present) :=
        on_bind_error (on_bind_error (on_failIf_some hrename _))
      rw [on_bind_error (haside.trans hfails), failsAsBefore_error]
      exact ⟨fun _ => .inl (.inl ⟨hthere, .inr (.inr ⟨base, rfl, by simp [hrename]⟩)⟩),
        fun _ => asBefore_start present⟩
  | none =>
  -- From here on the old database is out of its place: only a complete restore will do.
  have hrenamed : (rename m dbFile base).on (Dir.start present)
      = (.ok (), (Dir.start present).rename dbFile base) :=
    on_bind_ok (on_failIf_none hrename _)
  have hnotRefused : ¬((present dbFile = true ∧ (true = false ∨ some base = none ∨
      ∃ base', some base = some base' ∧ m.rename dbFile base' ≠ none)) ∨ (present dbFile = false ∧ ¬Starts m)) := by
    simp [hthere, hrename]
  have hsetsAside := setsAside_iff m present hbase hrename
  obtain ⟨d', hgone, ⟨hwal, hshm, hrun⟩ | ⟨hnot, e, hrun⟩⟩ := on_sidecars m present hbase
  · rw [on_bind_ok (haside.trans ((on_bind_ok hrenamed).trans hrun))]
    rcases on_install m payload hgone with
      ⟨hinstalls, d'', hrun'⟩ | ⟨hnot, e, d'', hrun', hleft⟩
    · rw [on_bind_ok hrun']
      exact ⟨fun _ => .inr ⟨hinstalls, fun _ => ⟨rfl, hsetsAside.2 ⟨hwal, hshm⟩⟩⟩,
        fun _ => failsAsBefore_ok present _ _⟩
    · rw [on_bind_error hrun', failsAsBefore_error]
      have hlost : d'' dbFile ≠ some (.old dbFile) := by
        rcases hleft with ⟨-, h⟩ | ⟨-, h⟩ <;> rw [h] <;> decide
      exact ⟨fun h => absurd h (not_asBefore_of_gone present hthere hlost),
        fun h => h.elim (fun h => absurd h hnotRefused) fun h => absurd h.1 hnot⟩
  · rw [on_bind_error (haside.trans ((on_bind_ok hrenamed).trans hrun)), failsAsBefore_error]
    have hlost : d' dbFile ≠ some (.old dbFile) := by
      rw [hgone]
      decide
    exact ⟨fun h => absurd h (not_asBefore_of_gone present hthere hlost),
      fun h => h.elim (fun h => absurd h hnotRefused) fun h =>
        absurd (hsetsAside.1 (h.2 hthere).2) hnot⟩

end Read

/-- A restore that returns an error leaves the vault as before exactly when it is given up before the old
    database is renamed, or, where none was, before the new one is created; no other step may fail. -/
theorem restore_all_or_nothing (path : Str) (force : Bool) :
    FailsAsBefore present ((restoreBackup m path force).on (Dir.start present)) ↔
      Refused m present force ∨ Completes m present force := by
  unfold restoreBackup
  cases hread : readAndDecrypt m with
  | error e =>
      rw [on_bind_error (on_fallible_error rfl _), failsAsBefore_error]
      exact ⟨fun _ => .inl (.unreadable hread), fun _ => asBefore_start present⟩
  | ok read =>
  obtain ⟨file, payload⟩ := read
  rw [on_bind_ok (on_fallible_ok rfl _)]
  dsimp only
  by_cases hversion : (currentSchemaVersion : Int) < payload.schemaVersion
  · rw [if_pos hversion, on_throw, failsAsBefore_error]
    exact ⟨fun _ => .inl (.tooNew hread hversion), fun _ => asBefore_start present⟩
  rw [if_neg hversion]
  cases hthere : present dbFile with
  | false => exact restore_fresh m present hread hversion path force hthere
  | true => exact restore_over m present hread hversion path force hthere

/-! ## A payload that does not fit -/

/-- A backup whose only table has a row that is too short; all else answers without errors. -/
def shortRow : Machine Unit Unit where
  readFile := .ok []
  parseFile _ := some ⟨backupFormat, 2, "v1".toList, [], [], [], []⟩
  parseV1 _ := none
  parseV2 _ := some ⟨20, [⟨"projects".toList, ["id".toList, "name".toList], [[.text "p1".toList]]⟩]⟩
  hexDecode _ := some []
  base64Decode _ := some []
  deriveKey _ _ := .ok ()
  decrypt _ _ _ _ := some []
  showDebug name := name
  timestamp := "0".toList
  dbPath := dbFile
  rename _ _ := none
  createDirAll := none
  restrictPermissions := none
  removeSession := none
  connect := .ok ()
  configure _ := .ok ()
  migrateWith _ _ := .ok ()
  begin _ := .ok ()
  prepare _ _ := true
  insert _ _ _ := .ok ()
  commit _ := .ok ()
  recordAudit _ _ := .ok ()

/-- A vault with a session. -/
def vaultThere (name : Str) : Bool := name = dbFile || name = sessionFile

theorem failed_restore_replaces_vault :
    ¬FailsAsBefore vaultThere ((restoreBackup shortRow [] true).on (Dir.start vaultThere)) := by
  have hrun : ((restoreBackup shortRow [] true).on (Dir.start vaultThere)).1.toOption = none ∧
      ((restoreBackup shortRow [] true).on (Dir.start vaultThere)).2 dbFile = some .created := by
    decide
  intro h
  cases hresult : ((restoreBackup shortRow [] true).on (Dir.start vaultThere)).1 with
  | ok info =>
      rw [hresult] at hrun
      cases hrun.1
  | error e =>
      refine not_asBefore_of_gone vaultThere (by decide) ?_ (h e hresult)
      rw [hrun.2]
      decide

end Tethra.Restore
