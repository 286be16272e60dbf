import Tethra.Observe.Policy

set_option autoImplicit false

/-! # Project keys and credentials (`core/src/vault.rs`)

A project's key is wrapped in its row, under the vault key and, with a project password, under a key derived
from it. Encryption is ideal: a ciphertext says under which key, with which associated data and of what
it was made. The body of each write transaction is a function of the database, which the write lock
makes one step. -/

namespace Tethra.Vault

open Text
open Observe (asciiLower)

/-! ## Ciphertexts -/

/-- The vault's key, a key derived from a password, or a project's key, numbered as they are drawn. -/
inductive SecretKey where
  | vault
  | password (password salt kdfParams : Str)
  | project (n : Nat)
  deriving DecidableEq, Repr

inductive Aad where
  | projectKey (projectId : Str)
  | projectKeyPassword (projectId : Str)
  | credentialValue (projectId credentialId : Str)
  | credentialVersion (projectId credentialId : Str) (version : Nat)
  deriving DecidableEq, Repr

inductive Secret where
  | key (k : SecretKey)
  | text (value : Str)
  | sealed (k : SecretKey) (aad : Aad) (content : Secret)
  deriving DecidableEq, Repr

def encrypt (k : SecretKey) (aad : Aad) (content : Secret) : Secret := .sealed k aad content

def decrypt (k : SecretKey) (aad : Aad) (context : String) : Secret → Except CoreError Secret
  | .sealed k' aad' content => if k' = k ∧ aad' = aad then .ok content else .error (.crypto context)
  | _ => .error (.crypto context)

def Secret.asKey : Secret → Except CoreError SecretKey
  | .key k => .ok k
  | _ => .error (.crypto "project key")

/-! ## Rows -/

inductive KeyWrapMode where
  | vault
  | vaultPassword
  deriving DecidableEq, Repr

structure ProjectRow where
  id : Str
  name : Str
  archived : Bool
  wrappedProjectKey : Secret
  keyWrapMode : KeyWrapMode
  projectKdfParams : Option Str
  projectSalt : Option Str
  deriving DecidableEq, Repr

structure CredentialRow where
  id : Str
  projectId : Str
  name : Str
  ciphertext : Option Secret
  linkedCredentialId : Option Str
  valueVersion : Nat
  deriving DecidableEq, Repr

structure VersionRow where
  credentialId : Str
  version : Nat
  ciphertext : Secret
  deriving DecidableEq, Repr

structure VaultDb where
  projects : List ProjectRow
  credentials : List CredentialRow
  versions : List VersionRow
  deriving DecidableEq, Repr

/-- `COLLATE NOCASE`. -/
def sameName (a b : Str) : Bool := asciiLower a = asciiLower b

/-- By id, else by name. -/
def projectRowByIdent (db : VaultDb) (ident : Str) : Except CoreError ProjectRow :=
  match db.projects.find? (·.id = ident) with
  | some row => .ok row
  | none =>
      match db.projects.find? fun p => sameName p.name ident with
      | some row => .ok row
      | none => .error (.notFound "project" ident)

/-- By id, as `project/name`, or by a name that only one has. -/
def resolveCredential (db : VaultDb) (selector : Str) : Except CoreError CredentialRow :=
  match db.credentials.find? (·.id = selector) with
  | some row => .ok row
  | none =>
      match splitOnce '/' selector with
      | some (ident, name) => do
          let project ← projectRowByIdent db ident
          match db.credentials.find? fun c => c.projectId = project.id && sameName c.name name with
          | some row => return row
          | none => .error (.notFound "credential" selector)
      | none =>
          match db.credentials.filter fun c => sameName c.name selector with
          | [] => .error (.notFound "credential" selector)
          | [row] => .ok row
          | _ => .error (.ambiguous "credential" selector)

/-! ## Keys -/

section Keys

variable {δ : Type} [DecidableEq δ] (hash : Secret → δ)

/-- The keys that a session has unlocked, each with the hash of the wrap that it came from. -/
abbrev ProjectKeys (δ : Type) : Type := Str → Option (SecretKey × δ)

/-- The key of a project; a cached one has to be that of the row's wrap. -/
def projectKeyForRow (keys : ProjectKeys δ) (row : ProjectRow) : Except CoreError SecretKey :=
  match row.keyWrapMode with
  | .vault => do
      let key ← decrypt .vault (.projectKey row.id) "project key" row.wrappedProjectKey
      key.asKey
  | .vaultPassword =>
      match keys row.id with
      | none => .error (.projectLocked row.name)
      | some (key, wrapHash) =>
          if hash row.wrappedProjectKey ≠ wrapHash then .error (.projectLocked row.name) else .ok key

def unwrapProjectKeyWithPassword (row : ProjectRow) (password : Str) : Except CoreError SecretKey :=
  match row.projectKdfParams, row.projectSalt with
  | some kdfParams, some salt => do
      let inner ← decrypt .vault (.projectKey row.id) "project key (outer wrap)" row.wrappedProjectKey
      match decrypt (.password password salt kdfParams) (.projectKeyPassword row.id) "project key"
          inner with
      | .ok key => key.asKey
      | .error _ => .error .wrongPassword
  | _, _ => .error (.vaultCorrupted "password-locked project is missing KDF data")

/-! ## Rotation -/

def rotateCredential (projectId : Str) (oldKey newKey : SecretKey) (c : CredentialRow) :
    Except CoreError CredentialRow :=
  match c.ciphertext with
  | none => .ok c
  | some ciphertext =>
      if c.projectId = projectId then do
        let aad := Aad.credentialValue projectId c.id
        let plain ← decrypt oldKey aad "credential value" ciphertext
        return { c with ciphertext := some (encrypt newKey aad plain) }
      else .ok c

def rotateVersion (db : VaultDb) (projectId : Str) (oldKey newKey : SecretKey) (v : VersionRow) :
    Except CoreError VersionRow :=
  if db.credentials.any fun c => c.id = v.credentialId && c.projectId = projectId then do
    let aad := Aad.credentialVersion projectId v.credentialId v.version
    let plain ← decrypt oldKey aad "credential version" v.ciphertext
    return { v with ciphertext := encrypt newKey aad plain }
  else .ok v

/-- Re-encrypt every value and every version of a project under a fresh key. -/
def rotateProjectKey (db : VaultDb) (projectId : Str) (oldKey newKey : SecretKey) :
    Except CoreError VaultDb := do
  let credentials ← db.credentials.mapM (rotateCredential projectId oldKey newKey)
  let versions ← db.versions.mapM (rotateVersion db projectId oldKey newKey)
  return { db with credentials, versions }

def VaultDb.setProject (db : VaultDb) (projectId : Str) (write : ProjectRow → ProjectRow) : VaultDb :=
  { db with projects := db.projects.map fun p => if p.id = projectId then write p else p }

/-! ## Transactions -/

/-- A new project, with a key of its own. -/
def createProject (db : VaultDb) (id name : Str) (newKey : SecretKey) : Except CoreError VaultDb :=
  if db.projects.any fun p => p.id = id || sameName p.name name then
    .error (.alreadyExists "project" name)
  else
    .ok { db with projects := db.projects ++
      [⟨id, name, false, encrypt .vault (.projectKey id) (.key newKey), .vault, none, none⟩] }

/-- Set or change a project's password; the project, its new key and the new wrap's hash are what the
    session then keeps. -/
def setProjectPassword (db : VaultDb) (keys : ProjectKeys δ) (ident password salt kdfParams : Str)
    (newKey : SecretKey) : Except CoreError (VaultDb × Str × SecretKey × δ) := do
  let row ← projectRowByIdent db ident
  let oldKey ← projectKeyForRow hash keys row
  let db ← rotateProjectKey db row.id oldKey newKey
  let inner := encrypt (.password password salt kdfParams) (.projectKeyPassword row.id) (.key newKey)
  let outer := encrypt .vault (.projectKey row.id) inner
  let db := db.setProject row.id fun p =>
    { p with
      wrappedProjectKey := outer
      keyWrapMode := .vaultPassword
      projectKdfParams := some kdfParams
      projectSalt := some salt }
  return (db, row.id, newKey, hash outer)

/-- What unlocking finds, on the row as it was read. -/
def unlockProject (db : VaultDb) (ident password : Str) : Except CoreError (Str × SecretKey × δ) := do
  let row ← projectRowByIdent db ident
  if row.keyWrapMode ≠ .vaultPassword then
    .error (.invalidInput ("project '".toList ++ row.name ++ "' has no password lock".toList))
  else do
    let key ← unwrapProjectKeyWithPassword row password
    return (row.id, key, hash row.wrappedProjectKey)

/-- The part of removing a password that runs before the transaction, on the row as it was read. -/
def readForRemoval (db : VaultDb) (ident password : Str) : Except CoreError (ProjectRow × SecretKey) := do
  let pre ← projectRowByIdent db ident
  if pre.keyWrapMode ≠ .vaultPassword then
    .error (.invalidInput ("project '".toList ++ pre.name ++ "' has no password lock".toList))
  else do
    let oldKey ← unwrapProjectKeyWithPassword pre password
    return (pre, oldKey)

/-- Remove a project's password, if its wrap is still the one that was unlocked. -/
def removeProjectPassword (db : VaultDb) (pre : ProjectRow) (oldKey newKey : SecretKey) :
    Except CoreError (VaultDb × Str) := do
  let row ← projectRowByIdent db pre.id
  if row.keyWrapMode ≠ .vaultPassword ∨ row.wrappedProjectKey ≠ pre.wrappedProjectKey then
    .error .busy
  else do
    let db ← rotateProjectKey db row.id oldKey newKey
    let db := db.setProject row.id fun p =>
      { p with
        wrappedProjectKey := encrypt .vault (.projectKey row.id) (.key newKey)
        keyWrapMode := .vault
        projectKdfParams := none
        projectSalt := none }
    return (db, row.id)

def addCredential (db : VaultDb) (keys : ProjectKeys δ) (ident id name value : Str) :
    Except CoreError VaultDb :=
  if trim name = [] then .error (.invalidInput "credential name must not be empty".toList)
  else if trim value = [] then .error (.invalidInput "credential value must not be empty".toList)
  else do
    let project ← projectRowByIdent db ident
    if project.archived then
      .error (.invalidInput ("project '".toList ++ project.name
        ++ "' is archived; restore it before adding credentials".toList))
    else if db.credentials.any fun c => c.projectId = project.id && sameName c.name (trim name) then
      .error (.alreadyExists "credential" (trim name))
    else do
      let projectKey ← projectKeyForRow hash keys project
      let ciphertext := encrypt projectKey (.credentialValue project.id id) (.text (trim value))
      if db.credentials.any (·.id = id) then .error (.db "UNIQUE constraint failed".toList)
      else
        return { db with credentials := db.credentials ++
          [⟨id, project.id, trim name, some ciphertext, none, 1⟩] }

/-- Keep the outgoing value as a version. Which older versions of the credential stay is decided by their
    number, their age and the rotations that need them. -/
def retainCredentialVersion (db : VaultDb) (row : CredentialRow) (projectKey : SecretKey)
    (stays : VersionRow → Bool) : Except CoreError VaultDb :=
  match row.ciphertext with
  | none => .error (.vaultCorrupted "credential is missing its ciphertext")
  | some ciphertext => do
      let plain ← decrypt projectKey (.credentialValue row.projectId row.id) "credential value" ciphertext
      let versioned :=
        encrypt projectKey (.credentialVersion row.projectId row.id row.valueVersion) plain
      let others := db.versions.filter fun v => v.credentialId ≠ row.id || v.version ≠ row.valueVersion
      let versions := others ++ [⟨row.id, row.valueVersion, versioned⟩]
      return { db with versions := versions.filter fun v => v.credentialId ≠ row.id || stays v }

def replaceCredentialValue (db : VaultDb) (keys : ProjectKeys δ) (selector value : Str)
    (stays : VersionRow → Bool) : Except CoreError VaultDb :=
  if trim value = [] then .error (.invalidInput "credential value must not be empty".toList)
  else do
    let row ← resolveCredential db selector
    if row.linkedCredentialId.isSome then
      .error (.invalidInput
        "this record is a reference; replace the value on the credential it points to".toList)
    else do
      let project ← projectRowByIdent db row.projectId
      let projectKey ← projectKeyForRow hash keys project
      let ciphertext := encrypt projectKey (.credentialValue row.projectId row.id) (.text (trim value))
      let db ← retainCredentialVersion db row projectKey stays
      return { db with credentials := db.credentials.map fun c =>
        if c.id = row.id then
          { c with
            ciphertext := some ciphertext
            valueVersion := row.valueVersion + 1 }
        else c }

/-- Its versions go with it. -/
def deleteCredential (db : VaultDb) (id : Str) : VaultDb :=
  { db with
    credentials := db.credentials.filter (·.id ≠ id)
    versions := db.versions.filter (·.credentialId ≠ id) }

end Keys

end Tethra.Vault
