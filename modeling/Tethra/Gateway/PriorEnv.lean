import Tethra.Core.Error
import Tethra.Lib.Keyed

set_option autoImplicit false

/-! # Restore records (`gateway/src/envlink.rs`, `core/src/envrestore.rs`)

Before the link writer touches a `.env` file it records what each variable held. The record of a link
is `PriorEnv`, a versioned document; its values are sealed under the vault's env-restore key, and a
re-link merges into the stored record, where the first recorded prior wins. -/

namespace Tethra.Gateway

/-- `SealedValue`: ciphertext only. -/
structure SealedValue where
  ct : Str
  deriving DecidableEq, Repr

/-- The restore key of one vault. The cipher binds a value to its link, file and variable; opening
    what was sealed under the same three gives the value back. -/
structure RestoreCrypto where
  sealValue : Str → Str → Str → Str → Except CoreError SealedValue
  openValue : Str → Str → Str → SealedValue → Except CoreError Str
  open_seal : ∀ {slug path key value ct},
    sealValue slug path key value = .ok ct → openValue slug path key ct = .ok value

/-- What one linked variable looked like before the writer touched it, and what was written. -/
structure PriorVar where
  key : Str
  prior : Option Str
  sealed : Option SealedValue
  priorWithheld : Bool
  written : Str
  priorAll : List Str
  sealedAll : List SealedValue
  deriving DecidableEq, Repr

structure PriorFile where
  path : Str
  existed : Bool
  vars : List PriorVar
  deriving DecidableEq, Repr

structure PriorEnv where
  v : Nat
  port : Nat
  files : List PriorFile
  deriving DecidableEq, Repr

/-- `PRIOR_ENV_VERSION`. -/
def priorEnvVersion : Nat := 2

/-- Refuse a restore record written by a newer build. -/
def checkPriorEnvVersion (v : Nat) : Except CoreError Unit :=
  if priorEnvVersion < v then
    .error (.unsupported "gateway".toList "env restore record"
      ("this project's saved .env restore record is version ".toList ++ Nat.toDigits 10 v
        ++ ", but this build understands up to ".toList ++ Nat.toDigits 10 priorEnvVersion
        ++ ". Upgrade Tethra to unlink this project; the record is left untouched.".toList))
  else .ok ()

/-! ## Sealing -/

/-- Seal the recorded values of one variable; without a key they are withheld. -/
def sealPriorVar (crypto : Option RestoreCrypto) (slug path : Str) (var : PriorVar) :
    Except CoreError PriorVar :=
  let plain := { var with prior := none, priorAll := [] }
  if var.sealed.isSome || !var.sealedAll.isEmpty then .ok plain
  else
    match crypto with
    | none => .ok (if var.prior.isSome then { plain with priorWithheld := true } else plain)
    | some c => do
        let sealed ← var.prior.mapM (c.sealValue slug path var.key)
        let sealedAll ← var.priorAll.mapM (c.sealValue slug path var.key)
        pure { plain with sealed, sealedAll }

def sealPriorFile (crypto : Option RestoreCrypto) (slug : Str) (file : PriorFile) :
    Except CoreError PriorFile := do
  let vars ← file.vars.mapM (sealPriorVar crypto slug file.path)
  pure { file with vars }

/-- Seal every recorded prior value in `files`. -/
def sealPriorFiles (crypto : Option RestoreCrypto) (slug : Str) (files : List PriorFile) :
    Except CoreError (List PriorFile) :=
  files.mapM (sealPriorFile crypto slug)

/-- The prior value of one variable, opened when it was sealed. -/
def openPrior (c : RestoreCrypto) (slug path : Str) (var : PriorVar) :
    Except CoreError (Option Str) :=
  match var.sealed with
  | some sealed => (c.openValue slug path var.key sealed).map some
  | none => .ok var.prior

/-- Open the recorded values of one variable; without a key they count as withheld. -/
def openPriorVar (crypto : Option RestoreCrypto) (slug path : Str) (var : PriorVar) :
    Except CoreError PriorVar :=
  if var.sealed.isNone && var.sealedAll.isEmpty then .ok var
  else
    match crypto with
    | none => .ok { var with prior := none, priorAll := [], priorWithheld := true }
    | some c => do
        let prior ← openPrior c slug path var
        let priorAll ← var.sealedAll.mapM (c.openValue slug path var.key)
        pure { var with prior, priorAll }

/-- Open a stored record into the plaintext shape that `restoreFile` consumes. -/
def openPriorFile (crypto : Option RestoreCrypto) (slug : Str) (file : PriorFile) :
    Except CoreError PriorFile := do
  let vars ← file.vars.mapM (openPriorVar crypto slug file.path)
  pure { file with vars }

/-- Drop the plaintext values of one variable, marking it withheld. -/
def redactPriorVar (var : PriorVar) : PriorVar :=
  if var.prior.isSome || !var.priorAll.isEmpty then
    { var with prior := none, priorAll := [], priorWithheld := true }
  else var

/-- `redact_all_plaintext`. -/
def redactAllPlaintext (files : List PriorFile) : List PriorFile :=
  files.map fun file => { file with vars := file.vars.map redactPriorVar }

/-! ## Merging -/

/-- Merge one fresh record into the records of a file, which have distinct keys: the stored prior
    stays, `written` is refreshed. -/
def mergeVar (vars : List PriorVar) (fresh : PriorVar) : List PriorVar :=
  Keyed.upsert PriorVar.key fresh.key (fun v => { v with written := fresh.written }) fresh vars

def mergeVars (vars fresh : List PriorVar) : List PriorVar := fresh.foldl mergeVar vars

/-- Merge one fresh file record into the records, which have distinct paths. -/
def mergeFile (files : List PriorFile) (fresh : PriorFile) : List PriorFile :=
  Keyed.upsert PriorFile.path fresh.path (fun f => { f with vars := mergeVars f.vars fresh.vars })
    fresh files

/-- Insert a stored file record, replacing one with its path (`BTreeMap::insert`). -/
def insertFile (files : List PriorFile) (file : PriorFile) : List PriorFile :=
  Keyed.upsert PriorFile.path file.path (fun _ => file) file files

/-- Merge fresh per-file records over the stored ones, in the order of their paths. -/
def mergePrior (stored fresh : List PriorFile) : List PriorFile :=
  (fresh.foldl mergeFile (stored.foldl insertFile [])).insertionSort fun a b => a.path ≤ b.path

end Tethra.Gateway
