import Tethra.Core.Error
import Tethra.Lib.Interleave

set_option autoImplicit false

/-! # The rotation store (`core/src/rotation.rs`)

The rotation rows, their event log, and the single statements that the rotation operations run against
them. Every statement is one action of its process: between two of them other processes may run. What the
operations ask of other parts of the vault and of the providers is an action with any answer. -/

namespace Tethra.Rotations

inductive RotationState where
  | planned
  | approved
  | creatingReplacement
  /-- Claimed: the provider-side key creation is being performed. -/
  | creatingInProgress
  | awaitingManualKey
  | replacementStored
  | updatingDestinations
  | destinationsVerified
  | gracePeriod
  | oldDisabled
  | completed
  | failed
  | rollingBack
  | rolledBack
  | manualRequired
  deriving DecidableEq, Repr

def RotationState.name : RotationState → Str
  | .planned => "planned".toList
  | .approved => "approved".toList
  | .creatingReplacement => "creating_replacement".toList
  | .creatingInProgress => "creating_in_progress".toList
  | .awaitingManualKey => "awaiting_manual_key".toList
  | .replacementStored => "replacement_stored".toList
  | .updatingDestinations => "updating_destinations".toList
  | .destinationsVerified => "destinations_verified".toList
  | .gracePeriod => "grace_period".toList
  | .oldDisabled => "old_disabled".toList
  | .completed => "completed".toList
  | .failed => "failed".toList
  | .rollingBack => "rolling_back".toList
  | .rolledBack => "rolled_back".toList
  | .manualRequired => "manual_required".toList

/-- The rotation is in flight: the states that an approval counts. -/
def RotationState.inFlight : RotationState → Bool
  | .completed | .rolledBack | .failed | .planned => false
  | _ => true

/-- How the replacement value is obtained. -/
inductive Mode where
  | apiCreate
  | manualCreate
  deriving DecidableEq, Repr

structure Rotation where
  id : Str
  credentialId : Str
  provider : Str
  state : RotationState
  mode : Mode
  createdAt : Nat
  approvedAt : Option Nat
  oldVersion : Option Int
  newVersion : Option Int
  syncPlanId : Option Str
  graceMinutes : Int
  graceEndsAt : Option Nat
  oldProviderKeyId : Option Str
  newProviderKeyId : Option Str
  newValueValidated : Bool
  oldDisabledAt : Option Nat
  oldRevokedAt : Option Nat
  lastError : Str
  deriving DecidableEq, Repr

/-- What no statement changes in a row. -/
def Rotation.identity (r : Rotation) : Str × Str × Str × Option Str :=
  (r.id, r.credentialId, r.provider, r.oldProviderKeyId)

structure RotationEvent where
  rotationId : Str
  fromState : Option RotationState
  toState : RotationState
  detail : Str
  deriving DecidableEq, Repr

structure Db where
  rotations : List Rotation
  events : List RotationEvent

def Db.find (db : Db) (id : Str) : Option Rotation := db.rotations.find? fun r => r.id = id

/-- The other rotations of the credential that are in flight. -/
def Db.activeOthers (db : Db) (credentialId id : Str) : Nat :=
  db.rotations.countP fun r => r.credentialId = credentialId && r.id ≠ id && r.state.inFlight

/-- Update the rows of a rotation. -/
def Db.update (db : Db) (id : Str) (f : Rotation → Rotation) : Db :=
  { db with rotations := db.rotations.map fun r => if r.id = id then f r else r }

/-! ## Actions -/

/-- The columns that `set_field` is called for, with the value. -/
inductive Field where
  | approvedAt (at_ : Nat)
  | syncPlanId (planId : Str)
  | graceEndsAt (at_ : Nat)
  | newProviderKeyId (key : Str)
  | oldDisabledAt (at_ : Nat)
  | oldRevokedAt (at_ : Nat)
  deriving DecidableEq, Repr

def Field.set : Field → Rotation → Rotation
  | .approvedAt v, r => { r with approvedAt := some v }
  | .syncPlanId v, r => { r with syncPlanId := some v }
  | .graceEndsAt v, r => { r with graceEndsAt := some v }
  | .newProviderKeyId v, r => { r with newProviderKeyId := some v }
  | .oldDisabledAt v, r => { r with oldDisabledAt := some v }
  | .oldRevokedAt v, r => { r with oldRevokedAt := some v }

/-- A key that the provider created; its value is shown only once. -/
structure CreatedKey where
  providerKeyId : Option Str
  value : Str
  detail : Str

/-- What an operation asks of the rest of the vault, of the clock and of the provider. -/
inductive Request where
  | verifyMasterPassword
  | resolveCredential (selector : Str)
  | rotationModeFor (provider : Str)
  | newestKeyLink (provider credentialId : Str)
  | audit (action : Str)
  | now
  | credentialRow (credentialId : Str)
  | providerAdminSecret (provider : Str)
  | connectorFor (provider : Str)
  /-- The non-idempotent creation of a key for the rotation. -/
  | createCredential (id : Str)
  | cacheCreatedKey (key : Str)
  | providerLinkKey (key : Str)
  | providerUnlinkKey (key : Str)
  | valueVersionOf (credentialId : Str)
  | replaceCredentialValue (credentialId : Str)
  | decryptCredentialVersion (credentialId : Str) (version : Int)
  | syncPlanCreate (credentialId : Str)
  | syncPlanExecute (planId : Str)
  | syncPlanRollback (planId : Str)
  | validateCredential (credentialId : Str)
  /-- Usage rows of the key on or after the time, and how many were collected after it. -/
  | usageSince (provider key : Str) (since : Nat)
  | disableOldKey (id key : Str)
  | revokeOldKey (id key : Str)
  | enableOldKey (id key : Str)
  | revokeNewKey (id key : Str)
  | scheduleMarkCompleted (credentialId : Str)

/-- What a rotation plan reads of the credential. -/
structure ResolvedCredential where
  id : Str
  provider : Str
  isReference : Bool

/-- The status of a sync plan, as far as a rotation looks at it. -/
structure PlanStatus where
  executed : Bool
  status : Str

def Request.Answer : Request → Type
  | .resolveCredential _ => ResolvedCredential
  | .rotationModeFor _ => Mode
  | .newestKeyLink .. => Option Str
  | .now => Nat
  | .credentialRow _ => Bool
  | .createCredential _ => CreatedKey
  | .valueVersionOf _ => Int
  | .syncPlanCreate _ => Str
  | .syncPlanExecute _ => PlanStatus
  | .validateCredential _ => Bool × Str
  | .usageSince .. => Nat × Nat
  | .disableOldKey .. | .revokeOldKey .. | .enableOldKey .. | .revokeNewKey .. => Str
  | _ => Unit

/-- Who reads a row: the loop of an advance or another operation to decide on it, or a helper for a
    message or a view. -/
inductive Reader where
  | advance
  | operation
  | helper
  deriving DecidableEq

inductive Action where
  | load (reader : Reader) (id : Str)
  | countActive (credentialId id : Str)
  /-- The compare-and-swap of `set_state`: whether a row was still in the first state. -/
  | swapState (id : Str) (fromState toState : RotationState)
  | recordEvent (id : Str) (fromState : Option RotationState) (toState : RotationState) (detail : Str)
  /-- The event of `record_event_note`. -/
  | recordNote (id : Str) (state : RotationState) (note : Str)
  | events (id : Str)
  | setError (id error : Str)
  | setField (id : Str) (field : Field)
  | setVersions (id : Str) (old : Option Int) (new : Int)
  | markValidated (id : Str)
  | insertRow (row : Rotation)
  | request (r : Request)

def Answer : Action → Type
  | .load .. => Option Rotation
  | .countActive .. => Nat
  | .swapState .. => Bool
  | .events _ => List RotationEvent
  | .request r => r.Answer
  | _ => Unit

/-- The store behind an action that succeeds. -/
def Action.effect (db : Db) : Action → Db
  | .swapState id fromState toState => db.update id fun r =>
      if r.state = fromState then { r with state := toState, lastError := [] } else r
  | .recordEvent id fromState toState detail =>
      { db with events := db.events ++ [⟨id, fromState, toState, detail⟩] }
  | .recordNote id state note => { db with events := db.events ++ [⟨id, some state, state, note⟩] }
  | .setError id error => db.update id fun r => { r with lastError := error }
  | .setField id field => db.update id field.set
  | .setVersions id old new => db.update id fun r => { r with oldVersion := old, newVersion := some new }
  | .markValidated id => db.update id fun r => { r with newValueValidated := true }
  | .insertRow row => { db with rotations := db.rotations ++ [row] }
  | _ => db

/-- The answers that an action can have in a store. -/
def Action.Answers (db : Db) : (a : Action) → Answer a → Prop
  | .load _ id, row => row = db.find id
  | .countActive credentialId id, n => n = db.activeOthers credentialId id
  | .swapState id fromState _, swapped =>
      swapped = db.rotations.any fun r => r.id = id && r.state = fromState
  | .events id, log => log = db.events.filter fun e => e.rotationId = id
  | .insertRow row, _ => ∀ r ∈ db.rotations, r.id ≠ row.id
  | _, _ => True

/-- An action fails and changes nothing, or has one of its answers and its effect. -/
def Exec (db : Db) (a : Action) : Except CoreError (Answer a) → Db → Prop
  | .error _, db' => db' = db
  | .ok x, db' => a.Answers db x ∧ db' = a.effect db

abbrev Prog (β : Type) := Interleave.Prog Answer CoreError β

def call (a : Action) : Prog (Answer a) := Interleave.Prog.call a

def ask (r : Request) : Prog r.Answer := call (.request r)

def fail {β : Type} (e : CoreError) : Prog β := .throw e

/-! ## Helpers over the statements -/

def load (reader : Reader) (id : Str) : Prog Rotation := do
  match ← call (.load reader id) with
  | some row => return row
  | none => fail (.notFound "rotation" id)

/-- The compare-and-swap of a state, with its event. -/
def setState (id : Str) (fromState toState : RotationState) (detail : Str) : Prog Unit := do
  let swapped : Bool ← call (.swapState id fromState toState)
  if swapped then call (.recordEvent id (some fromState) toState detail)
  else do
    let current ← load .helper id
    fail (.invalidInput ("rotation ".toList ++ id ++ " changed concurrently (expected '".toList
      ++ fromState.name ++ "', found '".toList ++ current.state.name
      ++ "'); re-check its state before acting".toList))

def recordEventNote (id note : Str) : Prog Unit := do
  let current ← load .helper id
  call (.recordNote id current.state note)

def clearError (id : Str) : Prog Unit := call (.setError id [])

/-- Record a step's failure; the state stays. -/
def recordError (id error : Str) : Prog Unit := do
  let current ← load .helper id
  call (.setError id error)
  call (.recordEvent id (some current.state) current.state
    ("step failed (retryable): ".toList ++ error))

/-- The view that the operations return. -/
def rotationGet (id : Str) : Prog Rotation := load .helper id

end Tethra.Rotations
