import Tethra.Rotation.Store

set_option autoImplicit false

/-! # The rotation operations (`core/src/vault.rs`)

Each operation as the program of its statements and requests, in the order of the source. -/

namespace Tethra.Rotations

/-- What the operations use of the provider manifests, and the texts of errors. -/
structure Env where
  canDisable : Str → Bool
  canRevoke : Str → Bool
  manageUrl : Str → Str
  showError : CoreError → Str

def invalid {β : Type} (message : String) : Prog β := fail (.invalidInput message.toList)

def nat (n : Nat) : Str := Nat.toDigits 10 n

def version (v : Int) : Str := (toString v).toList

/-! ## Planning and approving -/

structure PlanRequest where
  credential : Str
  graceMinutes : Int
  oldProviderKeyId : Option Str
  /-- The uuid that the new row draws. -/
  id : Str

/-- The old key: the one that was named, or the newest that is linked to the credential. -/
def oldKeyId (req : PlanRequest) (cred : ResolvedCredential) : Prog (Option Str) :=
  match req.oldProviderKeyId with
  | some key => return some key
  | none => ask (.newestKeyLink cred.provider cred.id)

def rotationPlan (req : PlanRequest) : Prog Rotation := do
  let cred : ResolvedCredential ← ask (.resolveCredential req.credential)
  if cred.isReference then
    invalid "this record is a reference; rotate the credential it points to"
  else if req.graceMinutes < 0 ∨ 60 * 24 * 90 < req.graceMinutes then
    invalid "the grace period must be between 0 minutes and 90 days"
  else do
    let mode : Mode ← ask (.rotationModeFor cred.provider)
    let oldKey ← oldKeyId req cred
    let now : Nat ← ask .now
    call (.insertRow
      { id := req.id, credentialId := cred.id, provider := cred.provider, state := .planned, mode,
        createdAt := now, approvedAt := none, oldVersion := none, newVersion := none,
        syncPlanId := none, graceMinutes := req.graceMinutes, graceEndsAt := none,
        oldProviderKeyId := oldKey, newProviderKeyId := none, newValueValidated := false,
        oldDisabledAt := none, oldRevokedAt := none, lastError := [] })
    call (.recordEvent req.id none .planned "rotation planned (dry run)".toList)
    ask (.audit "rotation_planned".toList)
    rotationGet req.id

/-- What follows the approval. -/
def approved (id : Str) (rot : Rotation) : Prog Rotation := do
  let found : Bool ← ask (.credentialRow rot.credentialId)
  if !found then fail (.notFound "credential" rot.credentialId)
  else do
    ask (.audit "rotation_approved".toList)
    rotationGet id

def rotationApprove (id : Str) : Prog Rotation := do
  ask .verifyMasterPassword
  let rot ← load .operation id
  if rot.state ≠ .planned then
    fail (.invalidInput ("rotation ".toList ++ id ++ " is '".toList ++ rot.state.name
      ++ "', not awaiting approval".toList))
  else do
    let otherActive : Nat ← call (.countActive rot.credentialId id)
    if 0 < otherActive then
      invalid ("another rotation for this credential is already in flight; finish, roll back, or "
        ++ "cancel it first")
    else do
      let now : Nat ← ask .now
      call (.setField id (.approvedAt now))
      setState id .planned .approved "user approved".toList
      approved id rot

/-! ## The replacement -/

/-- Store the replacement value and record the versions; `value` is the text that is stored. -/
def storeReplacement (rot : Rotation) (value : Str) : Prog Str := do
  let fresh ← load .helper rot.id
  if fresh.newVersion.isSome then return "replacement already stored (recovered)".toList
  else if Text.trim value = [] then invalid "the replacement value must not be empty"
  else do
    let oldVersion : Int ← ask (.valueVersionOf rot.credentialId)
    ask (.replaceCredentialValue rot.credentialId)
    let newVersion : Int ← ask (.valueVersionOf rot.credentialId)
    call (.setVersions rot.id (some oldVersion) newVersion)
    return "replacement stored encrypted (v".toList ++ version oldVersion ++ " retained → v".toList
      ++ version newVersion ++ ")".toList

/-- The id of a created key goes into the row at once. -/
def recordCreated (rot : Rotation) (created : CreatedKey) : Prog Unit :=
  match created.providerKeyId with
  | some key => do
      call (.setField rot.id (.newProviderKeyId key))
      ask (.cacheCreatedKey key)
  | none => return ()

/-- Linking the new key is best-effort. -/
def linkCreated (created : CreatedKey) : Prog Unit :=
  match created.providerKeyId with
  | some key => do
      let _ ← (ask (.providerLinkKey key)).attempt
      return ()
  | none => return ()

def keepCreated (rot : Rotation) (created : CreatedKey) : Prog Str := do
  recordCreated rot created
  let stored ← storeReplacement rot created.value
  linkCreated created
  return created.detail ++ "; ".toList ++ stored

/-- Create the key at the provider, and store it. -/
def createReplacement (rot : Rotation) : Prog Str :=
  if rot.newVersion.isSome then return "replacement already stored (recovered)".toList
  else do
    ask (.providerAdminSecret rot.provider)
    let found : Bool ← ask (.credentialRow rot.credentialId)
    if !found then fail (.notFound "credential" rot.credentialId)
    else do
      ask (.connectorFor rot.provider)
      let created : CreatedKey ← ask (.createCredential rot.id)
      keepCreated rot created

/-! ## The old key -/

/-- Whether the state advanced. -/
def disableOld (env : Env) (rot : Rotation) : Prog Bool :=
  match rot.oldProviderKeyId, env.canDisable rot.provider with
  | some key, true => do
      ask (.providerAdminSecret rot.provider)
      ask (.connectorFor rot.provider)
      let done : Except CoreError Str ← (ask (.disableOldKey rot.id key)).attempt
      match done with
      | .ok detail => do
          let now : Nat ← ask .now
          call (.setField rot.id (.oldDisabledAt now))
          setState rot.id .gracePeriod .oldDisabled ("old key disabled: ".toList ++ detail)
          return true
      | .error e => do
          recordError rot.id (env.showError e)
          return false
  | _, _ => do
      setState rot.id .gracePeriod .oldDisabled
        ("provider has no separate disable step (or no key id); proceeding to "
          ++ "revocation").toList
      return true

/-- The note that is recorded immediately before a revoke request for the key. -/
def revokeAttemptMarker (key : Str) : Str := "attempting revocation of old key ".toList ++ key

def revokeWasAttempted (id key : Str) : Prog Bool := do
  let log : List RotationEvent ← call (.events id)
  return log.any fun e => e.detail = revokeAttemptMarker key

/-- The revocation succeeded, or is a completed retry. -/
def recordRevoked (id detail : Str) : Prog Bool := do
  let now : Nat ← ask .now
  call (.setField id (.oldRevokedAt now))
  clearError id
  recordEventNote id ("old key revoked: ".toList ++ detail)
  return true

/-- Revoke the old key; `false` when manual action is needed. -/
def revokeOld (env : Env) (rot : Rotation) : Prog Bool :=
  if rot.oldRevokedAt.isSome then do
    recordEventNote rot.id "old key already revoked (recovered); completing rotation".toList
    return true
  else
    match rot.oldProviderKeyId, env.canRevoke rot.provider with
    | some key, true => do
        ask (.providerAdminSecret rot.provider)
        ask (.connectorFor rot.provider)
        let attemptedBefore ← revokeWasAttempted rot.id key
        recordEventNote rot.id (revokeAttemptMarker key)
        let done : Except CoreError Str ← (ask (.revokeOldKey rot.id key)).attempt
        match done with
        | .ok detail => recordRevoked rot.id detail
        | .error (.notFound ..) =>
            if attemptedBefore then
              recordRevoked rot.id ("the provider no longer knows key ".toList ++ key
                ++ ("; a prior recorded attempt on this exact key makes this a completed retry "
                  ++ "(the old key is gone either way)").toList)
            else do
              setState rot.id .oldDisabled .manualRequired
                ("the provider says key ".toList ++ key
                  ++ (" does not exist — a wrong key id or project would look exactly like this, so "
                    ++ "nothing was marked revoked. Verify at ").toList ++ env.manageUrl rot.provider
                  ++ (" or with `provider list-keys`: if the old key is truly gone, run `rotation "
                    ++ "complete-manual ").toList ++ rot.id
                  ++ "`; if this is NOT this rotation's key, `rotation rollback`".toList)
              return false
        | .error e => fail e
    | _, _ => do
        setState rot.id .oldDisabled .manualRequired
          ("revoke the old key yourself at ".toList ++ env.manageUrl rot.provider
            ++ ", then run `rotation complete-manual ".toList ++ rot.id ++ "`".toList)
        return false

/-- What follows a completion. -/
def auditCompleted (rot : Rotation) : Prog Unit := do
  ask (.scheduleMarkCompleted rot.credentialId)
  let _ : Bool ← ask (.credentialRow rot.credentialId)
  ask (.audit "rotation_completed".toList)

def rotationComplete (rot : Rotation) : Prog Unit := do
  setState rot.id .oldDisabled .completed "rotation completed".toList
  auditCompleted rot

/-! ## Advancing -/

/-- How an iteration of the loop ends: with the view, or with the value that is still to be provided. -/
inductive Next where
  | done (view : Rotation)
  | again (value : Option Str)

def stop (id : Str) : Prog Next := do
  let view ← rotationGet id
  return .done view

def stopWith (id error : Str) : Prog Next := do
  recordError id error
  stop id

/-- The key was created and its value never stored. -/
def Rotation.orphaned (rot : Rotation) : Bool :=
  rot.newProviderKeyId.isSome && rot.newVersion.isNone

def orphanText (rot : Rotation) : Str :=
  "a provider key (".toList ++ rot.newProviderKeyId.getD "?".toList
    ++ (") was created but its value was never stored (it is shown only once, at creation). "
      ++ "Revoke that key at the provider, clear it with `rotation cancel`, and plan again").toList

def advanceApproved (rot : Rotation) (value : Option Str) : Prog Next :=
  match rot.mode, value with
  | .apiCreate, some _ =>
      invalid ("this rotation creates the replacement via the provider API; a provided value is not "
        ++ "applicable")
  | .apiCreate, none => do
      setState rot.id .approved .creatingReplacement "claimed for provider-side key creation".toList
      return .again none
  | .manualCreate, some v => do
      let detail ← storeReplacement rot v
      setState rot.id .approved .replacementStored detail
      return .again none
  | .manualCreate, none => do
      setState rot.id .approved .awaitingManualKey
        "waiting for the manually created replacement key".toList
      stop rot.id

def advanceCreating (rot : Rotation) (value : Option Str) : Prog Next :=
  if rot.orphaned then stopWith rot.id (orphanText rot)
  else do
    setState rot.id .creatingReplacement .creatingInProgress
      "claimed the provider-side key creation".toList
    return .again value

def advanceInProgress (env : Env) (rot : Rotation) (value : Option Str) : Prog Next :=
  if rot.orphaned then stopWith rot.id (orphanText rot)
  else do
    match ← (createReplacement rot).attempt with
    | .ok detail => do
        setState rot.id .creatingInProgress .replacementStored detail
        return .again value
    | .error e => stopWith rot.id (env.showError e)

def advanceAwaiting (rot : Rotation) (value : Option Str) : Prog Next :=
  match value with
  | none => stop rot.id
  | some v => do
      let detail ← storeReplacement rot v
      setState rot.id .awaitingManualKey .replacementStored detail
      return .again none

def advanceStored (rot : Rotation) (value : Option Str) : Prog Next := do
  let planId : Str ← ask (.syncPlanCreate rot.credentialId)
  call (.setField rot.id (.syncPlanId planId))
  setState rot.id .replacementStored .updatingDestinations
    ("sync plan ".toList ++ planId ++ " created".toList)
  return .again value

def advanceUpdating (env : Env) (rot : Rotation) (value : Option Str) : Prog Next :=
  match rot.syncPlanId with
  | none => fail (.vaultCorrupted "rotation lost its sync plan id")
  | some planId => do
      let executed : Except CoreError PlanStatus ← (ask (.syncPlanExecute planId)).attempt
      match executed with
      | .ok plan =>
          if plan.executed then do
            setState rot.id .updatingDestinations .destinationsVerified
              "every destination step executed and verified".toList
            return .again value
          else
            stopWith rot.id ("destination sync is '".toList ++ plan.status
              ++ ("'; fix the failing destination and advance again (only failed steps "
                ++ "re-run)").toList)
      | .error e => stopWith rot.id (env.showError e)

def advanceVerified (env : Env) (rot : Rotation) (value : Option Str) : Prog Next := do
  let current : Int ← ask (.valueVersionOf rot.credentialId)
  if some current ≠ rot.newVersion then
    stopWith rot.id ("the credential changed outside this rotation (now v".toList ++ version current
      ++ ", the rotation stored v".toList ++ version (rot.newVersion.getD (-1))
      ++ "); refusing to continue — roll back or plan a fresh rotation".toList)
  else do
    let result : Except CoreError (Bool × Str) ← (ask (.validateCredential rot.credentialId)).attempt
    match result with
    | .ok (true, detail) => do
        call (.markValidated rot.id)
        let now : Nat ← ask .now
        let ends := now + (max rot.graceMinutes 0).toNat * 60
        call (.setField rot.id (.graceEndsAt ends))
        setState rot.id .destinationsVerified .gracePeriod
          ("new value validated (".toList ++ detail ++ "); grace/overlap until ".toList ++ nat ends)
        return .again value
    | .ok (false, detail) =>
        stopWith rot.id ("the NEW value failed validation (".toList ++ detail
          ++ "); the old key is untouched — retry, or roll back".toList)
    | .error e => stopWith rot.id (env.showError e)

/-- The continued-use check: the text of the refusal, if there is one. -/
def continuedUse (rot : Rotation) (acknowledged : Bool) : Prog (Option Str) :=
  match rot.oldProviderKeyId, acknowledged with
  | some key, false => do
      let usage : Nat × Nat ← ask (.usageSince rot.provider key (rot.approvedAt.getD rot.createdAt))
      if 0 < usage.1 then
        return some ("provider usage data shows activity attributed to the OLD key on/after the "
          ++ "approval day (daily buckets — same-day rows may predate the switch). Verify every "
          ++ "consumer moved, run `provider sync` for fresh data, then advance with "
          ++ "--acknowledge-continued-use").toList
      else if usage.2 = 0 then do
        recordEventNote rot.id ("continued-use could not be assessed: no provider usage data was "
          ++ "collected after approval (run `provider sync` for a real signal)").toList
        return none
      else return none
  | _, _ => return none

def advanceGrace (env : Env) (rot : Rotation) (acknowledged : Bool) (value : Option Str) :
    Prog Next := do
  let now : Nat ← ask .now
  if rot.graceEndsAt.any fun ends => now < ends then stop rot.id
  else do
    match ← continuedUse rot acknowledged with
    | some refusal => stopWith rot.id refusal
    | none => do
        let advanced ← disableOld env rot
        if advanced then return .again value else stop rot.id

def advanceDisabled (env : Env) (rot : Rotation) : Prog Next :=
  if !rot.newValueValidated then
    stopWith rot.id "refusing to revoke: the new value was never validated".toList
  else do
    match ← (revokeOld env rot).attempt with
    | .ok true => do
        rotationComplete rot
        stop rot.id
    | .ok false => stop rot.id
    | .error e => stopWith rot.id (env.showError e)

/-- One iteration of the loop, on the row it has loaded. -/
def advanceStep (env : Env) (rot : Rotation) (acknowledged : Bool) (value : Option Str) :
    Prog Next :=
  match rot.state with
  | .planned => invalid "the rotation is a dry run; approve it first (`rotation approve`)"
  | .approved => advanceApproved rot value
  | .creatingReplacement => advanceCreating rot value
  | .creatingInProgress => advanceInProgress env rot value
  | .awaitingManualKey => advanceAwaiting rot value
  | .replacementStored => advanceStored rot value
  | .updatingDestinations => advanceUpdating env rot value
  | .destinationsVerified => advanceVerified env rot value
  | .gracePeriod => advanceGrace env rot acknowledged value
  | .oldDisabled => advanceDisabled env rot
  | _ => stop rot.id

/-- The bounded loop: each iteration performs at most one step. -/
def advanceLoop (env : Env) (id : Str) (acknowledged : Bool) : Nat → Option Str → Prog Rotation
  | 0, _ => rotationGet id
  | n + 1, value => do
      let rot ← load .advance id
      match ← advanceStep env rot acknowledged value with
      | .done view => return view
      | .again value => advanceLoop env id acknowledged n value

def rotationAdvance (env : Env) (id : Str) (value : Option Str) (acknowledged : Bool) :
    Prog Rotation := do
  ask .verifyMasterPassword
  advanceLoop env id acknowledged 12 value

/-! ## Ending a rotation -/

def completesManually : RotationState → Bool
  | .manualRequired | .gracePeriod | .oldDisabled => true
  | _ => false

def rotationCompleteManual (id confirmationNote : Str) : Prog Rotation := do
  ask .verifyMasterPassword
  let rot ← load .operation id
  if !completesManually rot.state then
    fail (.invalidInput ("rotation ".toList ++ id ++ " is '".toList ++ rot.state.name
      ++ ("'; only manual-required, grace, or old-disabled rotations can be completed "
        ++ "manually").toList))
  else if !rot.newValueValidated then
    invalid "refusing: the new value was never validated against the provider"
  else do
    setState id rot.state .completed
      ("completed after manual provider-side action: ".toList ++ confirmationNote)
    auditCompleted rot
    rotationGet id

def rotationCancel (id : Str) : Prog Rotation := do
  ask .verifyMasterPassword
  let rot ← load .operation id
  if rot.oldDisabledAt.isSome || rot.oldRevokedAt.isSome then
    invalid "the old key was already disabled/revoked; use rollback or complete manually"
  else if rot.newVersion.isSome then
    invalid "a replacement was already stored; roll back instead of cancelling"
  else do
    setState id rot.state .failed "cancelled by the user before any change".toList
    rotationGet id

/-- The provider whose revocation a rollback can bring back. -/
def revokeIsReversible (provider : Str) : Bool := provider = "anthropic".toList

/-- What a rollback has to report, and how many of its parts failed. -/
structure Notes where
  notes : List Str
  failures : Nat

def Notes.note (n : Notes) (text : Str) : Notes := { n with notes := n.notes ++ [text] }

def Notes.failed (n : Notes) (text : Str) : Notes := ⟨n.notes ++ [text], n.failures + 1⟩

def Notes.text (n : Notes) : Str := "; ".toList.intercalate n.notes

/-- Re-enable the old key where disabling it is reversible. -/
def reenableOld (env : Env) (rot : Rotation) (n : Notes) : Prog Notes :=
  match rot.oldDisabledAt, rot.oldProviderKeyId with
  | some _, some key => do
      ask (.providerAdminSecret rot.provider)
      if revokeIsReversible rot.provider then do
        let done : Except CoreError Str ← (ask (.enableOldKey rot.id key)).attempt
        match done with
        | .ok d => return n.note ("old key re-enabled: ".toList ++ d)
        | .error e => return n.failed ("old key re-enable FAILED: ".toList ++ env.showError e)
      else return n
  | _, _ => return n

/-- The vault value back, if it is still the one that this rotation stored. -/
def restoreValue (rot : Rotation) (oldVersion current : Int) (decrypted : Bool) (n : Notes) :
    Prog Notes :=
  if decrypted then do
    ask (.replaceCredentialValue rot.credentialId)
    return n.note ("vault value restored from v".toList ++ version oldVersion)
  else
    return n.note ("vault value left as-is (v".toList ++ version current
      ++ " is not the rotation's v".toList ++ version (rot.newVersion.getD (-1)) ++ ")".toList)

def restoreDestinations (env : Env) (rot : Rotation) (n : Notes) : Prog Notes :=
  match rot.syncPlanId with
  | none => return n
  | some planId => do
      let done : Except CoreError Unit ← (ask (.syncPlanRollback planId)).attempt
      match done with
      | .ok _ => return n.note "destinations rolled back".toList
      | .error e => return n.failed ("destination rollback FAILED: ".toList ++ env.showError e)

def revokeNew (env : Env) (rot : Rotation) (revokeNewKey : Bool) (n : Notes) : Prog Notes :=
  match revokeNewKey, rot.newProviderKeyId with
  | true, some key => do
      ask (.providerAdminSecret rot.provider)
      ask (.connectorFor rot.provider)
      let done : Except CoreError Str ← (ask (.revokeNewKey rot.id key)).attempt
      match done with
      | .ok d => do
          let _ ← (ask (.providerUnlinkKey key)).attempt
          return n.note ("new key revoked: ".toList ++ d)
      | .error e => return n.failed ("new key revocation FAILED: ".toList ++ env.showError e)
  | _, _ => return n

/-- A partly failed rollback does not present as a clean one. -/
def finishRollback (id : Str) (n : Notes) : Prog Unit :=
  if 0 < n.failures then do
    setState id .rollingBack .manualRequired
      ("rollback PARTIALLY FAILED (".toList ++ nat n.failures ++ " step(s)): ".toList ++ n.text)
    recordError id ("rollback partially failed: ".toList ++ n.text)
  else setState id .rollingBack .rolledBack n.text

/-- The refusal when a revocation of the old key was attempted where it cannot be brought back. -/
def refuseAttempted (rot : Rotation) : Prog Unit :=
  match rot.oldProviderKeyId with
  | some key =>
      if revokeIsReversible rot.provider then return ()
      else do
        let attempted ← revokeWasAttempted rot.id key
        if attempted then
          fail (.invalidInput ("a revocation of the old key was attempted at ".toList ++ rot.provider
            ++ (", whose revoke permanently DELETES keys (no soft/disable state). The old key may "
              ++ "already be gone, so a rollback that restored it could redeploy a dead credential. "
              ++ "Refusing to roll back: verify with `provider list-keys` — if the old key is gone, "
              ++ "forward-fix on the validated new key (`rotation complete-manual ").toList ++ rot.id
            ++ "`); if it is confirmed alive, re-plan a fresh rotation".toList))
        else return ()
  | none => return ()

/-- Decrypt the rollback material, when the vault holds the value that this rotation stored. -/
def decryptOld (rot : Rotation) (oldVersion current : Int) : Prog Bool :=
  if some current = rot.newVersion then do
    ask (.decryptCredentialVersion rot.credentialId oldVersion)
    return true
  else return false

/-- The rollback of a rotation that is rolling back. -/
def rolledBackFrom (env : Env) (rot : Rotation) (oldVersion current : Int)
    (decrypted revokeNewKey : Bool) : Prog Rotation := do
  let n ← reenableOld env rot ⟨[], 0⟩
  let n ← restoreValue rot oldVersion current decrypted n
  let n ← restoreDestinations env rot n
  let n ← revokeNew env rot revokeNewKey n
  finishRollback rot.id n
  let _ : Bool ← ask (.credentialRow rot.credentialId)
  ask (.audit "rotation_rolled_back".toList)
  rotationGet rot.id

def rotationRollback (env : Env) (id : Str) (revokeNewKey : Bool) : Prog Rotation := do
  ask .verifyMasterPassword
  let rot ← load .operation id
  if rot.oldRevokedAt.isSome then
    invalid ("the old key was REVOKED — that is irreversible at every current provider. The new key "
      ++ "must stay in service; treat this as forward-fix territory")
  else do
    refuseAttempted rot
    if rot.state = .completed ∨ rot.state = .rolledBack then
      fail (.invalidInput ("rotation ".toList ++ id ++ " is '".toList ++ rot.state.name
        ++ "'; a finished rotation cannot be rolled back — plan a fresh rotation instead".toList))
    else
      match rot.oldVersion with
      | none => invalid "nothing to roll back: no replacement was stored"
      | some oldVersion => do
          let current : Int ← ask (.valueVersionOf rot.credentialId)
          let decrypted ← decryptOld rot oldVersion current
          setState rot.id rot.state .rollingBack []
          rolledBackFrom env rot oldVersion current decrypted revokeNewKey

/-! ## The system -/

/-- The operations that a process can run. -/
inductive Op where
  | plan (req : PlanRequest)
  | approve (id : Str)
  | advance (id : Str) (value : Option Str) (acknowledged : Bool)
  | completeManual (id note : Str)
  | cancel (id : Str)
  | rollback (id : Str) (revokeNewKey : Bool)

def Op.program (env : Env) : Op → Prog Rotation
  | .plan req => rotationPlan req
  | .approve id => rotationApprove id
  | .advance id value acknowledged => rotationAdvance env id value acknowledged
  | .completeManual id note => rotationCompleteManual id note
  | .cancel id => rotationCancel id
  | .rollback id revokeNewKey => rotationRollback env id revokeNewKey

/-- Any number of processes on one store. -/
def system (env : Env) : Interleave.System Db Op Answer CoreError Rotation where
  program := Op.program env
  exec := Exec

/-! ## Schedules -/

/-- The successful reply of an action; `answers` are those of the other parts. -/
def Action.reply (answers : (r : Request) → r.Answer) (db : Db) :
    (a : Action) → Option (Answer a × Db)
  | .load reader id => some (db.find id, (Action.load reader id).effect db)
  | .countActive credentialId id =>
      some (db.activeOthers credentialId id, (Action.countActive credentialId id).effect db)
  | .swapState id fromState toState =>
      some (db.rotations.any fun r => r.id = id && r.state = fromState,
        (Action.swapState id fromState toState).effect db)
  | .events id => some (db.events.filter fun e => e.rotationId = id, (Action.events id).effect db)
  | .insertRow row =>
      if ∀ r ∈ db.rotations, r.id ≠ row.id then some ((), (Action.insertRow row).effect db) else none
  | .request r => some (answers r, (Action.request r).effect db)
  | .recordEvent id fromState toState detail =>
      some ((), (Action.recordEvent id fromState toState detail).effect db)
  | .recordNote id state note => some ((), (Action.recordNote id state note).effect db)
  | .setError id error => some ((), (Action.setError id error).effect db)
  | .setField id field => some ((), (Action.setField id field).effect db)
  | .setVersions id old new => some ((), (Action.setVersions id old new).effect db)
  | .markValidated id => some ((), (Action.markValidated id).effect db)

theorem exec_reply {env : Env} (answers : (r : Request) → r.Answer) (db : Db) (a : Action)
    (x : Answer a × Db) (h : a.reply answers db = some x) : (system env).exec db a (.ok x.1) x.2 := by
  cases a with
  | insertRow row =>
      simp only [Action.reply] at h
      split_ifs at h with hfresh
      obtain rfl := Option.some.inj h
      exact ⟨hfresh, rfl⟩
  | _ =>
      obtain rfl := Option.some.inj h
      first
        | exact ⟨rfl, rfl⟩
        | exact ⟨trivial, rfl⟩

/-- A provider without a disabled state that creates and deletes keys by its API, a vault that stays at
    version 1, and destinations that take what they are given. -/
def plainAnswers : (r : Request) → r.Answer
  | .resolveCredential _ => ⟨"c1".toList, "openai".toList, false⟩
  | .rotationModeFor _ => .apiCreate
  | .newestKeyLink .. => some "old-key".toList
  | .now => (0 : Nat)
  | .credentialRow _ => true
  | .createCredential _ => ⟨some "new-key".toList, "value".toList, "created".toList⟩
  | .valueVersionOf _ => (1 : Int)
  | .syncPlanCreate _ => "plan-1".toList
  | .syncPlanExecute _ => ⟨true, "executed".toList⟩
  | .validateCredential _ => (true, "valid".toList)
  | .usageSince .. => ((0, 1) : Nat × Nat)
  | .disableOldKey .. | .revokeOldKey .. | .enableOldKey .. | .revokeNewKey .. => "done".toList
  | .verifyMasterPassword | .audit _ | .providerAdminSecret _ | .connectorFor _ | .cacheCreatedKey _
  | .providerLinkKey _ | .providerUnlinkKey _ | .replaceCredentialValue _
  | .decryptCredentialVersion .. | .syncPlanRollback _ | .scheduleMarkCompleted _ => ()

/-- A provider whose keys can be revoked by its API, and not disabled. -/
def revokeOnly : Env where
  canDisable _ := false
  canRevoke _ := true
  manageUrl _ := []
  showError _ := []

/-- Plan a rotation of the credential `c1` without a grace period. -/
def planOf (id : String) : Op := .plan ⟨"c1".toList, 0, none, id.toList⟩

end Tethra.Rotations
