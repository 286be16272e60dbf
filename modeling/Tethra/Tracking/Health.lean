import Tethra.Tracking.Setup

set_option autoImplicit false

/-! # What a refresh reads and concludes (`tracking/src/state.rs`, `refresh_with`)

A refresh reads the routes, the links and the admissible observations of a setup, corrects the stored
row, and answers what is true now. The calendar and the table of provider hosts are parameters. -/

namespace Tethra.Tracking

open Observe (asciiLower)

/-- A listener answered and proved itself; nothing did; or it was not asked. -/
inductive GatewayLiveness where
  | verified
  | down
  | unknown
  deriving DecidableEq, Repr

inductive CurrentHealth where
  | verifiedAndActive
  | partiallyTracked (observed total : Nat)
  | verifiedPreviouslyGatewayDown
  | verifiedPreviouslyIdle (lastObservedAt : Str)
  | waitingForFirstRequest
  | applyIncomplete
  | needsRestart
  | configurationChanged (detail : Str) (routeMissing linkMissing : Bool)
  | gatewayUnavailable
  | needsAttention (reason : Str)
  | attributionPaused
  | notConfigured
  | unsupported
  deriving DecidableEq, Repr

def CurrentHealth.isCurrentlyWorking : CurrentHealth → Bool
  | .verifiedAndActive | .partiallyTracked _ _ => true
  | _ => false

structure ProviderFreshness where
  providerId : Str
  lastObservedAt : Option Str
  routePresent : Bool
  linkPresent : Bool
  fresh : Bool
  deriving DecidableEq, Repr

structure TrackingStatusReport where
  current : CurrentHealth
  freshness : List ProviderFreshness
  state : TrackingState
  deriving DecidableEq, Repr

/-- The functions outside: RFC 3339 texts moved by seconds, the instant a text names, and the provider of
    a well-known host. -/
structure TrackEnv where
  minusSeconds : Str → Int → Str
  parse : Str → Option Int
  providerForHost : Str → Option Str

def observationFreshnessSecs : Int := 6 * 60 * 60

def maxClockSkewSecs : Int := 5 * 60

/-- Whether `a` is strictly later than `b`; so it is when one of them cannot be read. -/
def TrackEnv.instantIsAfter (env : TrackEnv) (a b : Str) : Bool :=
  match env.parse a, env.parse b with
  | some i, some j => decide (j < i)
  | _, _ => true

/-! ## The evidence -/

/-- The provider of a custom origin; the last row of a host counts. -/
def customProvider (db : TrackDb) (host : Str) : Option Str :=
  (db.routes.reverse.find? fun r => r.customOrigin.map asciiLower = some (asciiLower host)).map
    RouteRow.providerId

def TrackEnv.providerOfHost (env : TrackEnv) (db : TrackDb) (host : Str) : Option Str :=
  match env.providerForHost host with
  | some p => some p
  | none => customProvider db host

def TrackDb.routePresent (db : TrackDb) (provider : Str) : Bool :=
  db.routes.any fun r => r.enabled && (r.providerId = provider || r.routePrefix = provider)

def TrackDb.linkPresent (db : TrackDb) (projectId provider : Str) : Bool :=
  db.links.any fun l => l.projectId = projectId && l.routePrefix = provider

/-- The observation was recorded after the apply, and claims a time since it that has come. -/
def TrackingSetup.admits (setup : TrackingSetup) (appliedAt futureAfter : Str) (e : EventRow) : Bool :=
  e.projectId = setup.projectId && e.fromGateway && setup.appliedEventRowid < e.rowid &&
    appliedAt ≤ e.at_ && e.at_ ≤ futureAfter

def textMin (a b : Str) : Str := if b < a then b else a

def textMax (a b : Str) : Str := if a < b then b else a

/-- A host with the first and the last of its times (`GROUP BY host`). -/
structure HostRow where
  host : Str
  firstAt : Str
  lastAt : Str

def hostRow (events : List EventRow) (host : Str) : Option HostRow :=
  match (events.filter (·.host = host)).map EventRow.at_ with
  | [] => none
  | at_ :: more => some ⟨host, more.foldl textMin at_, more.foldl textMax at_⟩

def hostRows (events : List EventRow) : List HostRow :=
  (events.map EventRow.host).dedup.filterMap (hostRow events)

/-- The newest time of each provider so far, and the earliest of all. -/
structure Seen where
  perProvider : List (Str × Option Str)
  earliest : Option Str

def newer (slot : Option Str) (lastAt : Str) : Option Str :=
  match slot with
  | some cur => some (textMax cur lastAt)
  | none => some lastAt

def older (slot : Option Str) (firstAt : Str) : Option Str :=
  match slot with
  | some cur => some (textMin cur firstAt)
  | none => some firstAt

/-- A host's row counts for its provider, if that one is configured. -/
def Seen.see (providerOf : Str → Option Str) (s : Seen) (row : HostRow) : Seen :=
  match providerOf row.host with
  | none => s
  | some provider =>
      if s.perProvider.any (·.1 = provider) then
        ⟨s.perProvider.map fun p => if p.1 = provider then (p.1, newer p.2 row.lastAt) else p,
          older s.earliest row.firstAt⟩
      else s

/-- The configured providers in their order, each once. -/
def orderedProviders (providers : List Str) : List Str :=
  providers.dedup.mergeSort fun a b => decide (a ≤ b)

def seenOf (providerOf : Str → Option Str) (providers : List Str) (events : List EventRow) : Seen :=
  (hostRows events).foldl (Seen.see providerOf)
    ⟨(orderedProviders providers).map fun p => (p, none), none⟩

/-- What one refresh has read. -/
structure Reading where
  freshness : List ProviderFreshness
  earliest : Option Str
  deriving DecidableEq, Repr

def TrackEnv.read (env : TrackEnv) (db : TrackDb) (now appliedAt : Str) (setup : TrackingSetup) :
    Reading :=
  let staleBefore := env.minusSeconds now observationFreshnessSecs
  let futureAfter := env.minusSeconds now (-maxClockSkewSecs)
  let seen := seenOf (env.providerOfHost db) (configuredProviders setup)
    (db.events.filter (setup.admits appliedAt futureAfter))
  { freshness := seen.perProvider.map fun p =>
      { providerId := p.1
        lastObservedAt := p.2
        routePresent := db.routePresent p.1
        linkPresent := db.linkPresent setup.projectId p.1
        fresh := p.2.any fun at_ => staleBefore ≤ at_ && at_ ≤ futureAfter }
    earliest := seen.earliest }

def Reading.observedEver (r : Reading) : Nat := r.freshness.countP (·.lastObservedAt.isSome)

def Reading.total (r : Reading) : Nat := r.freshness.length

def Reading.workingNow (r : Reading) : Nat :=
  r.freshness.countP fun f => f.fresh && f.routePresent && f.linkPresent

/-- The newest of the providers' times. -/
def Reading.newest (r : Reading) : Option Str :=
  match r.freshness.filterMap ProviderFreshness.lastObservedAt with
  | [] => none
  | at_ :: more => some (more.foldl textMax at_)

/-! ## The conclusion -/

/-- The recorded failure is the more recent truth. -/
def TrackEnv.failureIsNewer (env : TrackEnv) (setup : TrackingSetup) (r : Reading) : Bool :=
  match setup.attentionAt, r.newest with
  | some failed, some seen => env.instantIsAfter failed seen
  | some _, none => true
  | none, _ => false

/-- What the evidence says the state should be, if it says anything. -/
def TrackEnv.derivedState (env : TrackEnv) (setup : TrackingSetup) (r : Reading) :
    Option TrackingState :=
  if r.observedEver = 0 then
    if setup.state = .trafficObserved ∨ setup.state = .partiallyObserved then
      some .awaitingFirstRequest
    else none
  else if env.failureIsNewer setup r then some .needsAttention
  else if r.observedEver = r.total then some .trafficObserved
  else some .partiallyObserved

/-- Write a derived correction; the failure record is kept when it is newer than the evidence. -/
def writeDerived (db : TrackDb) (setup : TrackingSetup) (next : TrackingState)
    (preserveFailure : Bool) (now : Str) : Except CoreError (TrackDb × TrackingSetup) :=
  let attentionReason := if preserveFailure then setup.attentionReason else none
  let attentionAt :=
    if attentionReason.isSome then some (setup.attentionAt.getD now) else none
  casWriteHealth db setup next attentionReason attentionAt now

def watchable : TrackingState → Bool
  | .awaitingRestart | .awaitingFirstRequest | .trafficObserved | .partiallyObserved
  | .needsAttention => true
  | _ => false

def overclaiming (state : TrackingState) : Bool :=
  state = .trafficObserved || state = .partiallyObserved

/-- Health of a row that cannot be held against observations. -/
def healthWithoutEvidence (setup : TrackingSetup) (liveness : GatewayLiveness) : CurrentHealth :=
  match setup.state with
  | .notConfigured => .notConfigured
  | .unsupported => .unsupported
  | .needsAttention =>
      .needsAttention (setup.attentionReason.getD "setup did not complete".toList)
  | .awaitingRestart => .needsRestart
  | .applying => .applyIncomplete
  | _ => if liveness = .down then .gatewayUnavailable else .waitingForFirstRequest

/-- What is gone, in words. -/
def missingDetail (r : Reading) (missing : List ProviderFreshness) (routeMissing linkMissing : Bool) :
    Str :=
  let what := match routeMissing, linkMissing with
    | true, true => "the route and the project link"
    | true, false => "the route"
    | _, _ => "the project link"
  what.toList ++ " for ".toList ++
    ((missing.map ProviderFreshness.providerId).intersperse ", ".toList).flatten ++
    " is gone (".toList ++ Nat.toDigits 10 missing.length ++ " of ".toList ++
    Nat.toDigits 10 r.total ++ " configured providers)".toList

def idleOrWaiting (setup : TrackingSetup) (r : Reading) : CurrentHealth :=
  match r.newest with
  | some at_ => .verifiedPreviouslyIdle at_
  | none => if setup.state = .awaitingRestart then .needsRestart else .waitingForFirstRequest

def healthByLiveness (setup : TrackingSetup) (liveness : GatewayLiveness) (r : Reading) :
    CurrentHealth :=
  match liveness with
  | .down =>
      if 0 < r.observedEver ∨ setup.firstVerifiedAt.isSome then .verifiedPreviouslyGatewayDown
      else .gatewayUnavailable
  | .unknown => idleOrWaiting setup r
  | .verified =>
      if 0 < r.total ∧ r.workingNow = r.total then .verifiedAndActive
      else if 0 < r.workingNow then .partiallyTracked r.workingNow r.total
      else idleOrWaiting setup r

/-- A current failure outranks stale success, and a missing route or link any claim of traffic. -/
def deriveHealth (setup : TrackingSetup) (liveness : GatewayLiveness) (r : Reading)
    (failureIsNewer : Bool) : CurrentHealth :=
  if failureIsNewer then
    .needsAttention (setup.attentionReason.getD "the most recent setup attempt failed".toList)
  else
    let missing := r.freshness.filter fun f => !f.routePresent || !f.linkPresent
    if missing ≠ [] then
      let routeMissing := r.freshness.any fun f => !f.routePresent
      let linkMissing := r.freshness.any fun f => !f.linkPresent
      .configurationChanged (missingDetail r missing routeMissing linkMissing) routeMissing linkMissing
    else healthByLiveness setup liveness r

/-! ## The refresh -/

/-- The session's watermark is written once; the row's version stands. -/
def TrackDb.writeTraffic (db : TrackDb) (setup : TrackingSetup) (earliest : Option Str) :
    TrackDb × TrackingSetup :=
  if setup.firstTrafficAt.isNone then
    let write := fun s : TrackingSetup =>
      if s.id = setup.id ∧ s.firstTrafficAt.isNone then { s with firstTrafficAt := earliest } else s
    ({ db with row := db.row.map write }, { setup with firstTrafficAt := earliest })
  else (db, setup)

/-- So is the watermark of all sessions. -/
def TrackDb.writeVerified (db : TrackDb) (setup : TrackingSetup) (earliest : Option Str) :
    TrackDb × TrackingSetup :=
  if setup.firstVerifiedAt.isNone then
    let write := fun s : TrackingSetup =>
      if s.id = setup.id ∧ s.firstVerifiedAt.isNone then { s with firstVerifiedAt := earliest } else s
    ({ db with row := db.row.map write }, { setup with firstVerifiedAt := earliest })
  else (db, setup)

/-- The correction of a row that claims more than can be checked. -/
def correctOverclaim (db : TrackDb) (setup : TrackingSetup) (now : Str) :
    Except CoreError (TrackDb × TrackingSetup) :=
  let reason :=
    if setup.appliedAt.isNone then
      "the record of when this setup was applied is missing, so its verified state could not be confirmed"
    else "this setup has no recorded providers, so its verified state could not be confirmed"
  casWriteHealth db setup .needsAttention (some (setup.attentionReason.getD reason.toList))
    (some (setup.attentionAt.getD now)) now

def correctUnchecked (db : TrackDb) (now : Str) (setup : TrackingSetup) (mayWrite : Bool) :
    Except CoreError (TrackDb × TrackingSetup) :=
  if overclaiming setup.state ∧ mayWrite then correctOverclaim db setup now else .ok (db, setup)

/-- The evidence can be looked at: the row is applied, watched, and has providers. -/
def TrackingSetup.checkedFrom (setup : TrackingSetup) : Option Str :=
  if watchable setup.state ∧ configuredProviders setup ≠ [] then setup.appliedAt else none

/-- The correction of the stored row from the evidence. -/
def TrackEnv.correct (env : TrackEnv) (db : TrackDb) (now : Str) (setup : TrackingSetup) (r : Reading)
    (mayWrite : Bool) : Except CoreError (TrackDb × TrackingSetup) :=
  match env.derivedState setup r with
  | some next =>
      if next ≠ setup.state ∧ mayWrite then writeDerived db setup next (env.failureIsNewer setup r) now
      else .ok (db, setup)
  | none => .ok (db, setup)

/-- One attempt, on one state of the database. -/
def TrackEnv.refreshOnce (env : TrackEnv) (db : TrackDb) (now : Str) (setup : TrackingSetup)
    (liveness : GatewayLiveness) (mayWrite : Bool) :
    Except CoreError (TrackingStatusReport × TrackDb × TrackingSetup) :=
  match setup.checkedFrom with
  | none => do
      let (db, setup) ← correctUnchecked db now setup mayWrite
      return (⟨healthWithoutEvidence setup liveness, [], setup.state⟩, db, setup)
  | some appliedAt => do
      let r := env.read db now appliedAt setup
      let failed := env.failureIsNewer setup r
      let (db, setup) ← env.correct db now setup r mayWrite
      let (db, setup) :=
        if 0 < r.observedEver ∧ mayWrite then
          let (db, setup) := db.writeTraffic setup r.earliest
          db.writeVerified setup r.earliest
        else (db, setup)
      return (⟨deriveHealth setup liveness r failed, r.freshness, setup.state⟩, db, setup)

/-- What an attempt meets: the database and the clock. -/
structure View where
  db : TrackDb
  now : Str

def refreshCasAttempts : Nat := 3

/-- The attempts that are left, from the `i`-th; after the last one the row is read once more and nothing
    is written. -/
def TrackEnv.attempts (env : TrackEnv) (view : Nat → View) (liveness : GatewayLiveness) :
    Nat → Nat → TrackingSetup → Except CoreError (TrackingStatusReport × TrackDb × TrackingSetup)
  | 0, i, setup =>
      env.refreshOnce (view i).db (view i).now (((view i).db.getSetup setup.id).getD setup) liveness
        false
  | n + 1, i, setup =>
      match env.refreshOnce (view i).db (view i).now setup liveness true with
      | .error (.stateConflict _ _) =>
          match (view (i + 1)).db.getSetup setup.id with
          | none => .error (.notFound "tracking setup" (Nat.toDigits 10 setup.id))
          | some fresh => env.attempts view liveness n (i + 1) fresh
      | other => other

/-- `refresh_with`; between its attempts others may write, so each meets a view of its own. -/
def TrackEnv.refreshWith (env : TrackEnv) (view : Nat → View) (setup : TrackingSetup)
    (liveness : GatewayLiveness) : Except CoreError (TrackingStatusReport × TrackDb × TrackingSetup) :=
  env.attempts view liveness refreshCasAttempts 0 setup

end Tethra.Tracking
