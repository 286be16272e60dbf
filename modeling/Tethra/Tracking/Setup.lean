import Tethra.Observe.Policy

set_option autoImplicit false

/-! # Tracking setups (`tracking/src/state.rs`)

The row of one setup, of a project and a folder, with the tables that say what was observed. Every write
that decides from a row read earlier compares the row's version and bumps it. -/

namespace Tethra.Tracking

inductive TrackingState where
  | notConfigured
  | scanning
  | readyToConfigure
  | applying
  | awaitingRestart
  | awaitingFirstRequest
  | trafficObserved
  | partiallyObserved
  | needsAttention
  | unsupported
  deriving DecidableEq, Repr

def TrackingState.asStr : TrackingState → String
  | .notConfigured => "not_configured"
  | .scanning => "scanning"
  | .readyToConfigure => "ready_to_configure"
  | .applying => "applying"
  | .awaitingRestart => "awaiting_restart"
  | .awaitingFirstRequest => "awaiting_first_request"
  | .trafficObserved => "traffic_observed"
  | .partiallyObserved => "partially_observed"
  | .needsAttention => "needs_attention"
  | .unsupported => "unsupported"

/-- Legal transitions; undo is legal from anywhere. -/
def TrackingState.canTransitionTo (s next : TrackingState) : Bool :=
  next = .notConfigured ||
    match s, next with
    | .notConfigured, .scanning | .scanning, .readyToConfigure | .readyToConfigure, .applying
    | .readyToConfigure, .unsupported | .readyToConfigure, .scanning | .unsupported, .scanning
    | .applying, .awaitingRestart | .applying, .awaitingFirstRequest | .applying, .needsAttention
    | .awaitingRestart, .awaitingFirstRequest | .awaitingRestart, .trafficObserved
    | .awaitingRestart, .partiallyObserved | .awaitingRestart, .needsAttention
    | .awaitingFirstRequest, .trafficObserved | .awaitingFirstRequest, .partiallyObserved
    | .awaitingFirstRequest, .needsAttention | .needsAttention, .awaitingFirstRequest
    | .needsAttention, .trafficObserved | .needsAttention, .partiallyObserved
    | .needsAttention, .applying | .partiallyObserved, .trafficObserved
    | .partiallyObserved, .needsAttention | .trafficObserved, .needsAttention
    | .trafficObserved, .partiallyObserved => true
    | _, _ => false

/-- The plan summary, as its JSON reads. -/
structure PlanSummary where
  providers : List Str
  createdRoutes : List Str
  reusedRoutes : List Str
  reEnabledRoutes : List Str
  links : List Str
  files : List Str
  attributionEnabled : Bool
  installedService : Bool
  port : Nat
  applyCompleted : Bool
  deriving DecidableEq, Repr

def PlanSummary.empty : PlanSummary := ⟨[], [], [], [], [], [], false, false, 0, false⟩

/-- Ids of setups and of sessions are numbered in the order in which they are minted; a summary that
    does not parse reads like none. -/
structure TrackingSetup where
  id : Nat
  projectId : Str
  state : TrackingState
  planSummary : Option PlanSummary
  appliedAt : Option Str
  firstTrafficAt : Option Str
  lastTransitionAt : Str
  attentionReason : Option Str
  verificationSession : Option Nat
  configGeneration : Nat
  firstVerifiedAt : Option Str
  attentionAt : Option Str
  appliedEventRowid : Nat
  rowVersion : Nat
  deriving DecidableEq, Repr

structure RouteRow where
  routePrefix : Str
  providerId : Str
  customOrigin : Option Str
  enabled : Bool
  deriving DecidableEq, Repr

structure LinkRow where
  projectId : Str
  routePrefix : Str
  deriving DecidableEq, Repr

/-- A row of `runtime_request_events`. -/
structure EventRow where
  rowid : Nat
  projectId : Str
  fromGateway : Bool
  host : Str
  at_ : Str
  deriving DecidableEq, Repr

/-- The database, as far as one setup is concerned. -/
structure TrackDb where
  row : Option TrackingSetup
  routes : List RouteRow
  links : List LinkRow
  events : List EventRow
  deriving DecidableEq, Repr

def TrackDb.getSetup (db : TrackDb) (id : Nat) : Option TrackingSetup := db.row.filter (·.id = id)

def planSummaryOf (setup : TrackingSetup) : PlanSummary := setup.planSummary.getD .empty

def configuredProviders (setup : TrackingSetup) : List Str :=
  (setup.planSummary.map PlanSummary.providers).getD []

def newestEventRowid (db : TrackDb) : Nat := (db.events.map EventRow.rowid).foldl max 0

def stateConflict {α : Type} (setup : TrackingSetup) : Except CoreError α :=
  .error (.stateConflict "tracking setup" (Nat.toDigits 10 setup.id))

/-! ## Guarded writes -/

/-- The stored row is still the one that was read. -/
def TrackDb.holds (db : TrackDb) (setup : TrackingSetup) : Bool :=
  db.row.any fun row => row.id = setup.id && row.rowVersion = setup.rowVersion

/-- Write to the stored row and to the copy, if the row is still the one that was read. -/
def TrackDb.casWrite (db : TrackDb) (setup : TrackingSetup)
    (write : TrackingSetup → TrackingSetup) : Except CoreError (TrackDb × TrackingSetup) :=
  if db.holds setup then .ok ({ db with row := db.row.map write }, write setup)
  else stateConflict setup

def TrackingSetup.withHealth (next : TrackingState) (reason attentionAt : Option Str) (now : Str)
    (s : TrackingSetup) : TrackingSetup :=
  { s with
    state := next
    lastTransitionAt := now
    attentionReason := reason
    attentionAt
    rowVersion := s.rowVersion + 1 }

/-- The statement that writes the health columns. -/
def casWriteHealth (db : TrackDb) (setup : TrackingSetup) (next : TrackingState)
    (reason attentionAt : Option Str) (now : Str) : Except CoreError (TrackDb × TrackingSetup) :=
  db.casWrite setup (TrackingSetup.withHealth next reason attentionAt now)

def TrackingSetup.withSummary (summary : PlanSummary) (applied : Option (Nat × Str))
    (s : TrackingSetup) : TrackingSetup :=
  { s with
    planSummary := some summary
    appliedAt := (applied.map fun a => some a.2).getD s.appliedAt
    appliedEventRowid := (applied.map Prod.fst).getD s.appliedEventRowid
    rowVersion := s.rowVersion + 1 }

/-- The statement that writes the apply artifacts; a completed apply moves the watermark. -/
def casWriteSummary (db : TrackDb) (setup : TrackingSetup) (summary : PlanSummary)
    (applied : Option (Nat × Str)) : Except CoreError (TrackDb × TrackingSetup) :=
  db.casWrite setup (TrackingSetup.withSummary summary applied)

def recordRoutesCreated (db : TrackDb) (setup : TrackingSetup)
    (createdRoutes reEnabledRoutes : List Str) : Except CoreError (TrackDb × TrackingSetup) :=
  casWriteSummary db setup
    { PlanSummary.empty with createdRoutes, reEnabledRoutes, applyCompleted := false } none

/-- The newest rowid is read by a statement of its own, before the write. -/
def recordApplied (db : TrackDb) (setup : TrackingSetup) (planSummary : PlanSummary) (rowid : Nat)
    (now : Str) : Except CoreError (TrackDb × TrackingSetup) :=
  casWriteSummary db setup { planSummary with applyCompleted := true } (some (rowid, now))

/-- An explicit transition. -/
def transition (db : TrackDb) (setup : TrackingSetup) (next : TrackingState)
    (attentionReason : Option Str) (now : Str) : Except CoreError (TrackDb × TrackingSetup) :=
  if setup.state ≠ next ∧ !setup.state.canTransitionTo next then
    .error (.invalidInput ("illegal tracking-state transition ".toList ++
      setup.state.asStr.toList ++ " -> ".toList ++ next.asStr.toList))
  else casWriteHealth db setup next attentionReason (attentionReason.map fun _ => now) now

/-- The row of a setup that is created. -/
def newRow (projectId : Str) (state : TrackingState) (id session rowid : Nat) (now : Str) :
    TrackingSetup where
  id
  projectId
  state
  planSummary := none
  appliedAt := none
  firstTrafficAt := none
  lastTransitionAt := now
  attentionReason := none
  verificationSession := some session
  configGeneration := 1
  firstVerifiedAt := none
  attentionAt := none
  appliedEventRowid := rowid
  rowVersion := 0

/-- A new session on a row: the artifacts of the previous attempt are cleared. -/
def TrackingSetup.reopened (state : TrackingState) (session rowid : Nat) (now : Str)
    (row : TrackingSetup) : TrackingSetup :=
  { row with
    state
    lastTransitionAt := now
    attentionReason := none
    attentionAt := none
    verificationSession := some session
    configGeneration := row.configGeneration + 1
    planSummary := none
    appliedAt := none
    firstTrafficAt := none
    appliedEventRowid := rowid
    rowVersion := row.rowVersion + 1 }

/-- Create the row, or open a new session on it. -/
def upsertSetup (db : TrackDb) (projectId : Str) (state : TrackingState) (id session rowid : Nat)
    (now : Str) : TrackDb :=
  match db.row with
  | none => { db with row := some (newRow projectId state id session rowid now) }
  | some row => { db with row := some (row.reopened state session rowid now) }

def TrackingSetup.cleared (s : TrackingSetup) : TrackingSetup :=
  { s with
    planSummary := none
    appliedAt := none
    firstTrafficAt := none
    verificationSession := none
    rowVersion := s.rowVersion + 1 }

/-- The statement with which undo closes the session. -/
def clearArtifacts (db : TrackDb) (setup : TrackingSetup) :
    Except CoreError (TrackDb × TrackingSetup) :=
  db.casWrite setup TrackingSetup.cleared

def deleteSetup (db : TrackDb) (id : Nat) : TrackDb := { db with row := db.row.filter (·.id ≠ id) }

end Tethra.Tracking
