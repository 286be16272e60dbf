import Tethra.Gateway.Origin
import Tethra.Lib.Keyed

set_option autoImplicit false

/-! # The route table (`load_route_table` of `gateway/src/routes.rs`)

The database is the untrusted input: a row's columns hold whatever was written there. Every row is
resolved to a route, a reason to skip it, or a disabled route, and the snapshot collects the outcomes.
The manifests, the keyed hash and Unicode lowercasing are parameters. -/

namespace Tethra.Gateway

/-- What SQLite hands out for a column. -/
inductive SqlValue where
  | null
  | integer (i : Int)
  | real
  | text (t : Str)
  | invalidText
  | blob (bytes : List UInt8)
  deriving DecidableEq, Repr

def columnError {α : Type} : Except CoreError α := .error (.db "Invalid column type".toList)

def SqlValue.getText : SqlValue → Except CoreError Str
  | .text t => .ok t
  | _ => columnError

def SqlValue.getInt : SqlValue → Except CoreError Int
  | .integer i => .ok i
  | _ => columnError

def SqlValue.getBlob : SqlValue → Except CoreError (List UInt8)
  | .blob bytes => .ok bytes
  | _ => columnError

/-- A nullable column. -/
def SqlValue.opt {α : Type} (get : SqlValue → Except CoreError α) :
    SqlValue → Except CoreError (Option α)
  | .null => .ok none
  | value => (get value).map some

structure RawRouteRow where
  routePrefix : SqlValue
  providerId : SqlValue
  enabled : SqlValue
  customOrigin : SqlValue
  customOriginPort : SqlValue
  customOriginMac : SqlValue
  customOriginConsentAt : SqlValue
  deriving DecidableEq, Repr

structure RawLinkRow where
  linkSlug : SqlValue
  projectId : SqlValue
  routePrefix : SqlValue
  deriving DecidableEq, Repr

/-- What the loader reads: the vault id's row, if there is one, the routes and the links. -/
structure RouteDb where
  vaultId : Option SqlValue
  routes : List RawRouteRow
  links : List RawLinkRow
  deriving DecidableEq, Repr

structure RouteRow where
  routePrefix : Str
  providerId : Str
  enabled : Bool
  origin : Option Str
  port : Option Int
  mac : Option (List UInt8)
  consent : Option Str
  deriving DecidableEq, Repr

def readRouteRow (raw : RawRouteRow) : Except CoreError RouteRow := do
  let routePrefix ← raw.routePrefix.getText
  let providerId ← raw.providerId.getText
  let enabled ← raw.enabled.getInt
  let origin ← raw.customOrigin.opt SqlValue.getText
  let port ← raw.customOriginPort.opt SqlValue.getInt
  let mac ← raw.customOriginMac.opt SqlValue.getBlob
  let consent ← raw.customOriginConsentAt.opt SqlValue.getText
  return { routePrefix, providerId, enabled := enabled ≠ 0, origin, port, mac, consent }

structure LinkInfo where
  projectId : Str
  routePrefix : Str
  linkSlug : Str
  deriving DecidableEq, Repr

def readLinkRow (raw : RawLinkRow) : Except CoreError LinkInfo := do
  let linkSlug ← raw.linkSlug.getText
  let projectId ← raw.projectId.getText
  let routePrefix ← raw.routePrefix.getText
  return { projectId, routePrefix, linkSlug }

def vaultIdOf (db : RouteDb) : Except CoreError Str :=
  match db.vaultId with
  | none => .error (.vaultCorrupted "vault_meta has no vault_id")
  | some value => value.getText

/-! ## Routes -/

structure UpstreamOrigin where
  host : Str
  port : Nat
  deriving DecidableEq, Repr

inductive Unforwardable where
  | macKeyUnavailable
  | macMismatch
  deriving DecidableEq, Repr

inductive RouteTarget where
  | ready (origin : UpstreamOrigin)
  | unforwardable (reason : Unforwardable)
  deriving DecidableEq, Repr

structure Route where
  routePrefix : Str
  providerId : Str
  target : RouteTarget
  custom : Bool
  usageShape : Str
  deriving DecidableEq, Repr

structure RouteTable where
  routes : List Route
  links : List LinkInfo
  skipped : List (Str × Str)
  disabled : Nat
  deriving DecidableEq, Repr

def RouteTable.empty : RouteTable := ⟨[], [], [], 0⟩

def RouteTable.route (table : RouteTable) (prefix_ : Str) : Option Route :=
  table.routes.find? (·.routePrefix = prefix_)

def RouteTable.insertRoute (table : RouteTable) (route : Route) : RouteTable :=
  { table with
    routes := Keyed.upsert Route.routePrefix route.routePrefix (fun _ => route) route table.routes }

def RouteTable.insertLink (table : RouteTable) (link : LinkInfo) : RouteTable :=
  { table with
    links := Keyed.upsert LinkInfo.linkSlug link.linkSlug (fun _ => link) link table.links }

def RouteTable.skip (table : RouteTable) (prefix_ reason : Str) : RouteTable :=
  { table with skipped := table.skipped ++ [(prefix_, reason)] }

/-- The part of a `[gateway]` section that the loader reads. -/
structure ManifestGateway where
  origins : List Str
  usageShape : Str
  deriving DecidableEq, Repr

structure ProviderManifest where
  id : Str
  gateway : Option ManifestGateway
  deriving DecidableEq, Repr

/-- What the loader uses besides the database and the key. -/
structure RouteEnv where
  lowercase : Str → Str
  manifests : List ProviderManifest
  keyedHash : List UInt8 → List UInt8 → List UInt8

/-- `providers::find`. -/
def RouteEnv.find (env : RouteEnv) (id : Str) : Option ProviderManifest :=
  env.manifests.find? fun m => Observe.asciiLower m.id = Observe.asciiLower (Text.trim id)

def RouteEnv.usageShape (env : RouteEnv) (providerId : Str) : Str :=
  (((env.find providerId).bind ProviderManifest.gateway).map ManifestGateway.usageShape).getD []

/-- What becomes of a row. -/
inductive RowOutcome where
  | disabled
  | skipped (reason : Str)
  | route (route : Route)
  deriving DecidableEq, Repr

/-- The arm for a row without custom columns: the first origin of the provider's manifest. -/
def RouteEnv.manifestRoute (env : RouteEnv) (row : RouteRow) : RowOutcome :=
  match env.find row.providerId with
  | none => .skipped (quoted "unknown provider ".toList row.providerId [])
  | some manifest =>
      match manifest.gateway with
      | none =>
          .skipped (quoted "provider ".toList row.providerId " declares no gateway origin".toList)
      | some gateway =>
          match gateway.origins.head? with
          | none => .skipped (quoted "provider ".toList row.providerId " has no origins".toList)
          | some first =>
              match validateOrigin env.lowercase first with
              | .error e => .skipped ("manifest origin: invalid input: ".toList ++ e)
              | .ok (host, port) =>
                  .route
                    { routePrefix := row.routePrefix
                      providerId := row.providerId
                      target := .ready ⟨host, port⟩
                      custom := false
                      usageShape := env.usageShape row.providerId }

/-- The authority that is re-validated for a stored origin. -/
def customAuthority (host : Str) (port : Nat) : Str :=
  if host.head? = some '[' then "https://".toList ++ host ++ ':' :: (toString port).toList
  else if port = 443 then "https://".toList ++ host
  else "https://".toList ++ host ++ ':' :: (toString port).toList

/-- Where a custom route goes: nowhere without the key, or when the stored MAC is not the one of the
    row. -/
def RouteEnv.customTarget (env : RouteEnv) (macKey : Option (List UInt8)) (fields : MacFields)
    (storedMac : List UInt8) : Except CoreError RouteTarget :=
  match macKey with
  | none => .ok (.unforwardable .macKeyUnavailable)
  | some key => do
      let expected ← routeMac env.keyedHash key fields
      if storedMac.length = 32 ∧ expected = storedMac then
        return .ready ⟨fields.originHost, fields.port⟩
      else return .unforwardable .macMismatch

/-- The arm for a row with all custom columns. -/
def RouteEnv.customRoute (env : RouteEnv) (vaultId : Str) (macKey : Option (List UInt8))
    (row : RouteRow) (host : Str) (storedPort : Int) (storedMac : List UInt8) (consent : Str) :
    Except CoreError RowOutcome :=
  if storedPort < 0 ∨ 65535 < storedPort then .ok (.skipped "invalid custom port".toList)
  else
    match validateOrigin env.lowercase (customAuthority host storedPort.toNat) with
    | .error e => .ok (.skipped ("custom origin: invalid input: ".toList ++ e))
    | .ok _ => do
        let target ← env.customTarget macKey
          { vaultId, routePrefix := row.routePrefix, providerId := row.providerId,
            originHost := host, port := storedPort.toNat, consentTs := consent } storedMac
        return .route
          { routePrefix := row.routePrefix
            providerId := row.providerId
            target
            custom := true
            usageShape := env.usageShape row.providerId }

def RouteEnv.resolveRow (env : RouteEnv) (vaultId : Str) (macKey : Option (List UInt8))
    (row : RouteRow) : Except CoreError RowOutcome :=
  if !row.enabled then .ok .disabled
  else
    match validateRoutePrefix row.routePrefix with
    | .error _ => .ok (.skipped "invalid route prefix".toList)
    | .ok () =>
        match row.origin, row.port, row.mac, row.consent with
        | none, none, none, none => .ok (env.manifestRoute row)
        | some host, some port, some mac, some consent =>
            env.customRoute vaultId macKey row host port mac consent
        | _, _, _, _ => .ok (.skipped "malformed custom route row".toList)

def RouteTable.collect (table : RouteTable) (row : RouteRow) : RowOutcome → RouteTable
  | .disabled => { table with disabled := table.disabled + 1 }
  | .skipped reason => table.skip row.routePrefix reason
  | .route route => table.insertRoute route

/-- The routes of a snapshot, from the rows. -/
def RouteEnv.loadRoutes (env : RouteEnv) (vaultId : Str) (macKey : Option (List UInt8))
    (raws : List RawRouteRow) : Except CoreError RouteTable := do
  let rows ← raws.mapM readRouteRow
  rows.foldlM (fun table row => do return table.collect row (← env.resolveRow vaultId macKey row))
    .empty

/-- The links of a snapshot, from the rows. -/
def RouteTable.loadLinks (table : RouteTable) (raws : List RawLinkRow) :
    Except CoreError RouteTable := do
  let links ← raws.mapM readLinkRow
  return links.foldl RouteTable.insertLink table

def RouteEnv.loadRouteTable (env : RouteEnv) (db : RouteDb) (macKey : Option (List UInt8)) :
    Except CoreError RouteTable := do
  let vaultId ← vaultIdOf db
  let table ← env.loadRoutes vaultId macKey db.routes
  table.loadLinks db.links

end Tethra.Gateway
