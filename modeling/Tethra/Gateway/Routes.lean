import Tethra.Gateway.PriorEnv

set_option autoImplicit false

/-! # Routes and project links (`gateway/src/routes.rs`)

The two tables of the gateway's configuration. A link row scopes `/p/<slug>/<route>` traffic to a
project; its key is the slug, and a project has at most one link for a route. -/

namespace Tethra.Gateway

structure GatewayRoute where
  routePrefix : Str
  providerId : Str
  enabled : Bool
  customOrigin : Option Str
  deriving DecidableEq, Repr

structure ProjectLinkRow where
  linkSlug : Str
  projectId : Str
  routePrefix : Str
  envPath : Option Str
  priorEnv : Option PriorEnv
  deriving DecidableEq, Repr

/-- The gateway's part of the database; `projects` are the ids that `project_id` may refer to. -/
structure Db where
  projects : List Str
  routes : List GatewayRoute
  links : List ProjectLinkRow
  port : Option Nat
  deriving DecidableEq, Repr

/-- The row is the link of `prefix_` for the project. -/
def ProjectLinkRow.isFor (projectId prefix_ : Str) (row : ProjectLinkRow) : Bool :=
  row.projectId = projectId && row.routePrefix = prefix_

/-- The constraints of the link table. -/
structure Db.WellFormed (db : Db) : Prop where
  slug : (db.links.map ProjectLinkRow.linkSlug).Nodup
  pair : (db.links.map fun row => (row.projectId, row.routePrefix)).Nodup

def Db.routeExists (db : Db) (prefix_ : Str) : Bool := db.routes.any (·.routePrefix = prefix_)

/-- The provider behind a route prefix, and whether the route has a custom origin. -/
def routeProvider (db : Db) (prefix_ : Str) : Option (Str × Bool) :=
  (db.routes.find? (·.routePrefix = prefix_)).map fun r => (r.providerId, r.customOrigin.isSome)

/-- The link row for a (project, route) pair, if any. -/
def findProjectLink (db : Db) (projectId prefix_ : Str) : Option ProjectLinkRow :=
  db.links.find? (ProjectLinkRow.isFor projectId prefix_)

/-- Insert a link row with the caller's slug. -/
def addProjectLinkWithSlug (db : Db) (projectId prefix_ slug : Str) : Except CoreError Db :=
  if !db.routeExists prefix_ then .error (.notFound "gateway route" prefix_)
  else if db.links.any fun row => row.linkSlug = slug || row.isFor projectId prefix_ then
    .error (.alreadyExists "gateway project link" (projectId ++ ':' :: prefix_))
  else if projectId ∈ db.projects then
    .ok { db with links := db.links ++
      [{ linkSlug := slug, projectId, routePrefix := prefix_, envPath := none, priorEnv := none }] }
  else .error (.db "FOREIGN KEY constraint failed".toList)

/-- Record what the `.env` writer did for a link; no row, no effect. -/
def updateLinkEnv (db : Db) (slug : Str) (envPath : Option Str) (priorEnv : Option PriorEnv) : Db :=
  let record := fun row : ProjectLinkRow => { row with envPath, priorEnv }
  { db with links := Keyed.modify ProjectLinkRow.linkSlug slug record db.links }

def removeProjectLink (db : Db) (projectId prefix_ : Str) : Db :=
  { db with links := db.links.filter fun row => !row.isFor projectId prefix_ }

end Tethra.Gateway
