import Tethra.Core.ClockOrder
import Tethra.Lib.Interleave

set_option autoImplicit false

/-! # Access grants (`core/src/access.rs`, `core/src/vault.rs`)

A grant bounds what `run` may inject. A launch is consumed in one statement that checks the grant again,
and what is behind it, the decryption of every selected value and the records of the session, may still
fail, while another process revokes the grant or the time runs out (`launches_accounted`). -/

namespace Tethra.AccessGrants

open Interleave Runs Clock

/-- A row of `access_grants`; `expiresAt` and `revokedAt` are written as RFC 3339 strings. -/
structure AccessGrant where
  projectId : Str
  label : Str
  /-- Empty: the configured mappings of the project. -/
  credentialIds : List Str
  expiresAt : Timestamp
  /-- 0: no limit. -/
  maxLaunches : Int
  launchesUsed : Int
  maxDurationSecs : Option Int
  budgetWarnMicros : Option Int
  createdAt : Timestamp
  revokedAt : Option Timestamp

structure EnvMapping where
  projectId : Str
  credentialId : Str
  credentialName : Str
  envVar : Str

inductive CostSource where
  | bestAvailable | providerReported | estimated

structure GrantInjection where
  env : List (Str × Str)
  sessionId : Str
  grant : AccessGrant
  maxDurationSecs : Option Int
  warnings : List Str

/-- The strings are compared. -/
def AccessGrant.status (g : AccessGrant) (now : Timestamp) : Str :=
  if g.revokedAt.isSome then "revoked".toList
  else if g.expiresAt.toRfc3339 ≤ now.toRfc3339 then "expired".toList
  else if 0 < g.maxLaunches ∧ g.maxLaunches ≤ g.launchesUsed then "used_up".toList
  else "active".toList

/-- The `WHERE` clause of the update that consumes a launch. -/
def AccessGrant.consumable (g : AccessGrant) (now : Timestamp) : Bool :=
  g.revokedAt.isNone && decide (now.toRfc3339 < g.expiresAt.toRfc3339) &&
    decide (g.maxLaunches = 0 ∨ g.launchesUsed < g.maxLaunches)

def AccessGrant.allows (g : AccessGrant) (credentialId : Str) : Bool :=
  g.credentialIds.isEmpty || g.credentialIds.contains credentialId

/-! ## Statements -/

inductive Action where
  | now
  | getGrant (id : Str)
  | projectRowByIdent (ident : Str)
  | listMappings (projectId : Str)
  | consumeLaunch (id : Str) (now : Timestamp)
  | decryptValue (credentialId : Str)
  | startSession (projectId command : Str) (vars : List Str)
  | audit (event : String) (projectId : Str) (detail : Str)
  | setSessionGrant (sessionId grantId : Str)
  | budgetCostSource
  | credentialReport (credentialId : Str) (source : CostSource)
  | setRevoked (id : Str) (now : Timestamp)
  | runningSessions (id : Str)
  /-- The call for an injection under the grant returns. -/
  | answer (id : Str) (result : Except CoreError GrantInjection)
  /-- The clock goes on, or is set. -/
  | setClock (t : Timestamp)

abbrev Answer : Action → Type
  | .now => Timestamp
  | .getGrant _ => Option AccessGrant
  | .projectRowByIdent _ => Str
  | .listMappings _ => List EnvMapping
  | .consumeLaunch _ _ => Bool
  | .decryptValue _ => Str
  | .startSession _ _ _ => Str
  | .audit _ _ _ => Unit
  | .setSessionGrant _ _ => Unit
  | .budgetCostSource => CostSource
  | .credentialReport _ _ => Int
  | .setRevoked _ _ => Unit
  | .runningSessions _ => List (Str × Int)
  | .answer _ _ => Unit
  | .setClock _ => Unit

abbrev Prog (β : Type) := Interleave.Prog Answer CoreError β

abbrev call (a : Action) : Prog (Answer a) := Interleave.Prog.call a

/-! ## The operations -/

def get (id : Str) : Prog AccessGrant := do
  match ← call (.getGrant id) with
  | some grant => return grant
  | none => .throw (.notFound "access grant" id)

def revoke (id : Str) : Prog AccessGrant := do
  let grant ← get id
  if grant.revokedAt.isNone then
    let now ← call .now
    call (.setRevoked id now)
    get id
  else get id

def consumeLaunch (id : Str) : Prog AccessGrant := do
  let now ← call .now
  let consumed ← call (.consumeLaunch id now)
  if consumed then get id
  else do
    let grant ← get id
    .throw (.invalidInput ("access grant ".toList ++ id ++ " is ".toList ++ grant.status now ++
      " — it cannot authorize another launch".toList))

/-- The running sessions under the grant are left to the caller. -/
def accessGrantEnd (id : Str) : Prog (AccessGrant × List (Str × Int)) := do
  let grant ← revoke id
  let running ← call (.runningSessions id)
  call (.audit "access_grant_revoked" grant.projectId
    ("grant=".toList ++ id ++ " running_sessions=".toList ++ (toString running.length).toList))
  return (grant, running)

def selected (grant : AccessGrant) (mappings : List EnvMapping) : List EnvMapping :=
  if grant.credentialIds.isEmpty then mappings
  else mappings.filter fun m => grant.credentialIds.contains m.credentialId

def decryptAll : List EnvMapping → Prog (List (Str × Str))
  | [] => return []
  | m :: ms => do
      let value ← call (.decryptValue m.credentialId)
      let rest ← decryptAll ms
      return (m.envVar, value) :: rest

def totalReported (source : CostSource) : List Str → Prog Int
  | [] => return 0
  | id :: ids => do
      let used ← call (.credentialReport id source)
      let rest ← totalReported source ids
      return used + rest

def budgetWarnings (formatMicros : Int → Str) (grant : AccessGrant) (mappings : List EnvMapping) :
    Prog (List Str) :=
  match grant.budgetWarnMicros with
  | none => return []
  | some warnAt => do
      let source ← call .budgetCostSource
      let total ← totalReported source
        (if grant.credentialIds.isEmpty then mappings.map EnvMapping.credentialId
          else grant.credentialIds)
      if warnAt ≤ total then
        return ["ADVISORY: month-to-date recorded cost for the granted credential(s) is ".toList ++
          formatMicros total ++ " — at or past the grant's warning threshold ".toList ++
          formatMicros warnAt ++ ". This is a local observation only; ".toList ++
          "it does not cap provider-side spend.".toList]
      else return []

/-- What is behind the consumed launch. -/
def inject (formatMicros : Int → Str) (grantId commandLabel projectId : Str) (grant : AccessGrant)
    (mappings : List EnvMapping) : Prog GrantInjection := do
  let env ← decryptAll mappings
  let sessionId ← call (.startSession projectId
    ("[grant ".toList ++ grantId ++ "] ".toList ++ commandLabel) (env.map Prod.fst))
  call (.audit "process_injection_started" projectId
    ("grant=".toList ++ grantId ++ " vars=".toList ++ [','].intercalate (env.map Prod.fst)))
  call (.setSessionGrant sessionId grantId)
  let warnings ← budgetWarnings formatMicros grant mappings
  return ⟨env, sessionId, grant, grant.maxDurationSecs, warnings⟩

def buildInjectionWithGrant (formatMicros : Int → Str) (grantId commandLabel : Str) :
    Prog GrantInjection := do
  let grant ← get grantId
  let projectId ← call (.projectRowByIdent grant.projectId)
  let mappings ← call (.listMappings projectId)
  let selected := selected grant mappings
  if selected.isEmpty then
    .throw (.invalidInput ("the grant matches no configured env mappings; ".toList ++
      "map its credentials first (`mapping set`)".toList))
  else do
    let grant ← consumeLaunch grantId
    inject formatMicros grantId commandLabel projectId grant selected

inductive Op where
  | build (grantId commandLabel : Str)
  | endGrant (id : Str)
  | setClock (t : Timestamp)

def program (formatMicros : Int → Str) : Op → Prog Unit
  | .build grantId commandLabel => do
      let result ← (buildInjectionWithGrant formatMicros grantId commandLabel).attempt
      call (.answer grantId result)
  | .endGrant id => do
      let _ ← accessGrantEnd id
  | .setClock t => call (.setClock t)

/-! ## The vault -/

/-- An injection that was returned, with the row of its grant and the clock at that moment. -/
structure Returned where
  id : Str
  injection : GrantInjection
  row : Option AccessGrant
  clock : Timestamp

structure State where
  grants : Str → Option AccessGrant
  mappings : List EnvMapping
  clock : Timestamp
  returned : List Returned

def State.setGrant (s : State) (id : Str) (f : AccessGrant → AccessGrant) : State :=
  { s with grants := Function.update s.grants id ((s.grants id).map f) }

def AccessGrant.consume (g : AccessGrant) : AccessGrant := { g with launchesUsed := g.launchesUsed + 1 }

/-- The replies that an action can have. -/
def Replies (s : State) : (a : Action) → Except CoreError (Answer a) → Prop
  | .now, .ok now => now = s.clock
  | .getGrant id, .ok grant => grant = s.grants id
  | .listMappings projectId, .ok mappings => mappings = s.mappings.filter (·.projectId = projectId)
  | .consumeLaunch id now, .ok true => ∃ g, s.grants id = some g ∧ g.consumable now = true
  | .consumeLaunch id now, .ok false => ∀ g, s.grants id = some g → g.consumable now = false
  | .answer _ _, .error _ => False
  | .setClock _, .error _ => False
  | _, _ => True

/-- The state behind a reply; a statement that fails changes nothing. -/
def effect (s : State) : (a : Action) → Except CoreError (Answer a) → State
  | .consumeLaunch id _, .ok true => s.setGrant id AccessGrant.consume
  | .setRevoked id now, .ok _ => s.setGrant id fun g => { g with revokedAt := some now }
  | .answer id (.ok injection), .ok _ =>
      { s with returned := s.returned ++ [⟨id, injection, s.grants id, s.clock⟩] }
  | .setClock t, .ok _ => { s with clock := t }
  | _, _ => s

def Exec (s : State) (a : Action) (r : Except CoreError (Answer a)) (s' : State) : Prop :=
  Replies s a r ∧ s' = effect s a r

def system (formatMicros : Int → Str) : System State Op Answer CoreError Unit where
  program := program formatMicros
  exec := Exec

/-! ## What a call knows -/

structure Knows where
  /-- The grant that was asked for, and its row. -/
  row : Option (Str × AccessGrant)
  mappings : Option (List EnvMapping)
  /-- The clock, as a build read it. -/
  now : Option Timestamp
  /-- The grant of the launch that was consumed. -/
  consumed : Option Str
  /-- A statement failed, or found no grant, behind the consumed launch. -/
  failed : Bool
  answered : Bool

def Knows.start : Knows := ⟨none, none, none, none, false, false⟩

def Knows.fail (k : Knows) : Knows := { k with failed := k.failed || k.consumed.isSome }

def Knows.next (k : Knows) : (a : Action) → Except CoreError (Answer a) → Knows
  | .answer _ _, _ => { k with answered := true }
  | _, .error _ => k.fail
  | .getGrant id, .ok (some grant) => { k with row := k.row.or (some (id, grant)) }
  | .getGrant _, .ok none => k.fail
  | .listMappings _, .ok mappings => { k with mappings := some mappings }
  | .now, .ok now => if k.mappings.isSome then { k with now := some now } else k
  | .consumeLaunch id _, .ok true => { k with consumed := some id }
  | _, _ => k

/-- A launch is consumed at the instant that was read, by a call that has the row of the grant and its
    mappings; an injection is returned for a consumed launch, with allowed variables, and an error only
    where no launch was consumed, or after a failure. -/
def Knows.Allowed (k : Knows) : Action → Prop
  | .getGrant id => (∀ x ∈ k.row, x.1 = id) ∧ (k.row = none → k.now = none)
  | .listMappings _ => k.mappings = none ∧ k.consumed = none
  | .now => k.consumed = none
  | .consumeLaunch id now =>
      (∃ row, k.row = some (id, row)) ∧ k.mappings.isSome ∧ k.now = some now ∧ k.consumed = none ∧
        k.answered = false
  | .answer id (.ok injection) => k.answered = false ∧ k.consumed = some id ∧
      ∃ row mappings, k.row = some (id, row) ∧ k.mappings = some mappings ∧
        ∀ x ∈ injection.env, ∃ m ∈ mappings, m.envVar = x.1 ∧ row.allows m.credentialId = true
  | .answer _ (.error _) => k.answered = false ∧ (k.consumed.isSome → k.failed = true)
  | .setRevoked _ _ => k.consumed = none
  | .setClock _ => k.consumed = none
  | _ => True

def discipline : Discipline Answer CoreError Knows where
  allowed := Knows.Allowed
  next := Knows.next

/-- What is left behind a consumed launch: the call knows what it knew, or a statement failed. -/
def Behind {β : Type} (k : Knows) (P : β → Prop) (k' : Knows) : Except CoreError β → Prop
  | .ok b => k' = k ∧ P b
  | .error _ => k'.failed = true ∧ k'.answered = false

section Behind

variable {k : Knows} (hk : k.consumed.isSome) (hanswered : k.answered = false)

include hk in
theorem Knows.failed_fail : k.fail.failed = true := by simp [Knows.fail, hk]

include hk hanswered in
/-- A statement behind the consumed launch. -/
theorem behind_call {a : Action} (hallowed : k.Allowed a) (hok : ∀ x, k.next a (.ok x) = k)
    (herror : ∀ e, k.next a (.error e) = k.fail) :
    Obeys discipline (call a) k (Behind k fun _ => True) := by
  refine Obeys.call hallowed fun r => ?_
  cases r with
  | ok x => exact ⟨hok x, trivial⟩
  | error e =>
      show (k.next a (.error e)).failed = true ∧ (k.next a (.error e)).answered = false
      rw [herror]
      exact ⟨Knows.failed_fail hk, hanswered⟩

theorem Behind.bind {β γ : Type} {P : β → Prop} {R : γ → Prop} {p : Prog β} {f : β → Prog γ}
    (h : Obeys discipline p k (Behind k P)) (hf : ∀ b, P b → Obeys discipline (f b) k (Behind k R)) :
    Obeys discipline (p >>= f) k (Behind k R) := by
  refine h.bind ?_ fun _ _ herr => herr
  rintro k' b ⟨rfl, hb⟩
  exact hf b hb

include hk hanswered

theorem behind_decryptAll (ms : List EnvMapping) :
    Obeys discipline (decryptAll ms) k
      (Behind k fun env => ∀ x ∈ env, ∃ m ∈ ms, m.envVar = x.1) := by
  induction ms with
  | nil => exact ⟨rfl, fun x hx => by cases hx⟩
  | cons m ms ih =>
      refine Behind.bind (behind_call hk hanswered trivial (fun _ => rfl) fun _ => rfl) fun value _ => ?_
      refine Behind.bind ih fun rest hrest => ⟨rfl, fun x hx => ?_⟩
      rcases List.mem_cons.1 hx with rfl | hx
      · exact ⟨m, List.mem_cons_self, rfl⟩
      · obtain ⟨m', hm', hvar⟩ := hrest x hx
        exact ⟨m', List.mem_cons_of_mem _ hm', hvar⟩

theorem behind_totalReported (source : CostSource) (ids : List Str) :
    Obeys discipline (totalReported source ids) k (Behind k fun _ => True) := by
  induction ids with
  | nil => exact ⟨rfl, trivial⟩
  | cons id ids ih =>
      refine Behind.bind (behind_call hk hanswered trivial (fun _ => rfl) fun _ => rfl) fun used _ => ?_
      exact Behind.bind ih fun rest _ => ⟨rfl, trivial⟩

theorem behind_budgetWarnings (formatMicros : Int → Str) (grant : AccessGrant) (ms : List EnvMapping) :
    Obeys discipline (budgetWarnings formatMicros grant ms) k (Behind k fun _ => True) := by
  unfold budgetWarnings
  split
  · exact ⟨rfl, trivial⟩
  · refine Behind.bind (behind_call hk hanswered trivial (fun _ => rfl) fun _ => rfl) fun source _ => ?_
    refine Behind.bind (behind_totalReported hk hanswered source _) fun total _ => ?_
    split
    · exact ⟨rfl, trivial⟩
    · exact ⟨rfl, trivial⟩

theorem behind_inject (formatMicros : Int → Str) (grantId commandLabel projectId : Str)
    (grant : AccessGrant) (ms : List EnvMapping) :
    Obeys discipline (inject formatMicros grantId commandLabel projectId grant ms) k
      (Behind k fun injection => ∀ x ∈ injection.env, ∃ m ∈ ms, m.envVar = x.1) := by
  have hcall : ∀ (a : Action), k.Allowed a → (∀ x, k.next a (.ok x) = k) →
      (∀ e, k.next a (.error e) = k.fail) → Obeys discipline (call a) k (Behind k fun _ => True) :=
    fun a => behind_call hk hanswered
  refine Behind.bind (behind_decryptAll hk hanswered ms) fun env henv => ?_
  refine Behind.bind (hcall (.startSession ..) trivial (fun _ => rfl) fun _ => rfl) fun sessionId _ => ?_
  refine Behind.bind (hcall (.audit ..) trivial (fun _ => rfl) fun _ => rfl) fun _ _ => ?_
  refine Behind.bind (hcall (.setSessionGrant ..) trivial (fun _ => rfl) fun _ => rfl) fun _ _ => ?_
  exact Behind.bind (behind_budgetWarnings hk hanswered formatMicros grant ms) fun _ _ => ⟨rfl, henv⟩

end Behind

theorem obeys_get {id : Str} {k : Knows} (h : k.Allowed (.getGrant id)) :
    Obeys discipline (get id) k fun k' r =>
      match r with
      | .ok grant => k' = { k with row := k.row.or (some (id, grant)) }
      | .error _ => k' = k.fail := by
  refine Obeys.call_bind h (fun grant => ?_) fun _ => rfl
  cases grant with
  | none => rfl
  | some grant => rfl

theorem selected_allowed {grant : AccessGrant} {ms : List EnvMapping} {m : EnvMapping}
    (h : m ∈ selected grant ms) : m ∈ ms ∧ grant.allows m.credentialId = true := by
  unfold selected at h
  unfold AccessGrant.allows
  split at h
  · rename_i hempty
    exact ⟨h, by rw [hempty]; rfl⟩
  · obtain ⟨hm, hcontains⟩ := List.mem_filter.1 h
    exact ⟨hm, by rw [hcontains, Bool.or_true]⟩

/-- An error leaves no launch consumed, unless a statement failed behind it. -/
def Refusable (k : Knows) : Prop := k.answered = false ∧ (k.consumed.isSome → k.failed = true)

theorem refusable_of_unspent {k : Knows} (hconsumed : k.consumed = none) (hanswered : k.answered = false) :
    Refusable k := ⟨hanswered, fun h => by rw [hconsumed] at h; cases h⟩

theorem obeys_consumeLaunch {id : Str} {k : Knows} {row : AccessGrant} (hrow : k.row = some (id, row))
    (hmappings : k.mappings.isSome) (hconsumed : k.consumed = none) (hanswered : k.answered = false) :
    Obeys discipline (consumeLaunch id) k fun k' r =>
      match r with
      | .ok _ => k'.consumed = some id ∧ k'.row = k.row ∧ k'.mappings = k.mappings ∧ k'.answered = false
      | .error _ => Refusable k' := by
  have hget : k.Allowed (.getGrant id) := by
    refine ⟨fun x hx => ?_, fun hnone => by rw [hrow] at hnone; cases hnone⟩
    obtain rfl := Option.some.inj (hrow.symm.trans hx)
    rfl
  refine Obeys.call_bind hconsumed (fun now => ?_) fun e =>
    refusable_of_unspent (k := k.fail) hconsumed hanswered
  have hnow : discipline.next k .now (.ok now) = { k with now := some now } := if_pos hmappings
  rw [hnow]
  refine Obeys.call_bind ⟨⟨row, hrow⟩, hmappings, rfl, hconsumed, hanswered⟩ (fun consumed => ?_) fun e =>
    refusable_of_unspent (k := Knows.fail _) hconsumed hanswered
  cases consumed with
  | true =>
      have hget' : Knows.Allowed { k with now := some now, consumed := some id } (.getGrant id) :=
        ⟨hget.1, fun hnone => by rw [show k.row = none from hnone] at hrow; cases hrow⟩
      refine (obeys_get hget').mono ?_
      rintro k' (e | grant) h
      · obtain rfl : k' = Knows.fail _ := h
        exact ⟨hanswered, fun _ => Knows.failed_fail rfl⟩
      · obtain rfl : k' = _ := h
        exact ⟨rfl, by rw [hrow]; rfl, rfl, hanswered⟩
  | false =>
      have hget' : Knows.Allowed { k with now := some now } (.getGrant id) :=
        ⟨hget.1, fun hnone => by rw [show k.row = none from hnone] at hrow; cases hrow⟩
      refine (obeys_get hget').bind ?_ ?_
      · rintro k' grant h
        obtain rfl : k' = _ := h
        exact refusable_of_unspent hconsumed hanswered
      · rintro k' e h
        obtain rfl : k' = Knows.fail _ := h
        exact refusable_of_unspent (k := Knows.fail _) hconsumed hanswered

theorem allowed_first (id : Str) : Knows.start.Allowed (.getGrant id) :=
  ⟨fun x hx => (by cases hx), fun _ => rfl⟩

theorem allowed_again (id : Str) (grant : AccessGrant) :
    Knows.Allowed { Knows.start with row := some (id, grant) } (.getGrant id) :=
  ⟨fun x hx => (by obtain rfl := Option.some.inj hx; rfl), fun hnone => (by cases hnone)⟩

theorem obeys_build (formatMicros : Int → Str) (grantId commandLabel : Str) :
    Obeys discipline (buildInjectionWithGrant formatMicros grantId commandLabel) Knows.start fun k r =>
      match r with
      | .ok injection => k.Allowed (.answer grantId (.ok injection))
      | .error _ => Refusable k := by
  refine (obeys_get (k := Knows.start) (allowed_first grantId)).bind ?_ ?_
  rotate_left
  · rintro k e rfl
    exact refusable_of_unspent (k := Knows.fail _) rfl rfl
  rintro k grant rfl
  refine Obeys.call_bind trivial (fun projectId => ?_) fun e =>
    refusable_of_unspent (k := Knows.fail _) rfl rfl
  refine Obeys.call_bind ⟨rfl, rfl⟩ (fun mappings => ?_) fun e =>
    refusable_of_unspent (k := Knows.fail _) rfl rfl
  dsimp only
  split
  · exact refusable_of_unspent rfl rfl
  · refine (obeys_consumeLaunch rfl rfl rfl rfl).bind ?_ fun _ _ herr => herr
    rintro k grant' ⟨hconsumed, hrow, hmappings, hanswered⟩
    have hsome : k.consumed.isSome := by rw [hconsumed]; rfl
    refine (behind_inject hsome hanswered formatMicros grantId commandLabel projectId grant' _).mono ?_
    rintro k' (e | injection) h
    · exact ⟨h.2, fun _ => h.1⟩
    · obtain ⟨rfl, henv⟩ := h
      refine ⟨hanswered, hconsumed, grant, mappings, hrow, hmappings, fun x hx => ?_⟩
      obtain ⟨m, hm, hvar⟩ := henv x hx
      obtain ⟨hmem, hallows⟩ := selected_allowed hm
      exact ⟨m, hmem, hvar, hallows⟩

theorem obeys_revoke (id : Str) :
    Obeys discipline (revoke id) Knows.start fun k _ => k.consumed = none := by
  have hget : ∀ k : Knows, k.consumed = none → k.Allowed (.getGrant id) →
      Obeys discipline (get id) k fun k' _ => k'.consumed = none := by
    intro k hconsumed hrow
    refine (obeys_get hrow).mono ?_
    rintro k' (e | grant) h
    · obtain rfl : k' = k.fail := h
      exact hconsumed
    · obtain rfl : k' = _ := h
      exact hconsumed
  refine (obeys_get (k := Knows.start) (allowed_first id)).bind ?_ ?_
  rotate_left
  · rintro k e rfl
    rfl
  rintro k grant rfl
  split
  · refine Obeys.call_bind rfl (fun now => ?_) fun _ => rfl
    refine Obeys.call_bind rfl (fun _ => ?_) fun _ => rfl
    exact hget _ rfl (allowed_again id grant)
  · exact hget _ rfl (allowed_again id grant)

theorem obeys_program (formatMicros : Int → Str) (op : Op) :
    Obeys discipline (program formatMicros op) Knows.start fun _ _ => True := by
  cases op with
  | build grantId commandLabel =>
      have hattempt : Obeys discipline
          (buildInjectionWithGrant formatMicros grantId commandLabel).attempt Knows.start
          fun k r => ∀ result, r = .ok result → k.Allowed (.answer grantId result) := by
        refine Obeys.attempt ((obeys_build formatMicros grantId commandLabel).mono ?_)
        rintro k (e | injection) h result hresult
        · obtain rfl := Except.ok.inj hresult
          exact h
        · obtain rfl := Except.ok.inj hresult
          exact h
      refine hattempt.bind (fun k result h => ?_) fun _ _ _ => trivial
      exact Obeys.call (h result rfl) fun _ => trivial
  | endGrant id =>
      have hend : Obeys discipline (accessGrantEnd id) Knows.start fun _ _ => True := by
        refine (obeys_revoke id).bind (fun k grant _ => ?_) fun _ _ _ => trivial
        refine Obeys.call_bind trivial (fun running => ?_) fun _ => trivial
        exact Obeys.call_bind trivial (fun _ => trivial) fun _ => trivial
      exact hend.bind (fun _ _ _ => trivial) fun _ _ _ => trivial
  | setClock t => exact Obeys.call rfl fun _ => trivial

/-! ## Steady runs -/

abbrev Process := Proc Answer CoreError Unit

/-- What a process knows. -/
def known (p : Process) : Knows := p.knows discipline Knows.start

/-- The call goes on: it did not crash, and has not returned. -/
def Running (p : Process) : Prop := p.prog.isSome = true ∧ (known p).answered = false

instance (p : Process) : Decidable (Running p) := inferInstanceAs (Decidable (_ ∧ _))

/-- A launch is consumed at an instant whose string is not crossed with that of the expiry; a grant is not
    revoked while a call is behind its consumed launch, nor does the clock then pass the expiry, from the
    instant on that the call read; and no statement behind a consumed launch fails. -/
def Steady (w : World State Answer CoreError Unit) (p : Process) : Event Answer CoreError → Prop
  | ⟨.consumeLaunch id now, .ok true⟩ => ∀ g ∈ w.state.grants id, ¬Crossed now g.expiresAt
  | ⟨.setRevoked id _, .ok _⟩ => ∀ q ∈ w.procs, Running q → (known q).consumed ≠ some id
  | ⟨.setClock t, .ok _⟩ => ∀ q ∈ w.procs, Running q → (known q).now.isSome → ∀ x ∈ (known q).row,
      w.state.clock < x.2.expiresAt → t < x.2.expiresAt
  | ⟨_, .error _⟩ => (known p).consumed = none
  | _ => True

/-- The part of a row that no call changes. -/
def AccessGrant.terms (g : AccessGrant) : AccessGrant := { g with launchesUsed := 0, revokedAt := none }

/-- What a call knows is so. -/
structure KnownOk (s : State) (running : Prop) (k : Knows) : Prop where
  failed : k.failed = false
  row : ∀ x ∈ k.row, (s.grants x.1).map AccessGrant.terms = some x.2.terms
  mappings : ∀ ms ∈ k.mappings, ∀ m ∈ ms, m ∈ s.mappings
  spent : ∀ id ∈ k.consumed, ∃ row t, k.row = some (id, row) ∧ k.now = some t ∧ t < row.expiresAt ∧
    (running → ∀ g ∈ s.grants id, g.revokedAt = none)
  clock : running → ∀ t ∈ k.now, ∀ x ∈ k.row, t < x.2.expiresAt → s.clock < x.2.expiresAt

/-- What a step may do to the state under a call that goes on. -/
structure Bears (s s' : State) (running : Prop) (k : Knows) : Prop where
  terms : ∀ id, (s'.grants id).map AccessGrant.terms = (s.grants id).map AccessGrant.terms
  mappings : s'.mappings = s.mappings
  revoked : running → ∀ id ∈ k.consumed, (∀ g ∈ s.grants id, g.revokedAt = none) →
    ∀ g ∈ s'.grants id, g.revokedAt = none
  clock : running → k.now.isSome → ∀ x ∈ k.row, s.clock < x.2.expiresAt → s'.clock < x.2.expiresAt

theorem KnownOk.frame {s s' : State} {running : Prop} {k : Knows} (h : KnownOk s running k)
    (hbears : Bears s s' running k) : KnownOk s' running k where
  failed := h.failed
  row x hx := (hbears.terms x.1).trans (h.row x hx)
  mappings ms hms m hm := hbears.mappings ▸ h.mappings ms hms m hm
  spent id hid := by
    obtain ⟨row, t, hrow, ht, hlt, hopen⟩ := h.spent id hid
    exact ⟨row, t, hrow, ht, hlt, fun hrun => hbears.revoked hrun id hid (hopen hrun)⟩
  clock hrun t ht x hx hlt :=
    hbears.clock hrun (Option.isSome_of_mem ht) x hx (h.clock hrun t ht x hx hlt)

theorem KnownOk.fail {s : State} {running : Prop} {k : Knows} (h : KnownOk s running k)
    (hconsumed : k.consumed = none) : KnownOk s running k.fail where
  failed := by simp [Knows.fail, hconsumed, h.failed]
  row := h.row
  mappings := h.mappings
  spent := h.spent
  clock := h.clock

theorem KnownOk.ended {s : State} {running running' : Prop} {k : Knows} (h : KnownOk s running k)
    (hended : running' → running) : KnownOk s running' k where
  failed := h.failed
  row := h.row
  mappings := h.mappings
  spent id hid := by
    obtain ⟨row, t, hrow, ht, hlt, hopen⟩ := h.spent id hid
    exact ⟨row, t, hrow, ht, hlt, fun hrun => hopen (hended hrun)⟩
  clock hrun := h.clock (hended hrun)

theorem terms_setGrant (s : State) (id : Str) {f : AccessGrant → AccessGrant}
    (hf : ∀ g, (f g).terms = g.terms) (id' : Str) :
    ((s.setGrant id f).grants id').map AccessGrant.terms = (s.grants id').map AccessGrant.terms := by
  by_cases hid : id' = id
  · subst hid
    simp [State.setGrant, hf, Function.comp_def]
  · simp [State.setGrant, hid]

/-- The rows keep their terms, and the mappings stay. -/
theorem effect_keeps (s : State) (a : Action) (r : Except CoreError (Answer a)) :
    (∀ id, ((effect s a r).grants id).map AccessGrant.terms = (s.grants id).map AccessGrant.terms) ∧
      (effect s a r).mappings = s.mappings := by
  unfold effect
  split
  · exact ⟨terms_setGrant s _ fun _ => rfl, rfl⟩
  · exact ⟨terms_setGrant s _ fun _ => rfl, rfl⟩
  · exact ⟨fun _ => rfl, rfl⟩
  · exact ⟨fun _ => rfl, rfl⟩
  · exact ⟨fun _ => rfl, rfl⟩

/-- A steady step bears on no call that goes on. -/
theorem bears_of_steady {w : World State Answer CoreError Unit} {p : Process} {a : Action}
    {r : Except CoreError (Answer a)} (hsteady : Steady w p ⟨a, r⟩) {q : Process} (hq : q ∈ w.procs) :
    Bears w.state (effect w.state a r) (Running q) (known q) := by
  obtain ⟨hterms, hmappings⟩ := effect_keeps w.state a r
  refine ⟨hterms, hmappings, fun hrun id hid hopen => ?_, fun hrun hnow x hx hlt => ?_⟩
  · unfold effect
    split
    · rename_i id' now
      by_cases hsame : id = id'
      · subst hsame
        intro g hg
        simp only [State.setGrant, Function.update_self, Option.mem_def, Option.map_eq_some_iff] at hg
        obtain ⟨g', hg', rfl⟩ := hg
        exact hopen g' hg'
      · intro g hg
        exact hopen g (by simpa [State.setGrant, hsame] using hg)
    · rename_i id' now x
      have hne : id ≠ id' := fun hsame => hsteady q hq hrun (hsame ▸ hid)
      intro g hg
      exact hopen g (by simpa [State.setGrant, hne] using hg)
    · exact hopen
    · exact hopen
    · exact hopen
  · unfold effect
    split
    · exact hlt
    · exact hlt
    · exact hlt
    · exact hsteady q hq hrun hnow x hx hlt
    · exact hlt

theorem consumable_iff {g : AccessGrant} {now : Timestamp} : g.consumable now = true ↔
    g.revokedAt = none ∧ now.toRfc3339 < g.expiresAt.toRfc3339 ∧
      (g.maxLaunches = 0 ∨ g.launchesUsed < g.maxLaunches) := by
  simp [AccessGrant.consumable, and_assoc]

theorem expiresAt_of_terms {s : State} {id : Str} {row g : AccessGrant}
    (h : (s.grants id).map AccessGrant.terms = some row.terms) (hg : s.grants id = some g) :
    g.expiresAt = row.expiresAt ∧ g.credentialIds = row.credentialIds := by
  rw [hg] at h
  have hterms : g.terms = row.terms := Option.some.inj h
  have hexpires : g.terms.expiresAt = row.terms.expiresAt := by rw [hterms]
  have hids : g.terms.credentialIds = row.terms.credentialIds := by rw [hterms]
  exact ⟨hexpires, hids⟩

/-- What a call knows stays so behind its own steady step. -/
theorem KnownOk.next {w : World State Answer CoreError Unit} {p : Process} {a : Action}
    {r : Except CoreError (Answer a)} (hsteady : Steady w p ⟨a, r⟩)
    {running : Prop} (h : KnownOk (effect w.state a r) running (known p)) (hallowed : (known p).Allowed a)
    (hreplies : Replies w.state a r) : KnownOk (effect w.state a r) running ((known p).next a r) := by
  generalize hk : known p = k at h hallowed ⊢
  cases r with
  | error e =>
      cases a with
      | answer id result => exact hreplies.elim
      | setClock t => exact hreplies.elim
      | _ => exact h.fail (hk ▸ hsteady)
  | ok x =>
      cases a with
      | getGrant id =>
          obtain rfl : x = w.state.grants id := hreplies
          have hstate : effect w.state (.getGrant id) (.ok (w.state.grants id)) = w.state := rfl
          rw [hstate] at h ⊢
          cases hgrant : w.state.grants id with
          | none =>
              refine h.fail ?_
              by_contra hsome
              -- the grant of a consumed launch is there
              obtain ⟨id', hid'⟩ := Option.ne_none_iff_exists'.1 hsome
              obtain ⟨row, t, hrow, -⟩ := h.spent id' hid'
              obtain rfl : id' = id := hallowed.1 _ hrow
              have hterms := h.row _ hrow
              rw [hgrant] at hterms
              cases hterms
          | some g =>
              have hrow : ∀ x ∈ k.row.or (some (id, g)), x ∈ k.row ∨ (k.row = none ∧ x = (id, g)) := by
                intro x hx
                cases hkrow : k.row with
                | none =>
                    rw [hkrow] at hx
                    exact .inr ⟨rfl, (Option.some.inj hx).symm⟩
                | some y =>
                    rw [hkrow] at hx
                    exact .inl hx
              refine ⟨h.failed, fun x hx => ?_, h.mappings, fun id' hid' => ?_, fun hrun t ht x hx hlt => ?_⟩
              · rcases hrow x hx with hx | ⟨-, rfl⟩
                · exact h.row x hx
                · show (w.state.grants id).map AccessGrant.terms = _
                  rw [hgrant]
                  rfl
              · obtain ⟨row, t, hkrow, ht, hlt, hopen⟩ := h.spent id' hid'
                exact ⟨row, t, by show k.row.or _ = _; rw [hkrow]; rfl, ht, hlt, hopen⟩
              · rcases hrow x hx with hx | ⟨hnone, rfl⟩
                · exact h.clock hrun t ht x hx hlt
                · have hnow := hallowed.2 hnone
                  rw [show k.now = some t from ht] at hnow
                  cases hnow
      | listMappings projectId =>
          obtain rfl : x = _ := hreplies
          refine ⟨h.failed, h.row, fun ms hms m hm => ?_, h.spent, h.clock⟩
          obtain rfl := Option.some.inj hms
          exact (List.mem_filter.1 hm).1
      | now =>
          -- The clock counts only when it is read behind the mappings.
          obtain rfl : x = w.state.clock := hreplies
          show KnownOk w.state running (if k.mappings.isSome then { k with now := some w.state.clock } else k)
          split
          · refine ⟨h.failed, h.row, h.mappings, fun id hid => ?_, fun _ t ht x hx hlt => ?_⟩
            · have hnone : k.consumed = none := hallowed
              rw [show k.consumed = some id from hid] at hnone
              cases hnone
            · obtain rfl := Option.some.inj ht
              exact hlt
          · exact h
      | consumeLaunch id now =>
          -- The consumption is conditional on the stored row, so it proves the grant open at `now`.
          cases x with
          | false => exact h
          | true =>
              obtain ⟨⟨row, hrow⟩, -, hnow, -⟩ := hallowed
              obtain ⟨g, hg, hconsumable⟩ := hreplies
              obtain ⟨hrevoked, htext, -⟩ := consumable_iff.1 hconsumable
              have hlt : now < g.expiresAt := (lt_iff_of_not_crossed (hsteady g hg)).1 htext
              have hafter : (w.state.setGrant id AccessGrant.consume).grants id = some g.consume := by
                simp [State.setGrant, hg]
              have hexpires := (expiresAt_of_terms (h.row _ hrow) hafter).1
              refine ⟨h.failed, h.row, h.mappings, fun id' hid' => ?_, h.clock⟩
              obtain rfl := Option.some.inj hid'
              refine ⟨row, now, hrow, hnow, hexpires ▸ hlt, fun _ g' hg' => ?_⟩
              obtain rfl := Option.some.inj (hafter.symm.trans hg')
              exact hrevoked
      | answer id result =>
          cases result with
          | ok injection => exact ⟨h.failed, h.row, h.mappings, h.spent, h.clock⟩
          | error e => exact ⟨h.failed, h.row, h.mappings, h.spent, h.clock⟩
      | _ => exact h

/-! ## The account -/

/-- The injections that were returned under a grant. -/
def State.injections (s : State) (id : Str) : Nat := s.returned.countP (·.id = id)

/-- The call consumed a launch of the grant and has not returned. -/
def holds (id : Str) (p : Process) : Bool :=
  (known p).consumed = some id && !(known p).answered

/-- The calls that hold a launch of the grant, those included that crashed with it. -/
def unfinished (procs : List Process) (id : Str) : Nat := procs.countP (holds id)

/-- The injection was returned while its grant was neither revoked nor expired, and has only variables
    that are mapped to credentials that the grant allows. -/
def Returned.Authorized (mappings : List EnvMapping) (r : Returned) : Prop :=
  ∃ g, r.row = some g ∧ g.revokedAt = none ∧ r.clock < g.expiresAt ∧
    ∀ x ∈ r.injection.env, ∃ m ∈ mappings, m.envVar = x.1 ∧ g.allows m.credentialId = true

/-- The call returned an error. -/
def Refused (p : Process) : Prop := ∃ id e r, (⟨.answer id (.error e), r⟩ : Event Answer CoreError) ∈ p.history

structure Inv (s₀ : State) (w : World State Answer CoreError Unit) : Prop where
  knows : ∀ p ∈ w.procs, KnownOk w.state (Running p) (known p)
  terms : ∀ id, (w.state.grants id).map AccessGrant.terms = (s₀.grants id).map AccessGrant.terms
  mappings : w.state.mappings = s₀.mappings
  used : ∀ id g₀ g, s₀.grants id = some g₀ → w.state.grants id = some g →
    g.launchesUsed = g₀.launchesUsed + (w.state.injections id + unfinished w.procs id : Nat)
  capped : ∀ id g, w.state.grants id = some g → 0 < g.maxLaunches → g.launchesUsed ≤ g.maxLaunches
  returned : ∀ r ∈ w.state.returned, r.Authorized s₀.mappings
  refused : ∀ p ∈ w.procs, Refused p → (known p).consumed = none ∧
    (known p).answered = true

theorem known_perform (p : Process) (next : Prog Unit) (e : Event Answer CoreError) :
    known (p.perform next e) = (known p).next e.1 e.2 :=
  Proc.knows_perform discipline Knows.start p next e

section Step

variable {s₀ : State} {w : World State Answer CoreError Unit} {i : Nat} {p : Process} {a : Action}
  {r : Except CoreError (Answer a)}

theorem unfinished_perform (hp : w.procs[i]? = some p) (next : Prog Unit) (e : Event Answer CoreError)
    (id : Str) : unfinished (w.procs.set i (p.perform next e)) id + (if holds id p then 1 else 0)
      = unfinished w.procs id + (if holds id (p.perform next e) then 1 else 0) := by
  obtain ⟨hi, hget⟩ := List.getElem?_eq_some_iff.1 hp
  have hmem : p ∈ w.procs := List.mem_of_getElem? hp
  unfold unfinished
  rw [List.countP_set hi, hget]
  split
  · have hpos : 0 < w.procs.countP (holds id) := List.countP_pos_iff.2 ⟨p, hmem, ‹_›⟩
    omega
  · omega

/-- Only a consumed launch and an answer change what a call holds. -/
theorem Knows.next_plain (k : Knows) (ha : ∀ id now, a ≠ .consumeLaunch id now)
    (hanswer : ∀ id result, a ≠ .answer id result) :
    (k.next a r).consumed = k.consumed ∧ (k.next a r).answered = k.answered := by
  cases a with
  | consumeLaunch id now => exact absurd rfl (ha id now)
  | answer id result => exact absurd rfl (hanswer id result)
  | getGrant id =>
      cases r with
      | error e => exact ⟨rfl, rfl⟩
      | ok grant => cases grant <;> exact ⟨rfl, rfl⟩
  | now =>
      cases r with
      | error e => exact ⟨rfl, rfl⟩
      | ok now =>
          simp only [Knows.next]
          split <;> exact ⟨rfl, rfl⟩
  | _ => cases r <;> exact ⟨rfl, rfl⟩

/-- A call that returned stays so. -/
theorem Knows.answered_next {k : Knows} (h : (k.next a r).answered = false) : k.answered = false := by
  cases a with
  | answer id result => cases h
  | consumeLaunch id now =>
      cases r with
      | error e => exact h
      | ok consumed => cases consumed <;> exact h
  | _ => exact ((k.next_plain (r := r) (by simp) (by simp)).2).symm.trans h

theorem Inv.knows_act (h : Inv s₀ w) (hp : w.procs[i]? = some p) (hprog : p.prog.isSome = true)
    (hallowed : (known p).Allowed a) (hreplies : Replies w.state a r)
    (hsteady : Steady w p ⟨a, r⟩) (next : Prog Unit) :
    ∀ q ∈ w.procs.set i (p.perform next ⟨a, r⟩),
      KnownOk (effect w.state a r) (Running q) (known q) := by
  intro q hq
  have hframe : ∀ q ∈ w.procs, KnownOk (effect w.state a r) (Running q) (known q) :=
    fun q hq => (h.knows q hq).frame (bears_of_steady hsteady hq)
  rcases List.mem_or_eq_of_mem_set hq with hq | rfl
  · exact hframe q hq
  · have hnext := (hframe p (List.mem_of_getElem? hp)).next hsteady hallowed hreplies
    rw [known_perform]
    refine hnext.ended fun hrun => ⟨hprog, ?_⟩
    have hanswered := hrun.2
    rw [known_perform] at hanswered
    exact Knows.answered_next hanswered

/-- The account of a step, from what it does to the rows, the returned injections and the call. -/
theorem Inv.account (h : Inv s₀ w) (hp : w.procs[i]? = some p) (hprog : p.prog.isSome = true)
    (hallowed : (known p).Allowed a) (hreplies : Replies w.state a r)
    (hsteady : Steady w p ⟨a, r⟩) (next : Prog Unit)
    (hlaunches : ∀ id g, (effect w.state a r).grants id = some g → ∃ g', w.state.grants id = some g' ∧
      g.maxLaunches = g'.maxLaunches ∧
      g.launchesUsed + (w.state.injections id + (if holds id p then 1 else 0) : Nat)
        = g'.launchesUsed + ((effect w.state a r).injections id +
            (if holds id (p.perform next ⟨a, r⟩) then 1 else 0) : Nat) ∧
      (0 < g.maxLaunches → g'.launchesUsed ≤ g'.maxLaunches → g.launchesUsed ≤ g.maxLaunches))
    (hreturned : ∀ x ∈ (effect w.state a r).returned, x ∈ w.state.returned ∨ x.Authorized s₀.mappings)
    (hrefused : Refused (p.perform next ⟨a, r⟩) →
      (known (p.perform next ⟨a, r⟩)).consumed = none ∧
        (known (p.perform next ⟨a, r⟩)).answered = true) :
    Inv s₀ (w.perform (effect w.state a r) i (p.perform next ⟨a, r⟩) ⟨a, r⟩) := by
  obtain ⟨hterms, hmappings⟩ := effect_keeps w.state a r
  refine ⟨h.knows_act hp hprog hallowed hreplies hsteady next, fun id => (hterms id).trans (h.terms id),
    hmappings.trans h.mappings, fun id g₀ g hg₀ hg => ?_, fun id g hg hpos => ?_, fun x hx => ?_,
    fun q hq => ?_⟩
  · obtain ⟨g', hg', -, hused, -⟩ := hlaunches id g hg
    have hbefore := h.used id g₀ g' hg₀ hg'
    have hcount := unfinished_perform hp next ⟨a, r⟩ id
    show g.launchesUsed = g₀.launchesUsed + ((effect w.state a r).injections id +
      unfinished (w.procs.set i (p.perform next ⟨a, r⟩)) id : Nat)
    omega
  · obtain ⟨g', hg', hmax, -, hcap⟩ := hlaunches id g hg
    exact hcap hpos (h.capped id g' hg' (hmax ▸ hpos))
  · rcases hreturned x hx with hx | hx
    · exact h.returned x hx
    · exact hx
  · rcases List.mem_or_eq_of_mem_set hq with hq | rfl
    · exact h.refused q hq
    · exact hrefused

theorem refused_perform {next : Prog Unit} (hanswer : ∀ id e, a ≠ .answer id (.error e))
    (h : Refused (p.perform next ⟨a, r⟩)) : Refused p := by
  obtain ⟨id, e, r', he⟩ := h
  rcases List.mem_append.1 he with he | he
  · exact ⟨id, e, r', he⟩
  · have hsame := List.mem_singleton.1 he
    exact absurd (congrArg Sigma.fst hsame).symm (hanswer id e)

theorem holds_of_unconsumed (h : (known p).consumed = none) (id : Str) : holds id p = false := by
  rw [holds, h]
  rfl

/-- An action that changes no launch and leaves what the call holds. -/
theorem Inv.act_plain (h : Inv s₀ w) (hp : w.procs[i]? = some p) (hprog : p.prog.isSome = true)
    (hallowed : (known p).Allowed a) (hreplies : Replies w.state a r)
    (hsteady : Steady w p ⟨a, r⟩) (next : Prog Unit)
    (hconsume : ∀ id now, a ≠ .consumeLaunch id now) (hanswer : ∀ id result, a ≠ .answer id result)
    (hrows : ∀ id g, (effect w.state a r).grants id = some g → ∃ g', w.state.grants id = some g' ∧
      g.maxLaunches = g'.maxLaunches ∧ g.launchesUsed = g'.launchesUsed)
    (hreturned : (effect w.state a r).returned = w.state.returned) :
    Inv s₀ (w.perform (effect w.state a r) i (p.perform next ⟨a, r⟩) ⟨a, r⟩) := by
  obtain ⟨hconsumed, hanswered⟩ := (known p).next_plain (r := r) hconsume hanswer
  have hholds : ∀ id, holds id (p.perform next ⟨a, r⟩) = holds id p := by
    intro id
    rw [holds, known_perform, hconsumed, hanswered, holds]
  refine h.account hp hprog hallowed hreplies hsteady next (fun id g hg => ?_)
    (fun x hx => .inl (hreturned ▸ hx)) (fun hrefused => ?_)
  · obtain ⟨g', hg', hmax, hused⟩ := hrows id g hg
    refine ⟨g', hg', hmax, ?_, fun _ hle => hmax ▸ hused ▸ hle⟩
    rw [hholds, hused, State.injections, State.injections, hreturned]
  · rw [known_perform, hconsumed, hanswered]
    exact h.refused p (List.mem_of_getElem? hp) (refused_perform (fun id e => hanswer id (.error e)) hrefused)

/-- A consumption: the call that had no launch holds one, or nothing changed. -/
theorem Inv.act_consumeLaunch {id : Str} {now : Timestamp} {r : Except CoreError Bool} (h : Inv s₀ w)
    (hp : w.procs[i]? = some p) (hprog : p.prog.isSome = true)
    (hallowed : (known p).Allowed (.consumeLaunch id now))
    (hreplies : Replies w.state (.consumeLaunch id now) r) (hsteady : Steady w p ⟨.consumeLaunch id now, r⟩)
    (next : Prog Unit) :
    Inv s₀ (w.perform (effect w.state (.consumeLaunch id now) r) i (p.perform next ⟨.consumeLaunch id now, r⟩)
      ⟨.consumeLaunch id now, r⟩) := by
  have ⟨_, _, _, hconsumed, hanswered⟩ := hallowed
  have hunspent := holds_of_unconsumed hconsumed
  have hnotRefused : ¬Refused (p.perform next ⟨.consumeLaunch id now, r⟩) := by
    intro hrefused
    have hdone := (h.refused p (List.mem_of_getElem? hp) (refused_perform (by simp) hrefused)).2
    rw [hanswered] at hdone
    cases hdone
  -- An update that matched no row changes nothing.
  have hsame : effect w.state (.consumeLaunch id now) r = w.state →
      (known (p.perform next ⟨.consumeLaunch id now, r⟩)).consumed = none →
      Inv s₀ (w.perform (effect w.state (.consumeLaunch id now) r) i
        (p.perform next ⟨.consumeLaunch id now, r⟩) ⟨.consumeLaunch id now, r⟩) := by
    intro hstate hnone
    refine h.account hp hprog hallowed hreplies hsteady next (fun id' g hg => ?_)
      (fun x hx => .inl (hstate ▸ hx)) fun hrefused => absurd hrefused hnotRefused
    rw [hstate] at hg
    refine ⟨g, hg, rfl, ?_, fun _ hle => hle⟩
    rw [hstate, holds_of_unconsumed hnone, hunspent]
  cases r with
  | error e => exact hsame rfl (by rw [known_perform]; exact hconsumed)
  | ok consumed =>
      cases consumed with
      | false => exact hsame rfl (by rw [known_perform]; exact hconsumed)
      | true =>
          have ⟨g, hg, hconsumable⟩ := hreplies
          obtain ⟨-, -, hroom⟩ := consumable_iff.1 hconsumable
          -- The launch is held by this process until it answers.
          have hholds : ∀ id', holds id' (p.perform next ⟨.consumeLaunch id now, .ok true⟩)
              = decide (id' = id) := by
            intro id'
            rw [holds, known_perform]
            show (decide (some id = some id') && !(known p).answered) = _
            rw [hanswered]
            simp [eq_comm]
          refine h.account hp hprog hallowed hreplies hsteady next
            (fun id' g' hg' => ?_) (fun x hx => .inl hx) fun hrefused => absurd hrefused hnotRefused
          rw [hunspent, hholds]
          by_cases hid : id' = id
          · subst hid
            simp only [effect, State.setGrant, Function.update_self, hg, Option.map_some] at hg'
            obtain rfl := Option.some.inj hg'
            refine ⟨g, hg, rfl, ?_, fun hpos _ => ?_⟩
            · simp [effect, State.setGrant, State.injections, AccessGrant.consume]
              omega
            · have hpos' : 0 < g.maxLaunches := hpos
              show g.launchesUsed + 1 ≤ g.maxLaunches
              omega
          · refine ⟨g', by simpa [effect, State.setGrant, hid] using hg', rfl, ?_, fun _ hle => hle⟩
            simp [effect, State.setGrant, State.injections, hid]

/-- After its answer a call holds nothing. -/
theorem holds_answered {id : Str} {result : Except CoreError GrantInjection} {x : Unit} (next : Prog Unit) (id' : Str) :
    holds id' (p.perform next ⟨.answer id result, .ok x⟩) = false := by
  rw [holds, known_perform]
  exact Bool.and_false _

theorem Inv.act_refuse {id : Str} {e : CoreError} {x : Unit} (h : Inv s₀ w) (hp : w.procs[i]? = some p)
    (hprog : p.prog.isSome = true) (hallowed : (known p).Allowed (.answer id (.error e)))
    (hreplies : Replies w.state (.answer id (.error e)) (.ok x))
    (hsteady : Steady w p ⟨.answer id (.error e), .ok x⟩) (next : Prog Unit) :
    Inv s₀ (w.perform (effect w.state (.answer id (.error e)) (.ok x)) i
      (p.perform next ⟨.answer id (.error e), .ok x⟩) ⟨.answer id (.error e), .ok x⟩) := by
  -- Nothing failed behind a consumed launch, so none was consumed.
  have hconsumed : (known p).consumed = none := by
    by_contra hsome
    have hfailed := hallowed.2 (Option.isSome_iff_ne_none.2 hsome)
    rw [(h.knows p (List.mem_of_getElem? hp)).failed] at hfailed
    cases hfailed
  refine h.account hp hprog hallowed hreplies hsteady next (fun id' g hg => ?_) (fun x hx => .inl hx) fun _ => ?_
  · refine ⟨g, hg, rfl, ?_, fun _ hle => hle⟩
    rw [holds_answered, holds_of_unconsumed hconsumed]
    rfl
  · rw [known_perform]
    exact ⟨hconsumed, rfl⟩

theorem Inv.act_return {id : Str} {injection : GrantInjection} {x : Unit} (h : Inv s₀ w) (hp : w.procs[i]? = some p)
    (hprog : p.prog.isSome = true) (hallowed : (known p).Allowed (.answer id (.ok injection)))
    (hreplies : Replies w.state (.answer id (.ok injection)) (.ok x))
    (hsteady : Steady w p ⟨.answer id (.ok injection), .ok x⟩) (next : Prog Unit) :
    Inv s₀ (w.perform (effect w.state (.answer id (.ok injection)) (.ok x)) i
      (p.perform next ⟨.answer id (.ok injection), .ok x⟩) ⟨.answer id (.ok injection), .ok x⟩) := by
  have hmem : p ∈ w.procs := List.mem_of_getElem? hp
  have ⟨hanswered, hconsumed, row, mappings, hrow, hmappings, henv⟩ := hallowed
  have hholds : ∀ id', holds id' p = decide (id' = id) := by
    intro id'
    rw [holds, hconsumed, hanswered]
    simp [eq_comm]
  -- What the process learned of the row still stands: its terms never change.
  have hauthorized : Returned.Authorized s₀.mappings ⟨id, injection, w.state.grants id, w.state.clock⟩ := by
    have hknows := h.knows p hmem
    have hrunning : Running p := ⟨hprog, hanswered⟩
    have hterms := hknows.row _ hrow
    obtain ⟨g, hg, -⟩ := Option.map_eq_some_iff.1 hterms
    obtain ⟨hexpires, hids⟩ := expiresAt_of_terms hterms hg
    obtain ⟨row', t, hrow', ht, hlt, hopen⟩ := hknows.spent id hconsumed
    obtain rfl : row = row' := congrArg Prod.snd (Option.some.inj (hrow.symm.trans hrow'))
    refine ⟨g, hg, hopen hrunning g hg, ?_, fun x hx => ?_⟩
    · rw [hexpires]
      exact hknows.clock hrunning t ht _ hrow hlt
    · obtain ⟨m, hm, hvar, hallows⟩ := henv x hx
      refine ⟨m, h.mappings ▸ hknows.mappings mappings hmappings m hm, hvar, ?_⟩
      rw [AccessGrant.allows, hids]
      exact hallows
  refine h.account hp hprog hallowed hreplies hsteady next (fun id' g hg => ?_) (fun y hy => ?_) fun hrefused => ?_
  · refine ⟨g, hg, rfl, ?_, fun _ hle => hle⟩
    rw [holds_answered, hholds]
    by_cases hid : id' = id
    · simp [effect, State.injections, hid]
    · simp [effect, State.injections, hid, Ne.symm hid]
  · rcases List.mem_append.1 hy with hy | hy
    · exact .inl hy
    · rw [List.mem_singleton.1 hy]
      exact .inr hauthorized
  · have hnone := (h.refused p hmem (refused_perform (by simp) hrefused)).1
    rw [hconsumed] at hnone
    cases hnone

/-- A revocation leaves the launches of every grant. -/
theorem launches_setRevoked {id : Str} {now : Timestamp} {x : Unit} (s : State) (id' : Str) (g : AccessGrant)
    (hg : (effect s (.setRevoked id now) (.ok x)).grants id' = some g) :
    ∃ g', s.grants id' = some g' ∧ g.maxLaunches = g'.maxLaunches ∧ g.launchesUsed = g'.launchesUsed := by
  by_cases hid : id' = id
  · subst hid
    simp only [effect, State.setGrant, Function.update_self, Option.map_eq_some_iff] at hg
    obtain ⟨g', hg', rfl⟩ := hg
    exact ⟨g', hg', rfl, rfl⟩
  · exact ⟨g, by simpa [effect, State.setGrant, hid] using hg, rfl, rfl⟩

theorem Inv.act (h : Inv s₀ w) (hp : w.procs[i]? = some p) (hprog : p.prog.isSome = true)
    (hallowed : (known p).Allowed a) (hreplies : Replies w.state a r)
    (hsteady : Steady w p ⟨a, r⟩) (next : Prog Unit) :
    Inv s₀ (w.perform (effect w.state a r) i (p.perform next ⟨a, r⟩) ⟨a, r⟩) := by
  have hplain := h.act_plain hp hprog hallowed hreplies hsteady next
  have hself : ∀ id g, w.state.grants id = some g → ∃ g', w.state.grants id = some g' ∧
      g.maxLaunches = g'.maxLaunches ∧ g.launchesUsed = g'.launchesUsed :=
    fun id g hg => ⟨g, hg, rfl, rfl⟩
  cases a with
  | consumeLaunch id now => exact h.act_consumeLaunch hp hprog hallowed hreplies hsteady next
  | answer id result =>
      cases r with
      | error e => exact hreplies.elim
      | ok x =>
          cases result with
          | error e => exact h.act_refuse hp hprog hallowed hreplies hsteady next
          | ok injection => exact h.act_return hp hprog hallowed hreplies hsteady next
  | setRevoked id now =>
      cases r with
      | error e => exact hplain (by simp) (by simp) hself rfl
      | ok x => exact hplain (by simp) (by simp) (launches_setRevoked w.state) rfl
  | setClock t =>
      cases r with
      | error e => exact hreplies.elim
      | ok x => exact hplain (by simp) (by simp) hself rfl
  | _ =>
      refine hplain (by simp) (by simp) ?_ ?_
      · cases r <;> exact hself
      · cases r <;> rfl

end Step

theorem Inv.procs {s₀ : State} {w : World State Answer CoreError Unit} (h : Inv s₀ w)
    {procs : List Process} (hcount : ∀ id, unfinished procs id = unfinished w.procs id)
    (hprocs : ∀ p ∈ procs, p.history = [] ∨ ∃ q ∈ w.procs, p.history = q.history ∧
      (Running p → Running q)) : Inv s₀ { w with procs } := by
  refine ⟨fun p hp => ?_, h.terms, h.mappings, fun id g₀ g hg₀ hg => ?_, h.capped, h.returned,
    fun p hp hrefused => ?_⟩
  · rcases hprocs p hp with hnil | ⟨q, hq, hsame, hrun⟩
    · have hstart : known p = Knows.start := by rw [known, Proc.knows, hnil]; rfl
      rw [hstart]
      exact ⟨rfl, fun _ hx => (by cases hx), fun _ hx => (by cases hx), fun _ hx => (by cases hx),
        fun _ _ hx => (by cases hx)⟩
    · have heq : known p = known q := by rw [known, known, Proc.knows, hsame]; rfl
      rw [heq]
      exact (h.knows q hq).ended hrun
  · show g.launchesUsed = g₀.launchesUsed + (w.state.injections id + unfinished procs id : Nat)
    rw [hcount]
    exact h.used id g₀ g hg₀ hg
  · rcases hprocs p hp with hnil | ⟨q, hq, hsame, -⟩
    · obtain ⟨id, e, r, he⟩ := hrefused
      rw [hnil] at he
      cases he
    · have heq : known p = known q := by rw [known, known, Proc.knows, hsame]; rfl
      rw [heq]
      refine h.refused q hq ?_
      obtain ⟨id, e, r, he⟩ := hrefused
      exact ⟨id, e, r, hsame ▸ he⟩

/-- A vault whose grants are within their limits, before any call. -/
structure State.Initial (s : State) : Prop where
  returned : s.returned = []
  capped : ∀ id g, s.grants id = some g → 0 < g.maxLaunches → g.launchesUsed ≤ g.maxLaunches

section Schedule

instance (w : World State Answer CoreError Unit) (p : Process) (e : Event Answer CoreError) :
    Decidable (Steady w p e) :=
  match e with
  | ⟨.consumeLaunch id now, .ok true⟩ =>
      inferInstanceAs (Decidable (∀ g ∈ w.state.grants id, ¬Crossed now g.expiresAt))
  | ⟨.setRevoked id _, .ok _⟩ =>
      inferInstanceAs (Decidable (∀ q ∈ w.procs, Running q → (known q).consumed ≠ some id))
  | ⟨.setClock t, .ok _⟩ =>
      inferInstanceAs (Decidable (∀ q ∈ w.procs, Running q → (known q).now.isSome →
        ∀ x ∈ (known q).row, w.state.clock < x.2.expiresAt → t < x.2.expiresAt))
  | ⟨.consumeLaunch .., .ok false⟩ | ⟨.now, .ok _⟩ | ⟨.getGrant _, .ok _⟩ | ⟨.projectRowByIdent _, .ok _⟩
  | ⟨.listMappings _, .ok _⟩ | ⟨.decryptValue _, .ok _⟩ | ⟨.startSession .., .ok _⟩ | ⟨.audit .., .ok _⟩
  | ⟨.setSessionGrant .., .ok _⟩ | ⟨.budgetCostSource, .ok _⟩ | ⟨.credentialReport .., .ok _⟩
  | ⟨.runningSessions _, .ok _⟩ | ⟨.answer .., .ok _⟩ => isTrue trivial
  | ⟨.consumeLaunch .., .error _⟩ | ⟨.now, .error _⟩ | ⟨.getGrant _, .error _⟩
  | ⟨.projectRowByIdent _, .error _⟩ | ⟨.listMappings _, .error _⟩ | ⟨.decryptValue _, .error _⟩
  | ⟨.startSession .., .error _⟩ | ⟨.audit .., .error _⟩ | ⟨.setSessionGrant .., .error _⟩
  | ⟨.budgetCostSource, .error _⟩ | ⟨.credentialReport .., .error _⟩ | ⟨.runningSessions _, .error _⟩
  | ⟨.answer .., .error _⟩ | ⟨.setRevoked .., .error _⟩ | ⟨.setClock _, .error _⟩ =>
      inferInstanceAs (Decidable ((known p).consumed = none))

/-- The reply of a statement that does not fail; a value is its credential. -/
def plainReply (s : State) : (a : Action) → Answer a
  | .now => s.clock
  | .getGrant id => s.grants id
  | .projectRowByIdent ident => ident
  | .listMappings projectId => s.mappings.filter (·.projectId = projectId)
  | .consumeLaunch id now => (s.grants id).any (·.consumable now)
  | .decryptValue credentialId => credentialId
  | .startSession _ _ _ => "s1".toList
  | .audit _ _ _ | .setSessionGrant _ _ | .setRevoked _ _ | .answer _ _ | .setClock _ => ()
  | .budgetCostSource => CostSource.bestAvailable
  | .credentialReport _ _ => (0 : Int)
  | .runningSessions _ => []

def reply (s : State) (a : Action) : Option (Answer a × State) :=
  some (plainReply s a, effect s a (.ok (plainReply s a)))

def mayFail : Action → Bool
  | .decryptValue _ => true
  | _ => false

variable {formatMicros : Int → Str}

theorem exec_reply (s : State) (a : Action) (x : Answer a × State) (h : reply s a = some x) :
    (system formatMicros).exec s a (.ok x.1) x.2 := by
  obtain rfl := Option.some.inj h
  refine ⟨?_, rfl⟩
  cases a with
  | consumeLaunch id now =>
      show Replies s (.consumeLaunch id now) (.ok ((s.grants id).any (·.consumable now)))
      cases hg : s.grants id with
      | none => exact fun g hg' => (by rw [hg] at hg'; cases hg')
      | some g =>
          show Replies s (.consumeLaunch id now) (.ok (g.consumable now))
          cases hopen : g.consumable now with
          | true => exact ⟨g, hg, hopen⟩
          | false =>
              intro g' hg'
              obtain rfl := Option.some.inj (hg.symm.trans hg')
              exact hopen
  | answer id result => cases result <;> trivial
  | now | getGrant _ | listMappings _ => exact rfl
  | _ => trivial

theorem exec_fail (s : State) (a : Action) (e : CoreError) (h : mayFail a = true) :
    (system formatMicros).exec s a (.error e) s := by
  cases a with
  | decryptValue credentialId => exact ⟨trivial, rfl⟩
  | _ => cases h

end Schedule

/-- Midnight, and the first minute of a day. -/
def midnight : Timestamp := .ofFields 2026 1 1 0 0 0 0 (by decide)

def firstMinute : Timestamp := .ofFields 2026 1 1 0 1 0 0 (by decide)

/-- A grant of one launch in the first minute of a day, for the one mapping of its project. -/
def oneLaunch : State where
  grants := fun id => if id = "g1".toList then
    some ⟨"p1".toList, [], [], firstMinute, 1, 0, none, none, midnight, none⟩ else none
  mappings := [⟨"p1".toList, "c1".toList, "key".toList, "API_KEY".toList⟩]
  clock := midnight
  returned := []

theorem oneLaunch_initial : oneLaunch.Initial where
  returned := rfl
  capped id g hg hpos := by
    simp only [oneLaunch] at hg
    split_ifs at hg
    obtain rfl := Option.some.inj hg
    decide

def build : Op := .build "g1".toList "cmd".toList

/-- The launches used, the injections returned, whether each was under a revoked grant, and whether a call
    holds a launch. -/
def account (w : World State Answer CoreError Unit) : Option Int × Nat × List Bool × Bool :=
  ((w.state.grants "g1".toList).map AccessGrant.launchesUsed, w.state.injections "g1".toList,
    w.state.returned.map fun r => r.row.any fun g => g.revokedAt.isSome, w.procs.any (holds "g1".toList))

end Tethra.AccessGrants
