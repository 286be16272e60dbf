import Tethra.Core.Pricing
import Tethra.Lib.Keyed

set_option autoImplicit false

/-! # The pricing store (`core/src/pricing.rs`)

The rows of `pricing_records`, the bundled rates beside them, and what a lookup resolves against. A row is written
under its provider and model in their normal form, by a manual override or by an import. -/

namespace Tethra.Pricing

open Observe

/-! ## Checks of a request -/

def require (holds : Bool) (message : Str) : Except CoreError PUnit :=
  if holds then .ok ⟨⟩ else .error (.invalidInput message)

/-- `validate_price`. -/
def validatePrice (name : String) (v : Option Int) : Except CoreError PUnit :=
  require (v.all (0 ≤ ·)) (name.toList ++ " must not be negative".toList)

/-- `validate_date`. -/
def validateDate (env : PricingEnv) (name v : Str) : Except CoreError PUnit :=
  require (env.parseUserDate v).isSome (name ++ " '".toList ++ v ++ "' is not a YYYY-MM-DD date".toList)

/-- A record of a unit needs a price in that unit. -/
def requirePriced (unit : Unit) (input output perRequest : Option Int) (tokens requests : Str) : Except CoreError PUnit :=
  match unit with
  | .tokens => require (input.isSome || output.isSome) tokens
  | .requests => require perRequest.isSome requests
  | .credits => .ok ⟨⟩

/-- A record of a unit has a price in that unit. -/
def priced (unit : Unit) (input output perRequest : Option Int) : Bool :=
  match unit with
  | .tokens => input.isSome || output.isSome
  | .requests => perRequest.isSome
  | .credits => true

@[simp] theorem require_eq_ok {holds : Bool} {message : Str} {u : PUnit} : require holds message = .ok u ↔ holds = true := by
  cases holds <;> simp [require]

@[simp] theorem validateDate_eq_ok {env : PricingEnv} {name v : Str} {u : PUnit} :
    validateDate env name v = .ok u ↔ (env.parseUserDate v).isSome = true := require_eq_ok

@[simp] theorem requirePriced_eq_ok {unit : Unit} {input output perRequest : Option Int} {tokens requests : Str} {u : PUnit} :
    requirePriced unit input output perRequest tokens requests = .ok u ↔ priced unit input output perRequest = true := by
  cases unit with
  | tokens => exact require_eq_ok
  | requests => exact require_eq_ok
  | credits => simp [requirePriced, priced]

/-! ## The rows -/

/-- A provider or a model, as the store writes it. -/
def PricingEnv.normal (env : PricingEnv) (s : Str) : Str := env.lowercase (Text.trim s)

def PricingRecord.Normal (env : PricingEnv) (r : PricingRecord) : Prop :=
  env.normal r.provider = r.provider ∧ env.normal r.model = r.model

instance (env : PricingEnv) (r : PricingRecord) : Decidable (r.Normal env) := inferInstanceAs (Decidable (_ ∧ _))

/-- `UNIQUE(provider, model, origin, effective_from)`. -/
def PricingRecord.key (r : PricingRecord) : Str × Str × Origin × Str :=
  (r.provider, r.model, r.origin, r.effectiveFrom)

/-- `upsert_record`; whether a row was replaced comes first. -/
def upsertRecord (db : List PricingRecord) (rec : PricingRecord) : Bool × List PricingRecord :=
  (db.any (·.key = rec.key), Keyed.upsert PricingRecord.key rec.key (fun _ => rec) rec db)

/-- `next_version`. -/
def nextVersion (db : List PricingRecord) (provider model : Str) : Int :=
  ((db.filter fun r => r.provider = provider && r.model = model).map (·.version)).foldr max 0 + 1

theorem version_lt_nextVersion {db : List PricingRecord} {r : PricingRecord} (hr : r ∈ db) :
    r.version < nextVersion db r.provider r.model := by
  have hle : ∀ vs : List Int, r.version ∈ vs → r.version ≤ vs.foldr max 0 := by
    intro vs hmem
    induction vs with
    | nil => cases hmem
    | cons v vs ih =>
        rcases List.mem_cons.1 hmem with rfl | hmem
        · exact le_max_left ..
        · exact (ih hmem).trans (le_max_right ..)
  exact Int.lt_add_one_of_le (hle _ (List.mem_map_of_mem (List.mem_filter.2 ⟨hr, by simp⟩)))

theorem mem_upsertRecord {db : List PricingRecord} {rec r : PricingRecord} (h : r ∈ (upsertRecord db rec).2) :
    r ∈ db ∨ r = rec := by
  rcases Keyed.mem_upsert h with h | ⟨_, -, -, rfl⟩ | rfl
  · exact .inl h
  · exact .inr rfl
  · exact .inr rfl

/-! ## Manual overrides -/

structure OverrideSpec where
  unit : Option Unit
  inputPricePerMMicros : Option Int
  cachedInputPricePerMMicros : Option Int
  outputPricePerMMicros : Option Int
  batchInputPricePerMMicros : Option Int
  batchOutputPricePerMMicros : Option Int
  perRequestMicros : Option Int
  effectiveFrom : Option Str
  note : Str

def epochDate : Str := "1970-01-01".toList

/-- The record of `set_override`; `today` is the date of the clock. -/
def overrideRecord (env : PricingEnv) (today : Str) (db : List PricingRecord) (provider model : Str)
    (spec : OverrideSpec) : Except CoreError PricingRecord := do
  let provider := env.normal provider
  let model := env.normal model
  require (provider ≠ [] ∧ model ≠ []) "provider and model must not be empty".toList
  validatePrice "input price" spec.inputPricePerMMicros
  validatePrice "cached input price" spec.cachedInputPricePerMMicros
  validatePrice "output price" spec.outputPricePerMMicros
  validatePrice "batch input price" spec.batchInputPricePerMMicros
  validatePrice "batch output price" spec.batchOutputPricePerMMicros
  validatePrice "per-request price" spec.perRequestMicros
  let unit := spec.unit.getD .tokens
  requirePriced unit spec.inputPricePerMMicros spec.outputPricePerMMicros spec.perRequestMicros
    "a token override needs an input and/or output price".toList "a request override needs a per-request price".toList
  let effectiveFrom := spec.effectiveFrom.getD epochDate
  (if effectiveFrom = epochDate then .ok ⟨⟩ else validateDate env "effective date".toList effectiveFrom)
  return {
    provider, model, unit
    inputPricePerMMicros := spec.inputPricePerMMicros
    cachedInputPricePerMMicros := spec.cachedInputPricePerMMicros
    outputPricePerMMicros := spec.outputPricePerMMicros
    batchInputPricePerMMicros := spec.batchInputPricePerMMicros
    batchOutputPricePerMMicros := spec.batchOutputPricePerMMicros
    perRequestMicros := spec.perRequestMicros
    currency := "USD".toList
    source := "manual override".toList ++ if spec.note = [] then [] else " (".toList ++ spec.note ++ ")".toList
    effectiveFrom
    lastVerified := today
    origin := .override
    version := nextVersion db provider model
    note := spec.note
    stale := false }

/-- `set_override`. -/
def setOverride (env : PricingEnv) (today : Str) (db : List PricingRecord) (provider model : Str)
    (spec : OverrideSpec) : Except CoreError (List PricingRecord) := do
  let rec ← overrideRecord env today db provider model spec
  return (upsertRecord db rec).2

/-- `remove_override`, with the number of rows that go. -/
def removeOverride (env : PricingEnv) (db : List PricingRecord) (provider model : Str) : Nat × List PricingRecord :=
  let removed (r : PricingRecord) : Bool :=
    r.provider = env.lowercase provider && r.model = env.lowercase model && r.origin = .override
  (db.countP removed, db.filter (!removed ·))

/-! ## The bundled rates -/

/-- Batch prices are half of the base rates. -/
def bundledRate (provider model effective : String) (input : Int) (cached : Option Int) (output : Int)
    (source : String) : PricingRecord where
  provider := provider.toList
  model := model.toList
  unit := .tokens
  inputPricePerMMicros := some input
  cachedInputPricePerMMicros := cached
  outputPricePerMMicros := some output
  batchInputPricePerMMicros := some (input.tdiv 2)
  batchOutputPricePerMMicros := some (output.tdiv 2)
  perRequestMicros := none
  currency := "USD".toList
  source := source.toList
  effectiveFrom := effective.toList
  lastVerified := "2026-07-18".toList
  origin := .bundled
  version := 2
  note :=
    if model = "claude-sonnet" ∨ model = "claude-haiku" then
      "family-level fallback rate for model ids without a specific entry".toList
    else []
  stale := false

def openaiRate (model : String) (input : Int) (cached : Option Int) (output : Int) : PricingRecord :=
  bundledRate "openai" model "2026-07-18" input cached output "https://developers.openai.com/api/docs/pricing"

def anthropicRate (model effective : String) (input : Int) (cached : Option Int) (output : Int) : PricingRecord :=
  bundledRate "anthropic" model effective input cached output "https://platform.claude.com/docs/en/about-claude/pricing"

def bundled : List PricingRecord := [
  openaiRate "gpt-5.6-sol" 5000000 (some 500000) 30000000,
  openaiRate "gpt-5.6-terra" 2500000 (some 250000) 15000000,
  openaiRate "gpt-5.6-luna" 1000000 (some 100000) 6000000,
  openaiRate "gpt-5.5-pro" 30000000 none 180000000,
  openaiRate "gpt-5.5" 5000000 (some 500000) 30000000,
  openaiRate "gpt-5.4-mini" 750000 (some 75000) 4500000,
  openaiRate "gpt-5.4-nano" 200000 (some 20000) 1250000,
  openaiRate "gpt-5.4-pro" 30000000 none 180000000,
  openaiRate "gpt-5.4" 2500000 (some 250000) 15000000,
  openaiRate "gpt-5.3-codex" 1750000 (some 175000) 14000000,
  openaiRate "gpt-4o-mini" 150000 none 600000,
  openaiRate "gpt-4o" 2500000 none 10000000,
  openaiRate "o4-mini" 1100000 none 4400000,
  anthropicRate "claude-fable-5" "2026-07-18" 10000000 (some 1000000) 50000000,
  anthropicRate "claude-opus-4-8" "2026-07-18" 5000000 (some 500000) 25000000,
  anthropicRate "claude-opus-4-7" "2026-07-18" 5000000 (some 500000) 25000000,
  anthropicRate "claude-opus-4-6" "2026-07-18" 5000000 (some 500000) 25000000,
  anthropicRate "claude-opus-4-5" "2026-07-18" 5000000 (some 500000) 25000000,
  anthropicRate "claude-opus-4-1" "2026-07-18" 15000000 (some 1500000) 75000000,
  anthropicRate "claude-opus-4-2025" "2026-07-18" 15000000 (some 1500000) 75000000,
  anthropicRate "claude-sonnet-5" "2026-07-18" 2000000 (some 200000) 10000000,
  anthropicRate "claude-sonnet-5" "2026-09-01" 3000000 (some 300000) 15000000,
  anthropicRate "claude-sonnet-4-6" "2026-07-18" 3000000 (some 300000) 15000000,
  anthropicRate "claude-sonnet-4-5" "2026-07-18" 3000000 (some 300000) 15000000,
  anthropicRate "claude-sonnet-4-2025" "2026-07-18" 3000000 (some 300000) 15000000,
  anthropicRate "claude-haiku-4-5" "2026-07-18" 1000000 (some 100000) 5000000,
  anthropicRate "claude-3-5-haiku" "2026-07-18" 800000 (some 80000) 4000000,
  anthropicRate "claude-sonnet" "2026-07-18" 3000000 (some 300000) 15000000,
  anthropicRate "claude-haiku" "2026-07-18" 800000 (some 80000) 4000000]

/-! ## Lookups -/

/-- Where a row stands in the order of provider, model and date. -/
def PricingRecord.place (r : PricingRecord) : Str ×ₗ Str ×ₗ Str := toLex (r.provider, toLex (r.model, r.effectiveFrom))

/-- `ORDER BY provider, model, effective_from`; rows that agree in these come in any order. -/
structure RowOrder where
  order : List PricingRecord → List PricingRecord
  perm : ∀ rows, (order rows).Perm rows
  sorted : ∀ rows, (order rows).Pairwise fun a b => a.place ≤ b.place

def loadDbRecords (query : RowOrder) (db : List PricingRecord) (provider : Option Str) : List PricingRecord :=
  query.order (db.filter fun r => provider.all (r.provider = ·))

/-- `candidates_for`; `provider` is normalized. -/
def candidatesFor (query : RowOrder) (db : List PricingRecord) (provider : Str) : List PricingRecord :=
  loadDbRecords query db (some provider) ++ bundled.filter fun r => r.provider = provider

/-- `lookup_as_of`; `normalize` resolves the aliases of providers, and `none` is the panic of `date_prefix`. -/
def lookupAsOf (env : PricingEnv) (normalize : Str → Str) (now : Str) (query : RowOrder) (db : List PricingRecord)
    (provider model asOf : Str) : Option (Option PricingRecord) :=
  chooseAsOf env now (candidatesFor query db (normalize provider)) model asOf

end Tethra.Pricing
