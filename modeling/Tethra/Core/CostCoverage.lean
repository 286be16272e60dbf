import Tethra.Core.ProjectActivity
import Tethra.Core.PricingEstimate

set_option autoImplicit false

/-! # The cost of a project and what it covers (`core/src/projectcost.rs`, `project_cost_coverage`)

The usage of a project is grouped by provider, model and day. A group leaves the loop by one of six exits: its requests
reported nothing, no record prices them for one of four reasons, or they are priced. Requests and tokens are conserved
over all of them (`project_cost_coverage_conserves`). -/

namespace Tethra.CostCoverage

open Usage Grouped Pricing
open ProjectActivity (ActivityFilter Window UsageRow limited maxGroups sqlSum dayOrder)

/-! ## Groups of usage -/

/-- A usage row with the column that only the cost reads. -/
structure CostRow extends UsageRow where
  cachedInputTokens : Option Int
  deriving DecidableEq, Repr

structure CostDb where
  activity : ProjectActivity.Db
  rows : List CostRow
  rows_usage : rows.map CostRow.toUsageRow = activity.usage

/-- `usage_scope`. -/
def costScope (db : CostDb) (w : Window) (f : ActivityFilter) : List CostRow :=
  db.rows.filter fun u => u.projectId = some w.project && w.has u.at_ &&
    (f.isEmpty || db.activity.events.any fun e =>
      u.eventId = some e.id && e.projectId = w.project && f.clauses db.activity e)

structure UsageGroup where
  provider : Str
  model : Option Str
  day : Str
  requests : Int
  withUsage : Int
  inputTokens : Option Int
  outputTokens : Option Int
  cachedInputTokens : Option Int
  deriving DecidableEq, Repr

def CostRow.reported (u : CostRow) : Bool := u.inputTokens.isSome || u.outputTokens.isSome

/-- A row of the query; `none` where a `SUM` overflows. -/
def loadGroup (group : (Str × Option Str × Str) × List CostRow) : Option UsageGroup := do
  let inputTokens ← sqlSum (group.2.map (·.inputTokens))
  let outputTokens ← sqlSum (group.2.map (·.outputTokens))
  let cachedInputTokens ← sqlSum (group.2.map (·.cachedInputTokens))
  return ⟨group.1.1, group.1.2.1, group.1.2.2, group.2.length, group.2.countP CostRow.reported, inputTokens, outputTokens,
    cachedInputTokens⟩

def costGroups (db : CostDb) (w : Window) (f : ActivityFilter) : List ((Str × Option Str × Str) × List CostRow) :=
  groups (fun u => (u.providerId, u.model, u.at_.take 10)) (costScope db w f)

/-- `load_groups`: one group more than the cap. -/
def loadGroups (db : CostDb) (w : Window) (f : ActivityFilter) : Option (List UsageGroup) :=
  (limited (maxGroups + 1) (fun a b => dayOrder (a.1, []) (b.1, [])) (costGroups db w f)).mapM loadGroup

/-! ## The coverage -/

inductive UnpricedReason where
  | noPricingRecord
  | modelNotDetected
  | usageNotExtracted
  | nonTokenUnit
  | unsupportedCurrency
  deriving DecidableEq, Repr

structure PricedUsage where
  provider : Str
  model : Str
  matchedModel : Str
  requests : Int
  inputTokens : Int
  outputTokens : Int
  micros : Int
  currency : Str
  pricingSource : Str
  effectiveFrom : Str
  lastVerified : Str
  stale : Bool
  isOverride : Bool
  note : Str
  complete : Bool
  unpricedDimensions : List String
  deriving DecidableEq, Repr

structure UnpricedUsage where
  provider : Str
  model : Option Str
  requests : Int
  inputTokens : Option Int
  outputTokens : Option Int
  reason : UnpricedReason
  deriving DecidableEq, Repr

/-- `ProjectCostCoverage`, without the ratio, which is a float. -/
structure ProjectCostCoverage where
  estimatedMicros : Int
  pricedRequests : Int
  pricedInputTokens : Int
  pricedOutputTokens : Int
  knownInputTokens : Int
  knownOutputTokens : Int
  unpricedRequests : Int
  unpricedTokens : Int
  requestsWithUnknownUsage : Int
  complete : Bool
  anyStalePricing : Bool
  truncated : Bool
  priced : List PricedUsage
  unpriced : List UnpricedUsage
  deriving DecidableEq, Repr

def estimateCurrency : Str := "USD".toList

/-- `i64::saturating_add`. -/
def saturatingAdd (a b : Int) : Int := max (-(2 ^ 63)) (min (2 ^ 63 - 1) (a + b))

/-- Known and unknown is unknown. -/
def mergeOptional : Option Int → Option Int → Option Int
  | none, v => v
  | some a, some b => some (addI64 a b)
  | some _, none => none

def UnpricedUsage.key (u : UnpricedUsage) : Str × Option Str × UnpricedReason := (u.provider, u.model, u.reason)

def PricedUsage.key (p : PricedUsage) : Str × Str := (p.provider, p.model)

def addUnpriced (acc : List UnpricedUsage) (provider : Str) (model : Option Str) (requests : Int)
    (inputTokens outputTokens : Option Int) (reason : UnpricedReason) : List UnpricedUsage :=
  let add (e : UnpricedUsage) : UnpricedUsage :=
    { e with
      requests := e.requests + requests
      inputTokens := mergeOptional e.inputTokens inputTokens
      outputTokens := mergeOptional e.outputTokens outputTokens }
  Keyed.upsert UnpricedUsage.key (provider, model, reason) add (add ⟨provider, model, 0, none, none, reason⟩) acc

def PricedUsage.add (e : PricedUsage) (requests billableInput output : Int) (est : CostEstimate) : PricedUsage :=
  { e with
    requests := e.requests + requests
    inputTokens := addI64 e.inputTokens billableInput
    outputTokens := addI64 e.outputTokens output
    micros := saturatingAdd e.micros est.micros
    stale := e.stale || est.stale
    complete := e.complete && est.complete
    unpricedDimensions :=
      if est.complete then e.unpricedDimensions
      else est.unpricedDimensions.foldl (fun dims dim => if dim ∈ dims then dims else dims ++ [dim]) e.unpricedDimensions }

/-- The row that is put in for a model. -/
def freshPriced (provider model : Str) (est : CostEstimate) : PricedUsage :=
  { provider, model
    matchedModel := est.matchedModel
    requests := 0
    inputTokens := 0
    outputTokens := 0
    micros := 0
    currency := est.currency
    pricingSource := est.pricingSource
    effectiveFrom := est.effectiveFrom
    lastVerified := est.lastVerified
    stale := est.stale
    isOverride := est.isOverride
    note := est.note
    complete := true
    unpricedDimensions := [] }

/-! ## The loop -/

section

variable (env : PricingEnv) (now : Str) (candidates : Str → List PricingRecord)

def UsageGroup.input (g : UsageGroup) : Int := g.inputTokens.getD 0

def UsageGroup.output (g : UsageGroup) : Int := g.outputTokens.getD 0

/-- `g.cached_input_tokens.unwrap_or(0).clamp(0, input)`. -/
def UsageGroup.cached (g : UsageGroup) : Int := max 0 (min g.input (g.cachedInputTokens.getD 0))

/-- How a group leaves the loop. -/
inductive Exit where
  | notReported
  | unpriced (reason : UnpricedReason)
  | priced (model : Str) (est : CostEstimate)
  deriving DecidableEq, Repr

/-- The exit of a group; `none` is a panic, at a cut inside a character or a `clamp` to less than nothing. -/
def exitOf (g : UsageGroup) : Option Exit :=
  if g.withUsage = 0 then some .notReported
  else
    match g.model with
    | none => some (.unpriced .modelNotDetected)
    | some model =>
        match chooseAsOf env now (candidates g.provider) model g.day with
        | none => none
        | some none => some (.unpriced .noPricingRecord)
        | some (some rec) =>
            if rec.currency ≠ estimateCurrency then some (.unpriced .unsupportedCurrency)
            else if g.input < 0 then none
            else
              match estimateTokenCostFrom rec (g.input - g.cached) g.output with
              | none => some (.unpriced .nonTokenUnit)
              | some est => some (.priced model est)

/-- The requests of a group that reported nothing. -/
def ProjectCostCoverage.addUnknown (out : ProjectCostCoverage) (g : UsageGroup) : ProjectCostCoverage :=
  let withoutUsage := max 0 (g.requests - g.withUsage)
  if 0 < withoutUsage then
    { out with
      requestsWithUnknownUsage := out.requestsWithUnknownUsage + withoutUsage
      complete := false
      unpriced := addUnpriced out.unpriced g.provider g.model withoutUsage none none .usageNotExtracted }
  else out

def ProjectCostCoverage.addKnown (out : ProjectCostCoverage) (g : UsageGroup) : ProjectCostCoverage :=
  { out with
    knownInputTokens := addI64 out.knownInputTokens g.input
    knownOutputTokens := addI64 out.knownOutputTokens g.output }

def ProjectCostCoverage.leaveUnpriced (out : ProjectCostCoverage) (g : UsageGroup) (reason : UnpricedReason) :
    ProjectCostCoverage :=
  { out with
    unpricedRequests := out.unpricedRequests + g.withUsage
    unpricedTokens := addI64 out.unpricedTokens (addI64 g.input g.output)
    complete := false
    unpriced := addUnpriced out.unpriced g.provider g.model g.withUsage (some g.input) (some g.output) reason }

def ProjectCostCoverage.price (out : ProjectCostCoverage) (g : UsageGroup) (model : Str) (est : CostEstimate) :
    ProjectCostCoverage :=
  let billableInput := g.input - g.cached
  let inputUnpriced : Bool := "input tokens" ∈ est.unpricedDimensions
  let outputUnpriced : Bool := "output tokens" ∈ est.unpricedDimensions
  let unpricedTokens := if inputUnpriced then addI64 out.unpricedTokens billableInput else out.unpricedTokens
  { out with
    estimatedMicros := saturatingAdd out.estimatedMicros est.micros
    pricedRequests := out.pricedRequests + g.withUsage
    pricedInputTokens := if inputUnpriced then out.pricedInputTokens else addI64 out.pricedInputTokens billableInput
    pricedOutputTokens := if outputUnpriced then out.pricedOutputTokens else addI64 out.pricedOutputTokens g.output
    unpricedTokens := if outputUnpriced then addI64 unpricedTokens g.output else unpricedTokens
    complete := out.complete && est.complete
    anyStalePricing := out.anyStalePricing || est.stale
    priced := Keyed.upsert PricedUsage.key (g.provider, model) (·.add g.withUsage billableInput g.output est)
      ((freshPriced g.provider model est).add g.withUsage billableInput g.output est) out.priced }

def ProjectCostCoverage.addGroup (out : ProjectCostCoverage) (g : UsageGroup) : Option ProjectCostCoverage :=
  (exitOf env now candidates g).map fun
    | .notReported => out.addUnknown g
    | .unpriced reason => ((out.addUnknown g).addKnown g).leaveUnpriced g reason
    | .priced model est => ((out.addUnknown g).addKnown g).price g model est

def ProjectCostCoverage.start (truncated : Bool) : ProjectCostCoverage :=
  { estimatedMicros := 0
    pricedRequests := 0
    pricedInputTokens := 0
    pricedOutputTokens := 0
    knownInputTokens := 0
    knownOutputTokens := 0
    unpricedRequests := 0
    unpricedTokens := 0
    requestsWithUnknownUsage := 0
    complete := !truncated
    anyStalePricing := false
    truncated
    priced := []
    unpriced := [] }

/-- The rows in their order on the page. -/
def ProjectCostCoverage.sorted (out : ProjectCostCoverage) : ProjectCostCoverage :=
  { out with
    priced := out.priced.insertionSort fun a b => b.micros < a.micros ∨ b.micros = a.micros ∧ a.model ≤ b.model
    unpriced := out.unpriced.insertionSort fun a b => b.requests < a.requests ∨ b.requests = a.requests ∧
      (a.provider < b.provider ∨ a.provider = b.provider ∧ ProjectActivity.modelLe a.model b.model = true) }

/-- `project_cost_coverage`; `none` where the query fails, or at a panic. -/
def projectCostCoverage (db : CostDb) (w : Window) (f : ActivityFilter) : Option ProjectCostCoverage := do
  let loaded ← loadGroups db w f
  let out ← (loaded.take maxGroups).foldlM (ProjectCostCoverage.addGroup env now candidates)
    (ProjectCostCoverage.start (decide (maxGroups < loaded.length)))
  return out.sorted

end

/-! ## Rows under a key -/

section

variable {α κ : Type} [DecidableEq κ] {key : α → κ} {k : κ} {f : α → α} {new : α} {xs : List α}

/-- An upsert that changes the element under the key by as much as the new element is worth. -/
theorem sum_upsert {v : α → Int} {d : Int} (hnodup : (xs.map key).Nodup)
    (hf : ∀ x ∈ xs, key x = k → v (f x) = v x + d) (hnew : v new = d) :
    ((Keyed.upsert key k f new xs).map v).sum = (xs.map v).sum + d := by
  unfold Keyed.upsert
  split
  · rename_i hany
    obtain ⟨x, hx, hk⟩ := List.any_eq_true.1 hany
    clear hany hnew
    induction xs with
    | nil => cases hx
    | cons y ys ih =>
        obtain ⟨hnot, hnodup⟩ := List.nodup_cons.1 hnodup
        have hcons : ((Keyed.modify key k f (y :: ys)).map v).sum
            = v (if key y = k then f y else y) + ((Keyed.modify key k f ys).map v).sum := rfl
        rw [hcons, List.map_cons, List.sum_cons]
        by_cases hy : key y = k
        · have hrest : Keyed.modify key k f ys = ys := by
            refine (List.map_congr_left fun z hz => if_neg fun hz' => ?_).trans (List.map_id _)
            exact hnot (List.mem_map.2 ⟨z, hz, hz'.trans hy.symm⟩)
          rw [if_pos hy, hrest, hf y List.mem_cons_self hy]
          ring
        · have hin : x ∈ ys := (List.mem_cons.1 hx).resolve_left fun h => hy (h ▸ of_decide_eq_true hk)
          rw [if_neg hy, ih hnodup (fun z hz => hf z (List.mem_cons_of_mem _ hz)) hin]
          ring
  · rw [List.map_append, List.sum_append, List.map_singleton, List.sum_singleton, hnew]

/-- What holds of all elements behind an upsert that adds a condition to the element under the key. -/
theorem forall_upsert {p : α → Prop} {q : Prop} (hf : ∀ x, p (f x) ↔ p x ∧ q) (hnew : p new ↔ q) :
    (∀ x ∈ Keyed.upsert key k f new xs, p x) ↔ (∀ x ∈ xs, p x) ∧ q := by
  unfold Keyed.upsert
  split
  · rename_i hany
    obtain ⟨y, hy, hk⟩ := List.any_eq_true.1 hany
    have hk := of_decide_eq_true hk
    constructor
    · intro h
      have hat : ∀ x ∈ xs, p (if key x = k then f x else x) := fun x hx => h _ (List.mem_map_of_mem hx)
      have hq := hat y hy
      rw [if_pos hk, hf] at hq
      refine ⟨fun x hx => ?_, hq.2⟩
      have hx' := hat x hx
      split_ifs at hx'
      · exact ((hf x).1 hx').1
      · exact hx'
    · rintro ⟨h, hq⟩ x hx
      obtain ⟨x', hx', rfl⟩ := List.mem_map.1 hx
      split_ifs
      · exact (hf x').2 ⟨h x' hx', hq⟩
      · exact h x' hx'
  · rw [List.forall_mem_append, List.forall_mem_singleton, hnew]

end

/-! ## Amounts -/

/-- What no estimate exceeds. -/
def estimateBound : Int := 2 * 9223372036855

theorem dimensionMicros_bound (tokens : Int) (price : Option Int) :
    -9223372036855 ≤ dimensionMicros tokens price ∧ dimensionMicros tokens price ≤ 9223372036855 := by
  have hlow : -(2 ^ 63) ≤ Budgets.saturatingMul tokens (price.getD 0) := le_max_left ..
  have hhigh : Budgets.saturatingMul tokens (price.getD 0) ≤ 2 ^ 63 - 1 := max_le (by omega) (min_le_left ..)
  unfold dimensionMicros
  generalize Budgets.saturatingMul tokens (price.getD 0) = product at hlow hhigh
  rcases le_total 0 product with hsign | hsign
  · rw [Int.tdiv_eq_ediv_of_nonneg hsign]
    omega
  · have hneg : product.tdiv 1000000 = -((-product) / 1000000) := by
      rw [← Int.tdiv_eq_ediv_of_nonneg (by omega), Int.neg_tdiv, neg_neg]
    rw [hneg]
    omega

theorem estimate_bound {rec : PricingRecord} {input output : Int} {est : CostEstimate}
    (h : estimateTokenCostFrom rec input output = some est) : -estimateBound ≤ est.micros ∧ est.micros ≤ estimateBound := by
  obtain ⟨-, -, hmicros, -⟩ := estimate_eq_some h
  have hinput := dimensionMicros_bound input rec.inputPricePerMMicros
  have houtput := dimensionMicros_bound output rec.outputPricePerMMicros
  rw [hmicros]
  unfold estimateBound
  omega

/-- Up to `n` estimates were added up. -/
def Within (n : Nat) (micros : Int) : Prop := -(n * estimateBound) ≤ micros ∧ micros ≤ n * estimateBound

theorem Within.mono {n : Nat} {micros : Int} (h : Within n micros) : Within (n + 1) micros := by
  unfold Within estimateBound at *
  push_cast
  omega

/-- Of as many groups as are read, the sum of the estimates is not cut off. -/
theorem Within.add {n : Nat} {micros more : Int} (h : Within n micros) (hmore : -estimateBound ≤ more ∧ more ≤ estimateBound)
    (hn : n < maxGroups) : saturatingAdd micros more = micros + more ∧ Within (n + 1) (micros + more) := by
  unfold Within saturatingAdd estimateBound at *
  unfold maxGroups at hn
  push_cast
  omega

/-! ## One group -/

section

variable {env : PricingEnv} {now : Str} {candidates : Str → List PricingRecord} {out out' : ProjectCostCoverage}
  {g : UsageGroup}

/-- The cache reads that are left out of what a group is priced for. -/
def cacheReads (env : PricingEnv) (now : Str) (candidates : Str → List PricingRecord) (g : UsageGroup) : Int :=
  match exitOf env now candidates g with
  | some (.priced _ _) => g.cached
  | _ => 0

/-- What an exit says of its group. -/
theorem exitOf_spec {exit : Exit} (h : exitOf env now candidates g = some exit) :
    match exit with
    | .notReported => g.withUsage = 0
    | .unpriced _ => g.withUsage ≠ 0
    | .priced _ est => g.withUsage ≠ 0 ∧ 0 ≤ g.input ∧
        ∃ rec, estimateTokenCostFrom rec (g.input - g.cached) g.output = some est := by
  unfold exitOf at h
  by_cases hused : g.withUsage = 0
  · rw [if_pos hused] at h
    obtain rfl := Option.some.inj h
    exact hused
  · rw [if_neg hused] at h
    cases hmodel : g.model with
    | none =>
        rw [hmodel] at h
        obtain rfl := Option.some.inj h
        exact hused
    | some model =>
        simp only [hmodel] at h
        cases hchosen : chooseAsOf env now (candidates g.provider) model g.day with
        | none =>
            rw [hchosen] at h
            cases h
        | some found =>
            rw [hchosen] at h
            cases found with
            | none =>
                obtain rfl := Option.some.inj h
                exact hused
            | some rec =>
                dsimp only at h
                by_cases hcurrency : rec.currency ≠ estimateCurrency
                · rw [if_pos hcurrency] at h
                  obtain rfl := Option.some.inj h
                  exact hused
                · rw [if_neg hcurrency] at h
                  by_cases hinput : g.input < 0
                  · rw [if_pos hinput] at h
                    cases h
                  · rw [if_neg hinput] at h
                    cases hest : estimateTokenCostFrom rec (g.input - g.cached) g.output with
                    | none =>
                        rw [hest] at h
                        obtain rfl := Option.some.inj h
                        exact hused
                    | some est =>
                        rw [hest] at h
                        obtain rfl := Option.some.inj h
                        exact ⟨hused, not_lt.1 hinput, rec, hest⟩

/-- The six exits. -/
theorem addGroup_cases (h : out.addGroup env now candidates g = some out') :
    (g.withUsage = 0 ∧ out' = out.addUnknown g ∧ cacheReads env now candidates g = 0) ∨
      (∃ reason, g.withUsage ≠ 0 ∧ out' = ((out.addUnknown g).addKnown g).leaveUnpriced g reason ∧
        cacheReads env now candidates g = 0) ∨
      ∃ model est rec, g.withUsage ≠ 0 ∧ 0 ≤ g.input ∧
        estimateTokenCostFrom rec (g.input - g.cached) g.output = some est ∧
        out' = ((out.addUnknown g).addKnown g).price g model est ∧ cacheReads env now candidates g = g.cached := by
  obtain ⟨exit, hexit, hout⟩ := Option.map_eq_some_iff.1 h
  unfold cacheReads
  rw [hexit]
  cases exit with
  | notReported => exact .inl ⟨exitOf_spec hexit, hout.symm, rfl⟩
  | unpriced reason => exact .inr (.inl ⟨reason, exitOf_spec hexit, hout.symm, rfl⟩)
  | priced model est =>
      obtain ⟨hused, hinput, rec, hest⟩ := exitOf_spec hexit
      exact .inr (.inr ⟨model, est, rec, hused, hinput, hest, hout.symm, rfl⟩)

/-- The requests with tokens are some of the requests. -/
def UsageGroup.Counted (g : UsageGroup) : Prop := 0 ≤ g.withUsage ∧ g.withUsage ≤ g.requests

variable (out) in
/-- What the first statements of the loop change. -/
theorem addUnknown_eq (hcounted : g.Counted) : ∃ rows, out.addUnknown g =
    { out with
      requestsWithUnknownUsage := out.requestsWithUnknownUsage + (g.requests - g.withUsage)
      complete := out.complete && decide (g.requests = g.withUsage)
      unpriced := rows } := by
  obtain ⟨-, hle⟩ := hcounted
  have hmax : max 0 (g.requests - g.withUsage) = g.requests - g.withUsage := max_eq_right (by omega)
  unfold ProjectCostCoverage.addUnknown
  dsimp only
  rw [hmax]
  by_cases hsome : 0 < g.requests - g.withUsage
  · have hne : g.requests ≠ g.withUsage := by omega
    refine ⟨addUnpriced out.unpriced g.provider g.model (g.requests - g.withUsage) none none .usageNotExtracted, ?_⟩
    rw [if_pos hsome, decide_eq_false hne, Bool.and_false]
  · have heq : g.requests = g.withUsage := by omega
    refine ⟨out.unpriced, ?_⟩
    rw [if_neg hsome, decide_eq_true heq, Bool.and_true, heq, sub_self, add_zero]

/-! ## What the loop conserves -/

/-- What holds once the groups were read. -/
structure Tally (env : PricingEnv) (now : Str) (candidates : Str → List PricingRecord) (gs : List UsageGroup)
    (out : ProjectCostCoverage) : Prop where
  requests : out.pricedRequests + out.unpricedRequests + out.requestsWithUnknownUsage = (gs.map UsageGroup.requests).sum
  tokens : out.knownInputTokens + out.knownOutputTokens ≡ out.pricedInputTokens + out.pricedOutputTokens
    + out.unpricedTokens + (gs.map (cacheReads env now candidates)).sum [ZMOD 2 ^ 64]
  estimate : out.estimatedMicros = (out.priced.map PricedUsage.micros).sum
  within : Within gs.length out.estimatedMicros
  rows : ∀ row ∈ out.priced, Within gs.length row.micros
  keys : (out.priced.map PricedUsage.key).Nodup
  unpriced : 0 ≤ out.unpricedRequests
  unknown : 0 ≤ out.requestsWithUnknownUsage
  complete : out.complete = true ↔ out.truncated = false ∧ out.unpricedRequests = 0 ∧ out.requestsWithUnknownUsage = 0 ∧
    ∀ row ∈ out.priced, row.complete = true

variable {gs : List UsageGroup}

theorem tally_start {truncated : Bool} : Tally env now candidates [] (.start truncated) where
  requests := rfl
  tokens := rfl
  estimate := rfl
  within := by simp [Within, ProjectCostCoverage.start]
  rows := fun _ h => absurd h List.not_mem_nil
  keys := List.nodup_nil
  unpriced := le_refl 0
  unknown := le_refl 0
  complete := by cases truncated <;> simp [ProjectCostCoverage.start]

/-- The requests that reported nothing. -/
theorem Tally.addUnknown (h : Tally env now candidates gs out) (hcounted : g.Counted) (hall : g.withUsage = 0)
    (hcache : cacheReads env now candidates g = 0) : Tally env now candidates (g :: gs) (out.addUnknown g) := by
  obtain ⟨rows, heq⟩ := addUnknown_eq out hcounted
  have hcomplete := h.complete
  have hunknown := h.unknown
  obtain ⟨hnonneg, hle⟩ := hcounted
  rw [heq]
  refine ⟨?_, ?_, h.estimate, h.within.mono, fun row hrow => (h.rows row hrow).mono, h.keys, h.unpriced, ?_, ?_⟩
  · have hrequests := h.requests
    simp only [List.map_cons, List.sum_cons]
    omega
  · simpa only [List.map_cons, List.sum_cons, hcache, zero_add] using h.tokens
  · dsimp only
    omega
  · dsimp only
    rw [Bool.and_eq_true, hcomplete, decide_eq_true_eq]
    constructor
    · rintro ⟨⟨ht, hu, hk, hrows⟩, hsame⟩
      exact ⟨ht, hu, by omega, hrows⟩
    · rintro ⟨ht, hu, hk, hrows⟩
      exact ⟨⟨ht, hu, by omega, hrows⟩, by omega⟩

/-- The requests of a group that no record prices. -/
theorem Tally.leaveUnpriced (h : Tally env now candidates gs out) (hcounted : g.Counted) (hused : g.withUsage ≠ 0)
    {reason : UnpricedReason} (hcache : cacheReads env now candidates g = 0) :
    Tally env now candidates (g :: gs) (((out.addUnknown g).addKnown g).leaveUnpriced g reason) := by
  obtain ⟨rows, heq⟩ := addUnknown_eq out hcounted
  have hunknown := h.unknown
  have hunpriced := h.unpriced
  obtain ⟨hnonneg, hle⟩ := hcounted
  rw [heq]
  unfold ProjectCostCoverage.addKnown ProjectCostCoverage.leaveUnpriced
  refine ⟨?_, ?_, h.estimate, h.within.mono, fun row hrow => (h.rows row hrow).mono, h.keys, ?_, ?_, ?_⟩
  · have hrequests := h.requests
    simp only [List.map_cons, List.sum_cons]
    omega
  · have hin := ProjectActivity.addI64_modEq out.knownInputTokens g.input
    have hout := ProjectActivity.addI64_modEq out.knownOutputTokens g.output
    have hboth := ProjectActivity.addI64_modEq g.input g.output
    have hleft := ProjectActivity.addI64_modEq out.unpricedTokens (addI64 g.input g.output)
    have htokens := h.tokens
    simp only [List.map_cons, List.sum_cons, hcache, zero_add]
    unfold Int.ModEq at *
    omega
  · dsimp only
    omega
  · dsimp only
    omega
  · refine iff_of_false (by simp) fun hnone => ?_
    have hzero := hnone.2.1
    dsimp only at hzero
    omega

/-- The requests of a group that are priced. -/
theorem Tally.price (h : Tally env now candidates gs out) (hcounted : g.Counted) {model : Str} {est : CostEstimate}
    {rec : PricingRecord} {input output : Int} (hest : estimateTokenCostFrom rec input output = some est)
    (hlength : gs.length < maxGroups) (hcache : cacheReads env now candidates g = g.cached) :
    Tally env now candidates (g :: gs) (((out.addUnknown g).addKnown g).price g model est) := by
  obtain ⟨rows, heq⟩ := addUnknown_eq out hcounted
  have hunknown := h.unknown
  have hunpriced := h.unpriced
  have hbound := estimate_bound hest
  obtain ⟨hnonneg, hle⟩ := hcounted
  have hadd : ∀ row ∈ out.priced, ∀ key, row.key = key →
      (row.add g.withUsage (g.input - g.cached) g.output est).micros = row.micros + est.micros :=
    fun row hrow _ _ => ((h.rows row hrow).add hbound hlength).1
  have hfresh : ((freshPriced g.provider model est).add g.withUsage (g.input - g.cached) g.output est).micros = est.micros ∧
      Within (gs.length + 1) est.micros := by
    have hzero : Within gs.length 0 := by simp [Within, estimateBound]
    obtain ⟨hsum, hwithin⟩ := hzero.add hbound hlength
    rw [zero_add] at hsum hwithin
    exact ⟨hsum, hwithin⟩
  rw [heq]
  unfold ProjectCostCoverage.addKnown ProjectCostCoverage.price
  refine ⟨?_, ?_, ?_, ?_, ?_, ?_, h.unpriced, ?_, ?_⟩
  · have hrequests := h.requests
    simp only [List.map_cons, List.sum_cons]
    omega
  · have hin := ProjectActivity.addI64_modEq out.knownInputTokens g.input
    have hout := ProjectActivity.addI64_modEq out.knownOutputTokens g.output
    have hpricedIn := ProjectActivity.addI64_modEq out.pricedInputTokens (g.input - g.cached)
    have hpricedOut := ProjectActivity.addI64_modEq out.pricedOutputTokens g.output
    have hleftIn := ProjectActivity.addI64_modEq out.unpricedTokens (g.input - g.cached)
    have hleftBoth := ProjectActivity.addI64_modEq (addI64 out.unpricedTokens (g.input - g.cached)) g.output
    have hleftOut := ProjectActivity.addI64_modEq out.unpricedTokens g.output
    have htokens := h.tokens
    simp only [List.map_cons, List.sum_cons, hcache]
    unfold Int.ModEq at *
    split_ifs <;> omega
  · dsimp only
    rw [(h.within.add hbound hlength).1, sum_upsert h.keys (fun row hrow hkey => hadd row hrow _ hkey) hfresh.1, h.estimate]
  · dsimp only
    rw [(h.within.add hbound hlength).1]
    exact (h.within.add hbound hlength).2
  · intro row hrow
    rcases Keyed.mem_upsert hrow with hrow | ⟨old, hold, hkey, rfl⟩ | rfl
    · exact (h.rows row hrow).mono
    · rw [hadd old hold _ hkey]
      exact ((h.rows old hold).add hbound hlength).2
    · rw [hfresh.1]
      exact hfresh.2
  · exact Keyed.nodup_keys_upsert (fun _ hkey => hkey) rfl h.keys
  · dsimp only
    omega
  · have hrows : ∀ row : PricedUsage, (row.add g.withUsage (g.input - g.cached) g.output est).complete = true ↔
        row.complete = true ∧ est.complete = true := fun row => Bool.and_eq_true_iff
    have hnew : ((freshPriced g.provider model est).add g.withUsage (g.input - g.cached) g.output est).complete = true ↔
        est.complete = true := (hrows _).trans ⟨fun h => h.2, fun h => ⟨rfl, h⟩⟩
    have hupsert := @forall_upsert _ _ _ PricedUsage.key (g.provider, model) _ _ out.priced
      (fun row : PricedUsage => row.complete = true) _ hrows hnew
    dsimp only at hupsert ⊢
    rw [hupsert, Bool.and_eq_true, Bool.and_eq_true, h.complete, decide_eq_true_eq]
    constructor
    · rintro ⟨⟨⟨ht, hu, hk, hall⟩, hsame⟩, hest⟩
      exact ⟨ht, hu, by omega, hall, hest⟩
    · rintro ⟨ht, hu, hk, hall, hest⟩
      exact ⟨⟨⟨ht, hu, by omega, hall⟩, by omega⟩, hest⟩

/-- One group. -/
theorem Tally.addGroup (h : Tally env now candidates gs out) (hcounted : g.Counted) (hlength : gs.length < maxGroups)
    (hout : out.addGroup env now candidates g = some out') : Tally env now candidates (g :: gs) out' := by
  rcases addGroup_cases hout with ⟨hused, rfl, hcache⟩ | ⟨reason, hused, rfl, hcache⟩ | ⟨model, est, rec, -, -, hest, rfl, hcache⟩
  · exact h.addUnknown hcounted hused hcache
  · exact h.leaveUnpriced hcounted hused hcache
  · exact h.price hcounted hest hlength hcache

/-- All groups up to the cap. -/
theorem tally_run {xs : List UsageGroup} (h : Tally env now candidates gs out) (hcounted : ∀ g ∈ xs, g.Counted)
    (hlength : xs.length + gs.length ≤ maxGroups)
    (hrun : xs.foldlM (ProjectCostCoverage.addGroup env now candidates) out = some out') :
    Tally env now candidates (xs.reverse ++ gs) out' := by
  induction xs generalizing gs out with
  | nil =>
      obtain rfl := Option.some.inj hrun
      exact h
  | cons g xs ih =>
      rw [List.foldlM_cons] at hrun
      obtain ⟨next, hnext, hrun⟩ := Option.bind_eq_some_iff.1 hrun
      obtain ⟨hg, hcounted⟩ := List.forall_mem_cons.1 hcounted
      rw [List.length_cons] at hlength
      have hall := ih (h.addGroup hg (by omega) hnext) hcounted (by rw [List.length_cons]; omega) hrun
      rwa [List.reverse_cons, List.append_assoc, List.singleton_append]

/-! ## Tokens that fit -/

def UsageGroup.tokens (g : UsageGroup) : Int := g.input + g.output

theorem addI64_eq {a b : Int} (h0 : 0 ≤ a + b) (h : a + b < 2 ^ 63) : addI64 a b = a + b := by
  have hfits := addI64_zero_of_fits h0 h
  rwa [addI64, zero_add] at hfits

theorem cached_bounds (h : 0 ≤ g.input) : 0 ≤ g.cached ∧ g.cached ≤ g.input := by
  unfold UsageGroup.cached
  omega

/-- As long as the tokens fit, nothing wraps around. -/
structure Whole (env : PricingEnv) (now : Str) (candidates : Str → List PricingRecord) (gs : List UsageGroup)
    (out : ProjectCostCoverage) : Prop where
  known : 0 ≤ out.knownInputTokens ∧ 0 ≤ out.knownOutputTokens
  fits : out.knownInputTokens + out.knownOutputTokens ≤ (gs.map UsageGroup.tokens).sum
  counted : 0 ≤ out.pricedInputTokens ∧ 0 ≤ out.pricedOutputTokens ∧ 0 ≤ out.unpricedTokens ∧
    0 ≤ (gs.map (cacheReads env now candidates)).sum
  tokens : out.knownInputTokens + out.knownOutputTokens = out.pricedInputTokens + out.pricedOutputTokens
    + out.unpricedTokens + (gs.map (cacheReads env now candidates)).sum

theorem whole_start {truncated : Bool} : Whole env now candidates [] (.start truncated) :=
  ⟨⟨le_refl 0, le_refl 0⟩, le_refl 0, ⟨le_refl 0, le_refl 0, le_refl 0, le_refl 0⟩, rfl⟩

theorem Whole.addGroup (h : Whole env now candidates gs out) (hcounted : g.Counted) (hinput : 0 ≤ g.input)
    (houtput : 0 ≤ g.output) (hfits : ((g :: gs).map UsageGroup.tokens).sum < 2 ^ 63)
    (hout : out.addGroup env now candidates g = some out') : Whole env now candidates (g :: gs) out' := by
  obtain ⟨⟨hki, hko⟩, hle, ⟨hpi, hpo, hun, hca⟩, htokens⟩ := h
  obtain ⟨rows, heq⟩ := addUnknown_eq out hcounted
  have hcached := cached_bounds hinput
  rw [List.map_cons, List.sum_cons] at hfits
  have hg : g.tokens = g.input + g.output := rfl
  rw [hg] at hfits
  have hknownIn := addI64_eq (a := out.knownInputTokens) (b := g.input) (by omega) (by omega)
  have hknownOut := addI64_eq (a := out.knownOutputTokens) (b := g.output) (by omega) (by omega)
  rcases addGroup_cases hout with ⟨-, rfl, hcache⟩ | ⟨reason, -, rfl, hcache⟩ | ⟨model, est, rec, -, -, -, rfl, hcache⟩
  · rw [heq]
    refine ⟨⟨hki, hko⟩, ?_, ⟨hpi, hpo, hun, ?_⟩, ?_⟩ <;> simp only [List.map_cons, List.sum_cons, hg, hcache] <;> omega
  · rw [heq]
    have hboth := addI64_eq (a := g.input) (b := g.output) (by omega) (by omega)
    have hleft := addI64_eq (a := out.unpricedTokens) (b := g.input + g.output) (by omega) (by omega)
    unfold ProjectCostCoverage.addKnown ProjectCostCoverage.leaveUnpriced
    refine ⟨⟨?_, ?_⟩, ?_, ⟨hpi, hpo, ?_, ?_⟩, ?_⟩ <;> simp only [List.map_cons, List.sum_cons, hg, hcache, hboth] <;> omega
  · rw [heq]
    have hpricedIn := addI64_eq (a := out.pricedInputTokens) (b := g.input - g.cached) (by omega) (by omega)
    have hpricedOut := addI64_eq (a := out.pricedOutputTokens) (b := g.output) (by omega) (by omega)
    have hleftIn := addI64_eq (a := out.unpricedTokens) (b := g.input - g.cached) (by omega) (by omega)
    have hleftOut := addI64_eq (a := out.unpricedTokens) (b := g.output) (by omega) (by omega)
    have hleftBoth := addI64_eq (a := out.unpricedTokens + (g.input - g.cached)) (b := g.output) (by omega) (by omega)
    unfold ProjectCostCoverage.addKnown ProjectCostCoverage.price
    refine ⟨⟨?_, ?_⟩, ?_, ⟨?_, ?_, ?_, ?_⟩, ?_⟩ <;> simp only [List.map_cons, List.sum_cons, hg, hcache]
    all_goals try split_ifs
    all_goals try simp only [hknownIn, hknownOut, hpricedIn, hpricedOut, hleftIn, hleftOut, hleftBoth]
    all_goals clear hknownIn hknownOut hpricedIn hpricedOut hleftIn hleftOut hleftBoth; omega

theorem whole_run {xs : List UsageGroup} (h : Whole env now candidates gs out) (hcounted : ∀ g ∈ xs, g.Counted)
    (hnonneg : ∀ g ∈ xs, 0 ≤ g.input ∧ 0 ≤ g.output)
    (hfits : (xs.map UsageGroup.tokens).sum + (gs.map UsageGroup.tokens).sum < 2 ^ 63)
    (hrun : xs.foldlM (ProjectCostCoverage.addGroup env now candidates) out = some out') :
    Whole env now candidates (xs.reverse ++ gs) out' := by
  induction xs generalizing gs out with
  | nil =>
      obtain rfl := Option.some.inj hrun
      exact h
  | cons g xs ih =>
      rw [List.foldlM_cons] at hrun
      obtain ⟨next, hnext, hrun⟩ := Option.bind_eq_some_iff.1 hrun
      obtain ⟨hg, hcounted⟩ := List.forall_mem_cons.1 hcounted
      obtain ⟨⟨hinput, houtput⟩, hnonneg⟩ := List.forall_mem_cons.1 hnonneg
      have hrest : 0 ≤ (xs.map UsageGroup.tokens).sum := by
        refine List.sum_nonneg fun n hn => ?_
        obtain ⟨g', hg', rfl⟩ := List.mem_map.1 hn
        exact add_nonneg (hnonneg g' hg').1 (hnonneg g' hg').2
      rw [List.map_cons, List.sum_cons] at hfits
      have hone := h.addGroup hg hinput houtput (by rw [List.map_cons, List.sum_cons]; omega) hnext
      have hall := ih hone hcounted hnonneg (by rw [List.map_cons, List.sum_cons]; omega) hrun
      rwa [List.reverse_cons, List.append_assoc, List.singleton_append]

end

/-! ## The groups of the scope -/

section

variable {db : CostDb} {w : Window} {f : ActivityFilter}

/-- The tokens that a row reports. -/
def CostRow.tokens (u : CostRow) : Int := u.inputTokens.getD 0 + u.outputTokens.getD 0

structure CostRow.NonNegative (u : CostRow) : Prop where
  input : 0 ≤ u.inputTokens.getD 0
  output : 0 ≤ u.outputTokens.getD 0

theorem loadGroup_spec {group : (Str × Option Str × Str) × List CostRow} {g : UsageGroup} (h : loadGroup group = some g) :
    g.requests = group.2.length ∧ g.withUsage = group.2.countP CostRow.reported ∧
      g.input = (group.2.map fun u => u.inputTokens.getD 0).sum ∧
      g.output = (group.2.map fun u => u.outputTokens.getD 0).sum := by
  obtain ⟨input, hinput, h⟩ := Option.bind_eq_some_iff.1 h
  obtain ⟨output, houtput, h⟩ := Option.bind_eq_some_iff.1 h
  obtain ⟨cached, -, h⟩ := Option.bind_eq_some_iff.1 h
  cases h
  refine ⟨rfl, rfl, (ProjectActivity.sqlSum_getD hinput).trans ?_, (ProjectActivity.sqlSum_getD houtput).trans ?_⟩
  · rw [ProjectActivity.known, List.map_map]
    rfl
  · rw [ProjectActivity.known, List.map_map]
    rfl

theorem loadGroup_counted {group : (Str × Option Str × Str) × List CostRow} {g : UsageGroup} (h : loadGroup group = some g) :
    g.Counted := by
  obtain ⟨hrequests, hused, -⟩ := loadGroup_spec h
  have hle := List.countP_le_length (p := CostRow.reported) (l := group.2)
  unfold UsageGroup.Counted
  omega

theorem mem_mapM {α β : Type} {f : α → Option β} {xs : List α} {ys : List β} (h : xs.mapM f = some ys) {y : β}
    (hy : y ∈ ys) : ∃ x ∈ xs, f x = some y := by
  induction xs generalizing ys with
  | nil =>
      rw [List.mapM_nil] at h
      cases h
      cases hy
  | cons x xs ih =>
      rw [List.mapM_cons] at h
      obtain ⟨b, hb, h⟩ := Option.bind_eq_some_iff.1 h
      obtain ⟨bs, hbs, h⟩ := Option.bind_eq_some_iff.1 h
      cases h
      rcases List.mem_cons.1 hy with rfl | hy
      · exact ⟨x, List.mem_cons_self, hb⟩
      · obtain ⟨x', hx', hfx⟩ := ih hbs hy
        exact ⟨x', List.mem_cons_of_mem _ hx', hfx⟩

theorem mem_costScope_of_group {n : Nat} {before : _ → _ → Bool} {group : (Str × Option Str × Str) × List CostRow}
    (h : group ∈ limited n before (costGroups db w f)) {u : CostRow} (hu : u ∈ group.2) : u ∈ costScope db w f := by
  have hgroup : group ∈ costGroups db w f := (List.mem_insertionSort _).1 (List.mem_of_mem_take h)
  obtain ⟨key, -, rfl⟩ := List.mem_map.1 hgroup
  exact List.mem_of_mem_filter hu

variable {loaded : List UsageGroup} (hloaded : loadGroups db w f = some loaded) (hcap : loaded.length ≤ maxGroups)
include hloaded hcap

/-- Under the cap, every group is loaded. -/
theorem length_costGroups : (costGroups db w f).length ≤ maxGroups + 1 := by
  have hlength : loaded.length = (limited (maxGroups + 1) (fun a b => dayOrder (a.1, []) (b.1, [])) (costGroups db w f)).length := by
    have hmap := congrArg List.length (ProjectActivity.map_of_mapM (q := fun _ => ()) (r := fun _ => ()) hloaded fun _ _ _ => rfl)
    rwa [List.length_map, List.length_map] at hmap
  rw [limited, List.length_take, List.length_insertionSort] at hlength
  omega

theorem sum_requests_loaded : (loaded.map UsageGroup.requests).sum = (costScope db w f).length := by
  have hmap := ProjectActivity.map_of_mapM (q := fun group => (group.2.countP (fun _ => true) : Int)) (r := UsageGroup.requests)
    hloaded
    fun group g h => by rw [(loadGroup_spec h).1, List.countP_true]
  rw [hmap, ProjectActivity.sum_limited (length_costGroups hloaded hcap), costGroups, sum_countP_groups, List.countP_true]

theorem sum_tokens_loaded : (loaded.map UsageGroup.tokens).sum = ((costScope db w f).map CostRow.tokens).sum := by
  have hmap := ProjectActivity.map_of_mapM (q := fun group => (group.2.map CostRow.tokens).sum) (r := UsageGroup.tokens) hloaded
    fun group g h => by
      obtain ⟨-, -, hinput, houtput⟩ := loadGroup_spec h
      rw [UsageGroup.tokens, hinput, houtput, ← List.sum_map_add]
      rfl
  rw [hmap, ProjectActivity.sum_limited (length_costGroups hloaded hcap), costGroups, sum_groups]

end

/-! ## Conservation -/

/-- Where the usage of a scope went. -/
structure ProjectCostCoverage.Conserves (env : PricingEnv) (now : Str) (candidates : Str → List PricingRecord) (db : CostDb)
    (w : Window) (f : ActivityFilter) (out : ProjectCostCoverage) : Prop where
  /-- Every request is priced, unpriced, or of unknown usage. -/
  requests : out.pricedRequests + out.unpricedRequests + out.requestsWithUnknownUsage = (costScope db w f).length
  /-- In 64 bits, the known tokens are the priced, the unpriced and the cache reads that are left out. -/
  tokens : out.knownInputTokens + out.knownOutputTokens ≡ out.pricedInputTokens + out.pricedOutputTokens
    + out.unpricedTokens + (((loadGroups db w f).getD []).map (cacheReads env now candidates)).sum [ZMOD 2 ^ 64]
  /-- And they are so exactly, if those that were reported fit. -/
  tokens_exact : (∀ u ∈ costScope db w f, u.NonNegative) → ((costScope db w f).map CostRow.tokens).sum < 2 ^ 63 →
    out.knownInputTokens + out.knownOutputTokens = out.pricedInputTokens + out.pricedOutputTokens
      + out.unpricedTokens + (((loadGroups db w f).getD []).map (cacheReads env now candidates)).sum
  estimate : out.estimatedMicros = (out.priced.map PricedUsage.micros).sum
  complete : out.complete = true ↔ out.unpricedRequests = 0 ∧ out.requestsWithUnknownUsage = 0 ∧
    (∀ row ∈ out.priced, row.complete = true) ∧ out.truncated = false

section

variable {env : PricingEnv} {now : Str} {candidates : Str → List PricingRecord} {out out' : ProjectCostCoverage}

theorem truncated_addGroup {g : UsageGroup} (h : out.addGroup env now candidates g = some out') :
    out'.truncated = out.truncated := by
  have hunknown : (out.addUnknown g).truncated = out.truncated := by
    unfold ProjectCostCoverage.addUnknown
    dsimp only
    split <;> rfl
  rcases addGroup_cases h with ⟨-, rfl, -⟩ | ⟨reason, -, rfl, -⟩ | ⟨model, est, rec, -, -, -, rfl, -⟩
  · exact hunknown
  · exact hunknown
  · exact hunknown

theorem truncated_run {xs : List UsageGroup} (h : xs.foldlM (ProjectCostCoverage.addGroup env now candidates) out = some out') :
    out'.truncated = out.truncated := by
  induction xs generalizing out with
  | nil =>
      obtain rfl := Option.some.inj h
      rfl
  | cons g xs ih =>
      rw [List.foldlM_cons] at h
      obtain ⟨next, hnext, h⟩ := Option.bind_eq_some_iff.1 h
      exact (ih h).trans (truncated_addGroup hnext)

/-- Under the cap, no request and no token is counted twice or lost, the amount is that of the priced rows, and it is
    complete exactly when they cover everything. -/
theorem project_cost_coverage_conserves {db : CostDb} {w : Window} {f : ActivityFilter}
    (h : projectCostCoverage env now candidates db w f = some out) (hcap : out.truncated = false) :
    out.Conserves env now candidates db w f := by
  obtain ⟨loaded, hloaded, h⟩ := Option.bind_eq_some_iff.1 h
  obtain ⟨read, hread, h⟩ := Option.bind_eq_some_iff.1 h
  obtain rfl := Option.some.inj h
  have htruncated : read.truncated = decide (maxGroups < loaded.length) := truncated_run hread
  have hlength : loaded.length ≤ maxGroups := by
    have hnot : ¬maxGroups < loaded.length := of_decide_eq_false (htruncated.symm.trans hcap)
    omega
  rw [List.take_of_length_le hlength] at hread
  have hcounted : ∀ g ∈ loaded, g.Counted := by
    intro g hg
    obtain ⟨group, -, hgroup⟩ := mem_mapM hloaded hg
    exact loadGroup_counted hgroup
  have htally := tally_run tally_start hcounted (by simpa using hlength) hread
  rw [List.append_nil] at htally
  have hreverse : ∀ v : UsageGroup → Int, (loaded.reverse.map v).sum = (loaded.map v).sum :=
    fun v => ((List.reverse_perm loaded).map v).sum_eq
  have hperm := List.perm_insertionSort (fun a b : PricedUsage => b.micros < a.micros ∨ b.micros = a.micros ∧ a.model ≤ b.model)
    read.priced
  have hrequests := htally.requests
  have htokens := htally.tokens
  rw [hreverse] at hrequests htokens
  refine ⟨?_, ?_, fun hnonneg hfits => ?_, ?_, ?_⟩
  · exact hrequests.trans (sum_requests_loaded hloaded hlength)
  · rw [hloaded]
    exact htokens
  · have hgroups : ∀ g ∈ loaded, 0 ≤ g.input ∧ 0 ≤ g.output := by
      intro g hg
      obtain ⟨group, hgroup, hg⟩ := mem_mapM hloaded hg
      obtain ⟨-, -, hinput, houtput⟩ := loadGroup_spec hg
      have hrows : ∀ u ∈ group.2, u.NonNegative := fun u hu => hnonneg u (mem_costScope_of_group hgroup hu)
      rw [hinput, houtput]
      constructor
      · refine List.sum_nonneg fun n hn => ?_
        obtain ⟨u, hu, rfl⟩ := List.mem_map.1 hn
        exact (hrows u hu).input
      · refine List.sum_nonneg fun n hn => ?_
        obtain ⟨u, hu, rfl⟩ := List.mem_map.1 hn
        exact (hrows u hu).output
    have hwhole := whole_run whole_start hcounted hgroups
      (by rw [sum_tokens_loaded hloaded hlength]; simpa using hfits) hread
    have hexact := hwhole.tokens
    rw [List.append_nil, hreverse] at hexact
    rw [hloaded]
    exact hexact
  · exact htally.estimate.trans ((hperm.map PricedUsage.micros).sum_eq).symm
  · refine htally.complete.trans ?_
    have hrows : (∀ row ∈ read.sorted.priced, row.complete = true) ↔ ∀ row ∈ read.priced, row.complete = true :=
      forall_congr' fun row => imp_congr_left hperm.mem_iff
    rw [hrows]
    exact ⟨fun ⟨ht, hu, hk, hall⟩ => ⟨hu, hk, hall, ht⟩, fun ⟨hu, hk, hall, ht⟩ => ⟨ht, hu, hk, hall⟩⟩

end

/-! ## Two requests -/

/-- A row of the project on one day. -/
def usageOn (model : Option Str) (input output : Option Int) : CostRow :=
  { eventId := none
    at_ := "2026-08-01T00:00:00Z".toList
    providerId := "openai".toList
    projectId := some "p1".toList
    model
    inputTokens := input
    outputTokens := output
    cachedInputTokens := none }

/-- A request that reported its tokens and its model, and one that reported nothing. -/
def twoRequests : CostDb :=
  { activity := ⟨[], [(usageOn (some "gpt-4o".toList) (some 1000) (some 10)).toUsageRow, (usageOn none none none).toUsageRow],
      [], List.nodup_nil, List.nodup_nil⟩
    rows := [usageOn (some "gpt-4o".toList) (some 1000) (some 10), usageOn none none none]
    rows_usage := rfl }

def wholeProject : Window := ⟨"p1".toList, "2026-01-01".toList, none⟩

def noFilter : ActivityFilter := ⟨none, none, none, none, none, none, none⟩

theorem project_cost_coverage_conserves_two :
    ∃ out, projectCostCoverage plainPricing "2026-08-02".toList (fun _ => [gpt4o]) twoRequests wholeProject noFilter = some out ∧
      out.Conserves plainPricing "2026-08-02".toList (fun _ => [gpt4o]) twoRequests wholeProject noFilter := by
  have hrun : (projectCostCoverage plainPricing "2026-08-02".toList (fun _ => [gpt4o]) twoRequests wholeProject noFilter).map
      ProjectCostCoverage.truncated = some false := by decide +kernel
  obtain ⟨out, hout, hcap⟩ := Option.map_eq_some_iff.1 hrun
  exact ⟨out, hout, project_cost_coverage_conserves hout hcap⟩

end Tethra.CostCoverage
