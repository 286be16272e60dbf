import Tethra.Core.PricingEstimate
import Tethra.Gateway.Writer

set_option autoImplicit false

/-! # The daily usage rollup (`gateway/src/writer.rs`)

A token count is clamped to what its column can hold; the sum that the upsert makes of it and the column
is not. A `STRICT` table does not take a sum beyond `2^63 - 1`, so the transaction fails, and with it
every later one of the same day, provider, project and model that would add to the column. -/

namespace Tethra.Pricing

open Observe Budgets

/-- `validate_price` of the prices that an estimate reads. -/
def PricingRecord.Validated (r : PricingRecord) : Prop :=
  (∀ p ∈ r.inputPricePerMMicros, 0 ≤ p) ∧ ∀ p ∈ r.outputPricePerMMicros, 0 ≤ p

/-- The prices at one time; `none` is a query that failed. -/
structure PriceTable where
  env : PricingEnv
  now : Str
  candidatesFor : Str → Option (List PricingRecord)
  validated : ∀ provider, ∀ rs ∈ candidatesFor provider, ∀ r ∈ rs, r.Validated

/-- Of the dates that have a prefix: the others panic. -/
def PriceTable.lookupAsOf (prices : PriceTable) (provider model asOf : Str)
    (dated : (datePrefix asOf).isSome = true) : Option PricingRecord :=
  (prices.candidatesFor provider).bind fun candidates =>
    (chooseAsOf prices.env prices.now candidates model asOf).get
      (by rw [chooseAsOf, Option.isSome_map, dated])

/-- `estimate_token_cost_as_of`, with the errors dropped. -/
def PriceTable.estimateTokenCostAsOf (prices : PriceTable) (provider model asOf : Str)
    (dated : (datePrefix asOf).isSome = true) (inputTokens outputTokens : Int) : Option CostEstimate :=
  (prices.lookupAsOf provider model asOf dated).bind (estimateTokenCostFrom · inputTokens outputTokens)

/-! ## The estimates -/

theorem validated_of_chosen {date : Str} {records : List PricingRecord} {r : PricingRecord}
    (hall : ∀ r ∈ records, r.Validated) (h : chosen date records = some r) : r.Validated := by
  unfold chosen at h
  split at h
  · rename_i hforce
    obtain rfl := Option.some.inj h
    have hmem := List.argmax_mem hforce
    rw [List.mem_reverse, List.mem_filter] at hmem
    exact hall _ hmem.1
  · obtain ⟨r', hr', rfl⟩ := Option.map_eq_some_iff.1 h
    exact hall r' (List.argmin_mem hr')

theorem PriceTable.validated_of_lookup {prices : PriceTable} {provider model asOf : Str}
    {dated : (datePrefix asOf).isSome = true} {r : PricingRecord}
    (h : prices.lookupAsOf provider model asOf dated = some r) : r.Validated := by
  obtain ⟨candidates, hcandidates, h⟩ := Option.bind_eq_some_iff.1 h
  obtain ⟨date, hdate⟩ := Option.isSome_iff_exists.1 dated
  simp only [chooseAsOf, hdate, Option.map_some, Option.get_some] at h
  obtain ⟨r', hr', rfl⟩ := Option.map_eq_some_iff.1 h
  have hvalidated : r'.Validated := by
    refine validated_of_chosen (fun r hr => ?_) hr'
    exact prices.validated provider candidates hcandidates r
      (List.mem_of_mem_filter (List.mem_of_mem_filter hr))
  exact hvalidated

/-- The share of one dimension in an estimate. -/
theorem dimension_range {tokens price : Int} (htokens : 0 ≤ tokens) (hprice : 0 ≤ price) :
    0 ≤ Int.tdiv (saturatingMul tokens price) 1000000 ∧
      Int.tdiv (saturatingMul tokens price) 1000000 ≤ (2 ^ 63 - 1) / 1000000 := by
  have hmul := mul_nonneg htokens hprice
  have hnonneg : 0 ≤ saturatingMul tokens price := by
    unfold saturatingMul
    omega
  have hle : saturatingMul tokens price ≤ 2 ^ 63 - 1 := by
    unfold saturatingMul
    omega
  rw [Int.tdiv_eq_ediv_of_nonneg hnonneg]
  omega

theorem micros_range {prices : PriceTable} {provider model asOf : Str}
    {dated : (datePrefix asOf).isSome = true} {inputTokens outputTokens : Int} {cost : CostEstimate}
    (hinput : 0 ≤ inputTokens) (houtput : 0 ≤ outputTokens)
    (h : prices.estimateTokenCostAsOf provider model asOf dated inputTokens outputTokens = some cost) :
    0 ≤ cost.micros ∧ cost.micros ≤ 2 ^ 63 - 1 := by
  obtain ⟨r, hr, h⟩ := Option.bind_eq_some_iff.1 h
  obtain ⟨hin, hout⟩ := PriceTable.validated_of_lookup hr
  have hprice : ∀ o : Option Int, (∀ p ∈ o, 0 ≤ p) → 0 ≤ o.getD 0 := by
    rintro (_ | p) hp
    · exact le_refl 0
    · exact hp p rfl
  have hinput := dimension_range hinput (hprice _ hin)
  have houtput := dimension_range houtput (hprice _ hout)
  unfold estimateTokenCostFrom at h
  split_ifs at h
  obtain rfl := Option.some.inj h
  dsimp only
  omega

end Tethra.Pricing

namespace Tethra.Gateway

open Observe Pricing

/-! ## The tables -/

/-- `clamp_i64`. -/
def clampI64 (v : Nat) : Int := min (v : Int) (2 ^ 63 - 1)

inductive UsageState where
  | absent
  | extracted
  | unsupportedShape
  | oversizedDropped
  | malformed
  deriving DecidableEq, Repr

structure UsageObservation where
  model : Option Str
  inputTokens : Option Nat
  outputTokens : Option Nat
  totalTokens : Option Nat
  cachedInputTokens : Option Nat
  state : UsageState
  wasStreamed : Bool
  deriving DecidableEq, Repr

def UsageObservation.available (usage : UsageObservation) : Bool :=
  usage.state = .extracted && (usage.inputTokens.isSome || usage.outputTokens.isSome)

/-- An exchange with its usage. Its time is the clock's, which has a date in front. -/
structure UsageExchange extends ExchangeRecord where
  providerId : Str
  usage : Option UsageObservation
  dated : (datePrefix at_).isSome = true

/-- The integers of a `STRICT` column; a greater sum is a `REAL`, which it refuses. -/
def StoresInteger (v : Int) : Prop := -(2 ^ 63) ≤ v ∧ v ≤ 2 ^ 63 - 1

instance (v : Int) : Decidable (StoresInteger v) := inferInstanceAs (Decidable (_ ∧ _))

/-- A row of `gateway_usage_events`. -/
structure UsageEventRow where
  id : Str
  eventId : Str
  at_ : Str
  routePrefix : Str
  providerId : Str
  projectId : Str
  model : Option Str
  inputTokens : Option Int
  outputTokens : Option Int
  totalTokens : Option Int
  cachedInputTokens : Option Int
  usageAvailable : Bool
  usageState : UsageState
  estimatedCostMicros : Option Int
  wasStreamed : Bool
  deriving DecidableEq, Repr

/-- The primary key of `gateway_usage_daily`. -/
structure DailyKey where
  day : Str
  providerId : Str
  projectId : Str
  model : Str
  deriving DecidableEq, Repr

/-- The columns that an upsert adds to. -/
inductive UsageColumn where
  | requestCount
  | usageEventCount
  | inputTokens
  | outputTokens
  | cachedInputTokens
  | estimatedCostMicros
  deriving DecidableEq, Repr

instance : Fintype UsageColumn where
  elems := {.requestCount, .usageEventCount, .inputTokens, .outputTokens, .cachedInputTokens,
    .estimatedCostMicros}
  complete c := by cases c <;> decide

structure DailyRow where
  columns : UsageColumn → Int
  updatedAt : Str
  stored : ∀ c, StoresInteger (columns c)

structure UsageTables where
  daily : DailyKey → Option DailyRow
  events : List UsageEventRow

/-- What a persist finds: the prices, the projects, the ids of its rows and the clock. -/
structure PersistEnv where
  prices : PriceTable
  projectExists : Str → Bool
  id : Str
  eventId : Str
  clockNow : Str

/-! ## Persisting -/

def dayOf (atRfc3339 : Str) : Str := (takeBytes 10 atRfc3339).getD atRfc3339

/-- The estimated cost of an observation, without the cached tokens. -/
def usageCost (env : PersistEnv) (record : UsageExchange) (usage : UsageObservation) : Option Int :=
  let billableInput := usage.inputTokens.getD 0 - usage.cachedInputTokens.getD 0
  (usage.model.bind fun model =>
    env.prices.estimateTokenCostAsOf record.providerId model record.at_ record.dated
      (clampI64 billableInput) (clampI64 (usage.outputTokens.getD 0))).map CostEstimate.micros

/-- The values of the upsert. -/
def dailyValues (env : PersistEnv) (record : UsageExchange) (usage : UsageObservation) :
    UsageColumn → Int
  | .requestCount => 1
  | .usageEventCount => if usage.available then 1 else 0
  | .inputTokens => clampI64 (usage.inputTokens.getD 0)
  | .outputTokens => clampI64 (usage.outputTokens.getD 0)
  | .cachedInputTokens => clampI64 (usage.cachedInputTokens.getD 0)
  | .estimatedCostMicros => (usageCost env record usage).getD 0

def dailyKey (projectId : Str) (record : UsageExchange) (usage : UsageObservation) : DailyKey :=
  ⟨dayOf record.at_, record.providerId, projectId, usage.model.getD []⟩

/-- `INSERT … ON CONFLICT … DO UPDATE`; `none` is a value that a column refuses. -/
def upsertDaily (daily : DailyKey → Option DailyRow) (key : DailyKey) (values : UsageColumn → Int)
    (now : Str) : Option (DailyKey → Option DailyRow) :=
  let columns : UsageColumn → Int :=
    match daily key with
    | none => values
    | some row => fun c => row.columns c + values c
  if h : ∀ c, StoresInteger (columns c) then
    some (Function.update daily key (some ⟨columns, now, h⟩))
  else none

def writeUsage (env : PersistEnv) (tables : UsageTables) (projectId : Str) (record : UsageExchange) :
    Option UsageTables :=
  match record.usage with
  | none => some tables
  | some usage =>
      let event : UsageEventRow :=
        { id := env.id
          eventId := env.eventId
          at_ := record.at_
          routePrefix := record.routePrefix
          providerId := record.providerId
          projectId
          model := usage.model
          inputTokens := usage.inputTokens.map clampI64
          outputTokens := usage.outputTokens.map clampI64
          totalTokens := usage.totalTokens.map clampI64
          cachedInputTokens := usage.cachedInputTokens.map clampI64
          usageAvailable := usage.available
          usageState := usage.state
          estimatedCostMicros := usageCost env record usage
          wasStreamed := usage.wasStreamed }
      (upsertDaily tables.daily (dailyKey projectId record usage) (dailyValues env record usage)
        env.clockNow).map fun daily => ⟨daily, tables.events ++ [event]⟩

/-- Traffic without a project, or whose project is gone, has no usage. -/
def persistWith (env : PersistEnv) (tables : UsageTables) (record : UsageExchange) :
    Option UsageTables :=
  match record.projectId with
  | none => some tables
  | some projectId =>
      if env.projectExists projectId then writeUsage env tables projectId record else some tables

structure UsageWriter where
  tables : UsageTables
  written : Nat
  persistFailures : Nat
  degraded : Bool

/-- One exchange is one transaction. -/
def persistOne (env : PersistEnv) (w : UsageWriter) (record : UsageExchange) : UsageWriter :=
  match persistWith env w.tables record with
  | some tables => { w with tables, written := w.written + 1, degraded := false }
  | none => { w with persistFailures := w.persistFailures + 1, degraded := true }

def persistAll (w : UsageWriter) (records : List (PersistEnv × UsageExchange)) : UsageWriter :=
  records.foldl (fun w r => persistOne r.1 w r.2) w

/-! ## What an upsert keeps -/

/-- A column under a key; no row holds zeros. -/
def UsageTables.column (tables : UsageTables) (key : DailyKey) (c : UsageColumn) : Int :=
  match tables.daily key with
  | none => 0
  | some row => row.columns c

theorem clampI64_range (v : Nat) : 0 ≤ clampI64 v ∧ clampI64 v ≤ 2 ^ 63 - 1 := by
  unfold clampI64
  omega

theorem usageCost_range {env : PersistEnv} {record : UsageExchange} {usage : UsageObservation} {cost : Int}
    (h : usageCost env record usage = some cost) : 0 ≤ cost ∧ cost ≤ 2 ^ 63 - 1 := by
  obtain ⟨estimate, hestimate, rfl⟩ := Option.map_eq_some_iff.1 h
  obtain ⟨model, -, hestimate⟩ := Option.bind_eq_some_iff.1 hestimate
  exact micros_range (clampI64_range _).1 (clampI64_range _).1 hestimate

/-- What one observation adds to a column is clamped. -/
theorem dailyValues_range (env : PersistEnv) (record : UsageExchange) (usage : UsageObservation)
    (c : UsageColumn) :
    0 ≤ dailyValues env record usage c ∧ dailyValues env record usage c ≤ 2 ^ 63 - 1 := by
  cases c with
  | requestCount => simp [dailyValues]
  | usageEventCount =>
      simp only [dailyValues]
      split_ifs <;> omega
  | inputTokens => exact clampI64_range _
  | outputTokens => exact clampI64_range _
  | cachedInputTokens => exact clampI64_range _
  | estimatedCostMicros =>
      simp only [dailyValues]
      cases hcost : usageCost env record usage with
      | none => simp
      | some cost => exact usageCost_range hcost

theorem UsageTables.column_stored (tables : UsageTables) (key : DailyKey) (c : UsageColumn) :
    StoresInteger (tables.column key c) := by
  unfold UsageTables.column
  split
  · decide
  · exact DailyRow.stored _ c

/-- What an exchange adds to a column under a key. -/
def added (r : PersistEnv × UsageExchange) (key : DailyKey) (c : UsageColumn) : Int :=
  match r.2.projectId, r.2.usage with
  | some projectId, some usage =>
      if r.1.projectExists projectId ∧ dailyKey projectId r.2 usage = key then
        dailyValues r.1 r.2 usage c
      else 0
  | _, _ => 0

theorem added_nonneg (r : PersistEnv × UsageExchange) (key : DailyKey) (c : UsageColumn) :
    0 ≤ added r key c := by
  unfold added
  split
  · split_ifs
    · exact (dailyValues_range _ _ _ c).1
    · exact le_refl 0
  · exact le_refl 0

/-- An upsert adds to every column of its row, or finds a sum that one of them does not hold. -/
theorem upsertDaily_cases (tables : UsageTables) (key : DailyKey) (values : UsageColumn → Int)
    (now : Str) :
    (∃ daily, upsertDaily tables.daily key values now = some daily ∧ ∀ events key' c,
      UsageTables.column ⟨daily, events⟩ key' c
        = tables.column key' c + if key = key' then values c else 0) ∨
    (upsertDaily tables.daily key values now = none ∧
      ∃ c, ¬StoresInteger (tables.column key c + values c)) := by
  have hsums : ∀ c, (match tables.daily key with
      | none => values
      | some row => fun c => row.columns c + values c : UsageColumn → Int) c
        = tables.column key c + values c := by
    intro c
    unfold UsageTables.column
    cases tables.daily key with
    | none => simp
    | some row => rfl
  unfold upsertDaily
  dsimp only
  split_ifs with hfits
  · refine Or.inl ⟨_, rfl, fun events key' c => ?_⟩
    by_cases hkey : key = key'
    · subst hkey
      rw [if_pos rfl, ← hsums c]
      simp [UsageTables.column]
    · simp [UsageTables.column, Function.update_of_ne (Ne.symm hkey), hkey]
  · obtain ⟨c, hc⟩ := not_forall.1 hfits
    rw [hsums c] at hc
    exact Or.inr ⟨rfl, c, hc⟩

/-- A persist adds to the columns what its exchange does, or fails for a sum that does not fit. -/
theorem persistWith_cases (env : PersistEnv) (tables : UsageTables) (record : UsageExchange) :
    (∃ tables', persistWith env tables record = some tables' ∧
      ∀ key c, tables'.column key c = tables.column key c + added (env, record) key c) ∨
    (persistWith env tables record = none ∧
      ∃ key c, ¬StoresInteger (tables.column key c + added (env, record) key c)) := by
  unfold persistWith added
  dsimp only
  cases hproject : record.projectId with
  | none => simp
  | some projectId =>
      by_cases hexists : env.projectExists projectId = true
      · unfold writeUsage
        cases husage : record.usage with
        | none => simp [hexists]
        | some usage =>
            simp only [hexists, true_and]
            rcases upsertDaily_cases tables (dailyKey projectId record usage)
              (dailyValues env record usage) env.clockNow with ⟨daily, hdaily, hcolumns⟩ | ⟨hnone, c, hc⟩
            · rw [hdaily]
              exact Or.inl ⟨_, rfl, fun key c => hcolumns _ key c⟩
            · rw [hnone]
              exact Or.inr ⟨rfl, dailyKey projectId record usage, c, by rwa [if_pos rfl]⟩
      · cases husage : record.usage <;> simp [hexists]

/-! ## Runs -/

def UsageTables.Nonneg (tables : UsageTables) : Prop := ∀ key c, 0 ≤ tables.column key c

/-- What the exchanges add to a column under a key. -/
def addedBy (records : List (PersistEnv × UsageExchange)) (key : DailyKey) (c : UsageColumn) : Int :=
  (records.map fun r => added r key c).sum

/-- No persist fails, and the columns stay non-negative and never decrease. -/
structure Absorbs (w : UsageWriter) (records : List (PersistEnv × UsageExchange)) : Prop where
  persisted : (persistAll w records).persistFailures = w.persistFailures
  nonneg : ∀ done rest, records = done ++ rest → (persistAll w done).tables.Nonneg
  mono : ∀ done more rest, records = done ++ more ++ rest → ∀ key c,
    (persistAll w done).tables.column key c ≤ (persistAll w (done ++ more)).tables.column key c

theorem addedBy_cons (r : PersistEnv × UsageExchange) (records : List (PersistEnv × UsageExchange))
    (key : DailyKey) (c : UsageColumn) :
    addedBy (r :: records) key c = added r key c + addedBy records key c := List.sum_cons

theorem addedBy_nonneg (records : List (PersistEnv × UsageExchange)) (key : DailyKey)
    (c : UsageColumn) : 0 ≤ addedBy records key c := by
  apply List.sum_nonneg
  intro x hx
  obtain ⟨r, -, rfl⟩ := List.mem_map.1 hx
  exact added_nonneg r key c

theorem persistAll_append (w : UsageWriter) (done more : List (PersistEnv × UsageExchange)) :
    persistAll w (done ++ more) = persistAll (persistAll w done) more := List.foldl_append

/-- One exchange is kept whole or leaves the tables alone. -/
theorem persistOne_cases (env : PersistEnv) (w : UsageWriter) (record : UsageExchange) :
    ((persistOne env w record).persistFailures = w.persistFailures ∧ ∀ key c,
      (persistOne env w record).tables.column key c
        = w.tables.column key c + added (env, record) key c) ∨
    ((persistOne env w record).persistFailures = w.persistFailures + 1 ∧
      (persistOne env w record).tables = w.tables ∧
      ∃ key c, ¬StoresInteger (w.tables.column key c + added (env, record) key c)) := by
  unfold persistOne
  rcases persistWith_cases env w.tables record with ⟨tables, hsome, hcolumns⟩ | ⟨hnone, hover⟩
  · rw [hsome]
    exact Or.inl ⟨rfl, hcolumns⟩
  · rw [hnone]
    exact Or.inr ⟨rfl, rfl, hover⟩

theorem column_le_persistOne (env : PersistEnv) (w : UsageWriter) (record : UsageExchange)
    (key : DailyKey) (c : UsageColumn) :
    w.tables.column key c ≤ (persistOne env w record).tables.column key c := by
  rcases persistOne_cases env w record with ⟨-, hcolumns⟩ | ⟨-, hsame, -⟩
  · rw [hcolumns]
    exact le_add_of_nonneg_right (added_nonneg _ key c)
  · rw [hsame]

/-- A failed transaction takes nothing back, so no run decreases a column. -/
theorem column_le_persistAll (w : UsageWriter) (records : List (PersistEnv × UsageExchange))
    (key : DailyKey) (c : UsageColumn) :
    w.tables.column key c ≤ (persistAll w records).tables.column key c := by
  induction records generalizing w with
  | nil => exact le_refl _
  | cons r records ih => exact (column_le_persistOne r.1 w r.2 key c).trans (ih _)

theorem failures_le_persistAll (w : UsageWriter) (records : List (PersistEnv × UsageExchange)) :
    w.persistFailures ≤ (persistAll w records).persistFailures := by
  induction records generalizing w with
  | nil => exact le_refl _
  | cons r records ih =>
      refine le_trans ?_ (ih _)
      rcases persistOne_cases r.1 w r.2 with ⟨hsame, -⟩ | ⟨hfailed, -⟩
      · exact hsame.ge
      · exact (Nat.le_succ _).trans hfailed.ge

/-- A run without a failure adds everything. -/
theorem column_of_persisted {w : UsageWriter} {records : List (PersistEnv × UsageExchange)}
    (h : (persistAll w records).persistFailures = w.persistFailures) (key : DailyKey) (c : UsageColumn) :
    (persistAll w records).tables.column key c = w.tables.column key c + addedBy records key c := by
  induction records generalizing w with
  | nil => exact (add_zero _).symm
  | cons r records ih =>
      change (persistAll (persistOne r.1 w r.2) records).persistFailures = _ at h
      change (persistAll (persistOne r.1 w r.2) records).tables.column key c = _
      have hle := failures_le_persistAll (persistOne r.1 w r.2) records
      rcases persistOne_cases r.1 w r.2 with ⟨hsame, hcolumns⟩ | ⟨hfailed, -⟩
      · rw [ih (h.trans hsame.symm), hcolumns, addedBy_cons, add_assoc]
      -- a failure stays counted to the end of the run
      · omega

/-- A run whose sums fit has no failure. -/
theorem persisted_of_fits {w : UsageWriter} {records : List (PersistEnv × UsageExchange)}
    (hnonneg : w.tables.Nonneg)
    (hfits : ∀ key c, w.tables.column key c + addedBy records key c ≤ 2 ^ 63 - 1) :
    (persistAll w records).persistFailures = w.persistFailures := by
  induction records generalizing w with
  | nil => rfl
  | cons r records ih =>
      change (persistAll (persistOne r.1 w r.2) records).persistFailures = _
      rcases persistOne_cases r.1 w r.2 with ⟨hsame, hcolumns⟩ | ⟨-, -, key, c, hover⟩
      · rw [← hsame]
        refine ih (fun key c => ?_) fun key c => ?_
        · exact (hnonneg key c).trans (column_le_persistOne r.1 w r.2 key c)
        · have hfits := hfits key c
          rwa [addedBy_cons, ← add_assoc, ← hcolumns] at hfits
      -- the sum that does not fit is part of one that does
      · have hfits := hfits key c
        have hrest := addedBy_nonneg records key c
        have hstart := hnonneg key c
        have hadded := added_nonneg r key c
        rw [addedBy_cons] at hfits
        have hstored : StoresInteger (w.tables.column key c + added r key c) := by
          unfold StoresInteger
          omega
        exact absurd hstored hover

/-- Any sequence of observations is absorbed exactly when, under every key, what a column holds and the
    clamped values of the sequence together fit into the column. -/
theorem usage_absorbed_iff {w : UsageWriter} (hnonneg : w.tables.Nonneg)
    (records : List (PersistEnv × UsageExchange)) :
    Absorbs w records ↔
      ∀ key c, w.tables.column key c + addedBy records key c ≤ 2 ^ 63 - 1 := by
  constructor
  · intro h key c
    rw [← column_of_persisted h.persisted key c]
    exact (UsageTables.column_stored _ key c).2
  · intro hfits
    refine ⟨persisted_of_fits hnonneg hfits, fun done rest _ key c => ?_, fun done more rest _ key c => ?_⟩
    · exact (hnonneg key c).trans (column_le_persistAll w done key c)
    · rw [persistAll_append]
      exact column_le_persistAll _ more key c

/-! ## One observation, and two -/

def idleWriter : UsageWriter := ⟨⟨fun _ => none, []⟩, 0, 0, false⟩

def unpriced : PersistEnv where
  prices :=
    { env := ⟨id, fun _ => none, fun _ => none⟩
      now := "2026-07-02T00:00:00Z".toList
      candidatesFor := fun _ => none
      validated := nofun }
  projectExists := fun _ => true
  id := "usage".toList
  eventId := "event".toList
  clockNow := "2026-07-02T00:00:00Z".toList

def reported (inputTokens : Nat) : PersistEnv × UsageExchange :=
  (unpriced,
    { at_ := "2026-07-02T00:00:00Z".toList
      routePrefix := "openai".toList
      projectId := some "p1".toList
      digest := none
      attributionInput := .noCredentialPresent
      providerId := "openai".toList
      usage := some ⟨none, some inputTokens, none, none, none, .extracted, false⟩
      dated := by decide })

theorem idleWriter_nonneg : idleWriter.tables.Nonneg := fun _ _ => le_refl 0

/-- The greatest count that a response can carry is absorbed once. -/
theorem usage_absorbed_iff_once : Absorbs idleWriter [reported (2 ^ 64 - 1)] := by
  refine (usage_absorbed_iff idleWriter_nonneg _).2 fun key c => ?_
  have hempty : idleWriter.tables.column key c = 0 := rfl
  have hone : addedBy [reported (2 ^ 64 - 1)] key c = added (reported (2 ^ 64 - 1)) key c :=
    List.sum_singleton
  rw [hempty, hone, zero_add]
  unfold added
  split
  · split_ifs
    · exact (dailyValues_range _ _ _ c).2
    · decide
  · decide

/-- A second observation of one token is lost. -/
theorem second_refused :
    ¬∀ (w : UsageWriter) (records : List (PersistEnv × UsageExchange)),
      w.tables.Nonneg → Absorbs w records := by
  intro hall
  have hpersisted :=
    (hall idleWriter [reported (2 ^ 64 - 1), reported 1] idleWriter_nonneg).persisted
  have hcolumn := column_of_persisted hpersisted
    ⟨"2026-07-02".toList, "openai".toList, "p1".toList, []⟩ .inputTokens
  have hstored := (UsageTables.column_stored
    (persistAll idleWriter [reported (2 ^ 64 - 1), reported 1]).tables
    ⟨"2026-07-02".toList, "openai".toList, "p1".toList, []⟩ .inputTokens).2
  have hadded : addedBy [reported (2 ^ 64 - 1), reported 1]
      ⟨"2026-07-02".toList, "openai".toList, "p1".toList, []⟩ .inputTokens = 2 ^ 63 := by decide
  have hempty : idleWriter.tables.column
      ⟨"2026-07-02".toList, "openai".toList, "p1".toList, []⟩ .inputTokens = 0 := rfl
  rw [hcolumn, hadded, hempty] at hstored
  omega

end Tethra.Gateway
