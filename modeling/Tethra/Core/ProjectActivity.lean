import Tethra.Core.Usage
import Tethra.Lib.Grouped

set_option autoImplicit false

/-! # The activity of a project (`core/src/projectactivity.rs`, `core/src/projectcost.rs`, `activity_only`)

The figures of a project's page are queries of their own over the request events and the usage rows, under one
scope. They count the same requests and the same tokens (`one_population`). Their errors differ: the metrics take
every request without a 2xx or 3xx status for one, the chart and the integrations those with a 4xx or 5xx status
or a transport error. -/

namespace Tethra.ProjectActivity

open Grouped Usage

/-- The columns of `runtime_request_events` that the scope and the counts read. -/
structure EventRow where
  id : Str
  projectId : Str
  serviceId : Str
  at_ : Str
  host : Str
  pathTemplate : Str
  statusClass : Str
  observationSource : Str
  transportError : Str
  credentialId : Option Str
  deriving DecidableEq, Repr

/-- The columns of `gateway_usage_events` that the scope and the token sums read. -/
structure UsageRow where
  eventId : Option Str
  at_ : Str
  providerId : Str
  projectId : Option Str
  model : Option Str
  inputTokens : Option Int
  outputTokens : Option Int
  deriving DecidableEq, Repr

/-- The columns of `observed_api_services` that the queries read. -/
structure ServiceRow where
  id : Str
  providerId : Option Str
  userProvider : Option Str
  userApiName : Option Str
  deriving DecidableEq, Repr

/-- The tables; the ids are primary keys. -/
structure Db where
  events : List EventRow
  usage : List UsageRow
  services : List ServiceRow
  nodup_events : (events.map (·.id)).Nodup
  nodup_services : (services.map (·.id)).Nodup

structure ActivityFilter where
  host : Option Str
  provider : Option Str
  credentialId : Option Str
  statusClass : Option Str
  endpoint : Option Str
  observationSource : Option Str
  model : Option Str
  deriving DecidableEq, Repr

def ActivityFilter.isEmpty (f : ActivityFilter) : Bool :=
  f.host.isNone && f.provider.isNone && f.credentialId.isNone && f.statusClass.isNone && f.endpoint.isNone
    && f.observationSource.isNone && f.model.isNone

/-- `column = ?`, where the filter has a value. Nothing is equal to `NULL`. -/
def wants (value column : Option Str) : Bool := value.all fun v => column = some v

/-- `COALESCE(NULLIF(provider_id, ''), user_provider)`. -/
def ServiceRow.provider (s : ServiceRow) : Option Str := (s.providerId.filter (· ≠ [])).or s.userProvider

/-- `clauses`. -/
def ActivityFilter.clauses (f : ActivityFilter) (db : Db) (e : EventRow) : Bool :=
  wants f.host (some e.host) && wants f.credentialId e.credentialId && wants f.statusClass (some e.statusClass)
    && wants f.endpoint (some e.pathTemplate) && wants f.observationSource (some e.observationSource)
    && f.provider.all (fun p => db.services.any fun s => s.id = e.serviceId && s.provider = some p)
    && f.model.all (fun m => db.usage.any fun u => u.eventId = some e.id && u.model = some m)

/-- The project and the window `[since, until)` of a read. -/
structure Window where
  project : Str
  since : Str
  before : Option Str

def Window.has (w : Window) (time : Str) : Bool := w.since ≤ time && w.before.all fun stop => time < stop

/-- `event_scope`. -/
def eventScope (db : Db) (w : Window) (f : ActivityFilter) : List EventRow :=
  db.events.filter fun e => e.projectId = w.project && w.has e.at_ && f.clauses db e

/-- `usage_scope`: without a filter the rows are read directly. -/
def usageScope (db : Db) (w : Window) (f : ActivityFilter) : List UsageRow :=
  db.usage.filter fun u => u.projectId = some w.project && w.has u.at_ &&
    (f.isEmpty || db.events.any fun e => u.eventId = some e.id && e.projectId = w.project && f.clauses db e)

inductive Granularity where
  | minute
  | hour
  | day
  deriving DecidableEq, Repr

/-- `bucket_expr`. -/
def Granularity.bucket (g : Granularity) (time : Str) : Str :=
  match g with
  | .minute => time.take 16 ++ ":00Z".toList
  | .hour => time.take 13 ++ ":00:00Z".toList
  | .day => time.take 10 ++ "T00:00:00Z".toList

/-- `ORDER BY` and `LIMIT`. -/
def limited {α : Type} (n : Nat) (before : α → α → Bool) (rows : List α) : List α :=
  (rows.insertionSort fun a b => before a b).take n

/-- `SUM` over a column of integers: `NULL` where every value is, and an error where it overflows on the way. -/
def sqlSum (column : List (Option Int)) : Option (Option Int) :=
  column.foldlM (fun acc x =>
    match x with
    | none => some acc
    | some v =>
        let sum := acc.getD 0 + v
        if -(2 ^ 63) ≤ sum ∧ sum < 2 ^ 63 then some (some sum) else none) none

/-- `MAX_BUCKETS`. -/
def maxBuckets : Nat := 750

/-- `MAX_GROUPS`. -/
def maxGroups : Nat := 2000

/-- `status_class IN ('4xx','5xx') OR transport_error <> 'none'`. -/
def EventRow.failed (e : EventRow) : Bool :=
  e.statusClass = "4xx".toList || e.statusClass = "5xx".toList || e.transportError ≠ "none".toList

/-- The status is 2xx or 3xx. -/
def EventRow.succeeded (e : EventRow) : Bool := e.statusClass = "2xx".toList || e.statusClass = "3xx".toList

/-- The counts of `metrics_from_row`. -/
structure Metrics where
  total : Int
  errors : Int
  deriving DecidableEq, Repr

/-- `project_metrics`: what is no success is an error. -/
def projectMetrics (db : Db) (w : Window) (f : ActivityFilter) : Metrics :=
  let rows := eventScope db w f
  let c2xx : Int := rows.countP fun e => e.statusClass = "2xx".toList
  let c3xx : Int := rows.countP fun e => e.statusClass = "3xx".toList
  ⟨rows.length, rows.length - (c2xx + c3xx)⟩

/-- The counts and tokens of a `ProjectSeriesPoint`. -/
structure SeriesPoint where
  bucketStart : Str
  requests : Int
  errors : Int
  inputTokens : Option Int
  outputTokens : Option Int
  deriving DecidableEq, Repr

def bucketGroups (db : Db) (w : Window) (g : Granularity) (f : ActivityFilter) : List (Str × List EventRow) :=
  groups (fun e => g.bucket e.at_) (eventScope db w f)

/-- The points of the request query. -/
def requestPoints (db : Db) (w : Window) (g : Granularity) (f : ActivityFilter) : List SeriesPoint :=
  (limited maxBuckets (fun a b => a.1 ≤ b.1) (bucketGroups db w g f)).map fun group =>
    ⟨group.1, group.2.length, group.2.countP EventRow.failed, none, none⟩

def usageGroups (db : Db) (w : Window) (g : Granularity) (f : ActivityFilter) :
    List ((Str × Str × Option Str) × List UsageRow) :=
  groups (fun u => (g.bucket u.at_, u.providerId, u.model)) (usageScope db w f)

/-- The sums of a group of usage rows: its bucket and its tokens. -/
def usageSums (group : (Str × Str × Option Str) × List UsageRow) : Option (Str × Option Int × Option Int) := do
  let input ← sqlSum (group.2.map (·.inputTokens))
  let output ← sqlSum (group.2.map (·.outputTokens))
  return (group.1.1, input, output)

/-- `Some(a.unwrap_or(0) + v)`. -/
def addTokens (a v : Option Int) : Option Int :=
  match v with
  | some v => some (addI64 (a.getD 0) v)
  | none => a

/-- A group without a point is left out. -/
def addUsage (points : List SeriesPoint) (sums : Str × Option Int × Option Int) : List SeriesPoint :=
  Keyed.modify SeriesPoint.bucketStart sums.1 (fun p =>
    { p with inputTokens := addTokens p.inputTokens sums.2.1, outputTokens := addTokens p.outputTokens sums.2.2 })
    points

/-- `project_series`. -/
def projectSeries (db : Db) (w : Window) (g : Granularity) (f : ActivityFilter) : Option (List SeriesPoint) := do
  let sums ← (limited (maxBuckets * 8) (fun a b => a.1.1 ≤ b.1.1) (usageGroups db w g f)).mapM usageSums
  return sums.foldl addUsage (requestPoints db w g f)

/-- The key and the counts of an `ObservedIntegration`. -/
structure Integration where
  host : Str
  provider : Option Str
  userProvider : Option Str
  userApiName : Option Str
  requests : Int
  errors : Int
  deriving DecidableEq, Repr

/-- `LEFT JOIN observed_api_services s ON s.id = e.service_id`. -/
def withService (db : Db) (e : EventRow) : List (EventRow × Option ServiceRow) :=
  match db.services.filter (·.id = e.serviceId) with
  | [] => [(e, none)]
  | services => services.map fun s => (e, some s)

def integrationGroups (db : Db) (w : Window) (f : ActivityFilter) :
    List ((Str × Option Str × Option Str × Option Str) × List (EventRow × Option ServiceRow)) :=
  groups (fun r => (r.1.host, r.2.bind (·.providerId), r.2.bind (·.userProvider), r.2.bind (·.userApiName)))
    ((eventScope db w f).flatMap (withService db))

def maxIntegrations : Nat := 200

/-- `observed_integrations`. -/
def observedIntegrations (db : Db) (w : Window) (f : ActivityFilter) : List Integration :=
  (limited maxIntegrations (fun a b => b.2.length < a.2.length || a.2.length = b.2.length && a.1.1 ≤ b.1.1)
    (integrationGroups db w f)).map fun group =>
      ⟨group.1.1, group.1.2.1.filter (· ≠ []), group.1.2.2.1.filter (· ≠ []), group.1.2.2.2.filter (· ≠ []),
        group.2.length, group.2.countP fun r => r.1.failed⟩

def dayGroups (db : Db) (w : Window) (f : ActivityFilter) : List ((Str × Option Str × Str) × List UsageRow) :=
  groups (fun u => (u.providerId, u.model, u.at_.take 10)) (usageScope db w f)

/-- `UsageGroup`: the rows with tokens, and the token sums. -/
structure UsageGroup where
  withUsage : Nat
  inputTokens : Option Int
  outputTokens : Option Int

def loadGroup (group : (Str × Option Str × Str) × List UsageRow) : Option UsageGroup := do
  let input ← sqlSum (group.2.map (·.inputTokens))
  let output ← sqlSum (group.2.map (·.outputTokens))
  return ⟨group.2.countP fun u => u.inputTokens.isSome || u.outputTokens.isSome, input, output⟩

/-- `NULL` first, as SQLite orders it. -/
def modelLe : Option Str → Option Str → Bool
  | none, _ => true
  | some _, none => false
  | some a, some b => a ≤ b

def dayOrder (a b : (Str × Option Str × Str) × List UsageRow) : Bool :=
  a.1.2.2 < b.1.2.2 || a.1.2.2 = b.1.2.2 &&
    (a.1.1 < b.1.1 || a.1.1 = b.1.1 && modelLe a.1.2.1 b.1.2.1)

/-- The known tokens of `project_cost_coverage`: input and output. -/
structure KnownTokens where
  input : Int
  output : Int
  deriving DecidableEq, Repr

def KnownTokens.add (known : KnownTokens) (group : UsageGroup) : KnownTokens :=
  if group.withUsage = 0 then known
  else ⟨addI64 known.input (group.inputTokens.getD 0), addI64 known.output (group.outputTokens.getD 0)⟩

/-- `project_cost_coverage`; one group more than the cap is loaded, and those up to the cap are read. -/
def projectCostCoverage (db : Db) (w : Window) (f : ActivityFilter) : Option KnownTokens := do
  let loaded ← (limited (maxGroups + 1) dayOrder (dayGroups db w f)).mapM loadGroup
  return (loaded.take maxGroups).foldl KnownTokens.add ⟨0, 0⟩

structure ActivitySnapshot where
  metrics : Metrics
  series : List SeriesPoint
  integrations : List Integration
  cost : KnownTokens
  deriving DecidableEq, Repr

/-- `activity_only`, once the range has given the window and the granularity. -/
def activityOnly (db : Db) (w : Window) (g : Granularity) (f : ActivityFilter) : Option ActivitySnapshot := do
  let series ← projectSeries db w g f
  let cost ← projectCostCoverage db w f
  return ⟨projectMetrics db w f, series, observedIntegrations db w f, cost⟩

/-! ## One population -/

/-- Each usage row's event is there, with the same project and time. -/
def Db.Linked (db : Db) : Prop :=
  ∀ u ∈ db.usage, ∃ e ∈ db.events, u.eventId = some e.id ∧ u.projectId = some e.projectId ∧ u.at_ = e.at_

/-- No cap of a query is reached. -/
structure UnderCaps (db : Db) (w : Window) (g : Granularity) (f : ActivityFilter) : Prop where
  buckets : (bucketGroups db w g f).length ≤ maxBuckets
  usage : (usageGroups db w g f).length ≤ maxBuckets * 8
  integrations : (integrationGroups db w f).length ≤ maxIntegrations
  days : (dayGroups db w f).length ≤ maxGroups

/-- A sum in 64 bits. -/
def sumI64 (xs : List Int) : Int := xs.foldl addI64 0

/-- The figures of a snapshot agree, up to the errors. -/
structure ActivitySnapshot.OnePopulation (s : ActivitySnapshot) : Prop where
  series_requests : s.metrics.total = (s.series.map (·.requests)).sum
  integration_requests : s.metrics.total = (s.integrations.map (·.requests)).sum
  series_input : sumI64 (s.series.map (·.inputTokens.getD 0)) = s.cost.input
  series_output : sumI64 (s.series.map (·.outputTokens.getD 0)) = s.cost.output

/-- The errors agree. -/
structure ActivitySnapshot.OneErrorCount (s : ActivitySnapshot) : Prop where
  series_errors : s.metrics.errors = (s.series.map (·.errors)).sum
  integration_errors : s.metrics.errors = (s.integrations.map (·.errors)).sum

theorem limited_perm {α : Type} {n : Nat} {before : α → α → Bool} {rows : List α} (h : rows.length ≤ n) :
    (limited n before rows).Perm rows := by
  rw [limited, List.take_of_length_le ((List.length_insertionSort ..).trans_le h)]
  exact List.perm_insertionSort ..

theorem sum_limited {α : Type} {n : Nat} {before : α → α → Bool} {rows : List α} (h : rows.length ≤ n)
    (v : α → Int) : ((limited n before rows).map v).sum = (rows.map v).sum :=
  ((limited_perm h).map v).sum_eq

/-- The results of the rows, in their order. -/
theorem map_of_mapM {α β γ : Type} {f : α → Option β} {q : α → γ} {r : β → γ} {xs : List α} {ys : List β}
    (h : xs.mapM f = some ys) (hf : ∀ a b, f a = some b → r b = q a) : ys.map r = xs.map q := by
  induction xs generalizing ys with
  | nil =>
      rw [List.mapM_nil] at h
      cases h
      rfl
  | cons x xs ih =>
      rw [List.mapM_cons] at h
      obtain ⟨b, hb, h⟩ := Option.bind_eq_some_iff.1 h
      obtain ⟨bs, hbs, h⟩ := Option.bind_eq_some_iff.1 h
      cases h
      rw [List.map_cons, List.map_cons, hf x b hb, ih hbs]

/-- The known values of a column. -/
def known (column : List (Option Int)) : Int := (column.map (·.getD 0)).sum

/-- A `SUM` is the sum of the known values. -/
theorem sqlSum_getD {column : List (Option Int)} {sum : Option Int} (h : sqlSum column = some sum) :
    sum.getD 0 = known column := by
  have hgen : ∀ (column : List (Option Int)) (acc : Option Int),
      column.foldlM (fun acc x =>
        match x with
        | none => some acc
        | some v =>
            let sum := acc.getD 0 + v
            if -(2 ^ 63) ≤ sum ∧ sum < 2 ^ 63 then some (some sum) else none) acc = some sum →
      sum.getD 0 = acc.getD 0 + known column := by
    intro column
    induction column with
    | nil =>
        intro acc h
        cases h
        simp [known]
    | cons x column ih =>
        intro acc h
        rw [List.foldlM_cons] at h
        obtain ⟨acc', hstep, hrest⟩ := Option.bind_eq_some_iff.1 h
        have hacc : acc'.getD 0 = acc.getD 0 + x.getD 0 := by
          cases x with
          | none =>
              cases hstep
              simp
          | some v =>
              dsimp only at hstep
              split_ifs at hstep
              cases hstep
              rfl
        rw [ih acc' hrest, hacc, known, known, List.map_cons, List.sum_cons, add_assoc]
  have hall := hgen column none h
  simpa using hall

/-! ### The requests -/

theorem map_addUsage {γ : Type} {v : SeriesPoint → γ}
    (hv : ∀ p input output, v { p with inputTokens := input, outputTokens := output } = v p)
    (sums : List (Str × Option Int × Option Int)) (points : List SeriesPoint) :
    (sums.foldl addUsage points).map v = points.map v := by
  induction sums generalizing points with
  | nil => rfl
  | cons sum sums ih =>
      rw [List.foldl_cons, ih, addUsage, Keyed.modify, List.map_map]
      refine List.map_congr_left fun p _ => ?_
      dsimp only [Function.comp_apply]
      split_ifs
      · exact hv ..
      · rfl

theorem sum_requestPoints {db : Db} {w : Window} {g : Granularity} {f : ActivityFilter}
    (hcap : (bucketGroups db w g f).length ≤ maxBuckets) {v : SeriesPoint → Int} {p : EventRow → Bool}
    (hv : ∀ group : Str × List EventRow,
      v ⟨group.1, group.2.length, group.2.countP EventRow.failed, none, none⟩ = group.2.countP p) :
    ((requestPoints db w g f).map v).sum = (eventScope db w f).countP p := by
  rw [requestPoints, List.map_map, sum_limited hcap]
  simp only [Function.comp_def, hv]
  exact sum_countP_groups (fun e => g.bucket e.at_) p (eventScope db w f)

/-- The join keeps each event once: the ids of the services are distinct. -/
theorem withService_fst (db : Db) (e : EventRow) : (withService db e).map Prod.fst = [e] := by
  unfold withService
  have hone : (db.services.filter (·.id = e.serviceId)).length ≤ 1 := by
    have hcount := List.nodup_iff_count_le_one.1 db.nodup_services e.serviceId
    rw [List.count, List.countP_map, List.countP_eq_length_filter] at hcount
    simp only [Function.comp_def, beq_eq_decide] at hcount
    exact hcount
  split
  · rfl
  · next services hne =>
      obtain ⟨s, hs⟩ := List.length_eq_one_iff.1 (le_antisymm hone (List.length_pos_iff.2 hne))
      rw [hs]
      rfl

theorem sum_observedIntegrations {db : Db} {w : Window} {f : ActivityFilter}
    (hcap : (integrationGroups db w f).length ≤ maxIntegrations) {v : Integration → Int} {p : EventRow → Bool}
    (hv : ∀ host provider user name (rows : List (EventRow × Option ServiceRow)),
      v ⟨host, provider, user, name, rows.length, rows.countP fun r => r.1.failed⟩ = rows.countP fun r => p r.1) :
    ((observedIntegrations db w f).map v).sum = (eventScope db w f).countP p := by
  rw [observedIntegrations, List.map_map, sum_limited hcap]
  simp only [Function.comp_def, hv]
  rw [integrationGroups, sum_countP_groups]
  have hfst : ((eventScope db w f).flatMap (withService db)).map Prod.fst = eventScope db w f := by
    rw [List.map_flatMap]
    simp only [withService_fst, List.flatMap_singleton']
  rw [← hfst, List.countP_map]
  simp [hfst, Function.comp_def]

theorem requests_series {db : Db} {w : Window} {g : Granularity} {f : ActivityFilter} {series : List SeriesPoint}
    (hcap : (bucketGroups db w g f).length ≤ maxBuckets) (h : projectSeries db w g f = some series) :
    (series.map (·.requests)).sum = (eventScope db w f).length ∧
      (series.map (·.errors)).sum = (eventScope db w f).countP EventRow.failed := by
  obtain ⟨sums, -, hseries⟩ := Option.bind_eq_some_iff.1 h
  cases hseries
  constructor
  · rw [map_addUsage fun _ _ _ => rfl, sum_requestPoints (p := fun _ => true) hcap fun _ => by simp]
    simp
  · rw [map_addUsage fun _ _ _ => rfl, sum_requestPoints hcap fun _ => rfl]

theorem requests_integrations {db : Db} {w : Window} {f : ActivityFilter}
    (hcap : (integrationGroups db w f).length ≤ maxIntegrations) :
    ((observedIntegrations db w f).map (·.requests)).sum = (eventScope db w f).length ∧
      ((observedIntegrations db w f).map (·.errors)).sum = (eventScope db w f).countP EventRow.failed := by
  constructor
  · rw [sum_observedIntegrations (p := fun _ => true) hcap fun _ _ _ _ _ => by simp]
    simp
  · exact sum_observedIntegrations hcap fun _ _ _ _ _ => rfl

/-! ### The tokens -/

theorem addI64_modEq (a b : Int) : addI64 a b ≡ a + b [ZMOD 2 ^ 64] := Int.bmod_emod

theorem addI64_zero_congr {a b : Int} (h : a ≡ b [ZMOD 2 ^ 64]) : addI64 0 a = addI64 0 b := by
  have hmod : a % ((2 ^ 64 : Nat) : Int) = b % ((2 ^ 64 : Nat) : Int) := h
  rw [addI64, addI64, Int.zero_add, Int.zero_add, ← Int.emod_bmod, hmod, Int.emod_bmod]

theorem sumI64_eq (xs : List Int) : sumI64 xs = addI64 0 xs.sum := by
  have hgen : ∀ (xs : List Int) (a : Int), xs.foldl addI64 (addI64 0 a) = addI64 0 (a + xs.sum) := by
    intro xs
    induction xs with
    | nil => simp
    | cons x xs ih =>
        intro a
        rw [List.foldl_cons, addI64_addI64, ih, List.sum_cons, add_assoc]
  have hall := hgen xs 0
  rwa [zero_add] at hall

theorem addTokens_modEq (a v : Option Int) : (addTokens a v).getD 0 ≡ a.getD 0 + v.getD 0 [ZMOD 2 ^ 64] := by
  cases v with
  | none => simp [addTokens]
  | some v => exact addI64_modEq ..

/-- Usage groups whose buckets have points add their sums to the points. -/
theorem sum_foldl_addUsage {v : SeriesPoint → Int} {d : Str × Option Int × Option Int → Int}
    (hv : ∀ p sums, v { p with
        inputTokens := addTokens p.inputTokens sums.2.1, outputTokens := addTokens p.outputTokens sums.2.2 }
      ≡ v p + d sums [ZMOD 2 ^ 64])
    {sums : List (Str × Option Int × Option Int)} {points : List SeriesPoint}
    (hnodup : (points.map (·.bucketStart)).Nodup) (hin : ∀ sum ∈ sums, sum.1 ∈ points.map (·.bucketStart)) :
    ((sums.foldl addUsage points).map v).sum ≡ (points.map v).sum + (sums.map d).sum [ZMOD 2 ^ 64] := by
  induction sums generalizing points with
  | nil => simp
  | cons sum sums ih =>
      obtain ⟨hsum, hin⟩ := List.forall_mem_cons.1 hin
      have hkeys : (addUsage points sum).map (·.bucketStart) = points.map (·.bucketStart) :=
        Keyed.keys_modify fun _ h => h
      have hone : ((addUsage points sum).map v).sum ≡ (points.map v).sum + d sum [ZMOD 2 ^ 64] :=
        Keyed.sum_modify (fun p => hv p sum) hnodup hsum
      rw [List.foldl_cons, List.map_cons, List.sum_cons, ← add_assoc]
      exact (ih (hkeys ▸ hnodup) (hkeys ▸ hin)).trans (hone.add_right _)

/-- The known tokens of a column, over the rows of the scope. -/
def knownIn (column : UsageRow → Option Int) (rows : List UsageRow) : Int := (rows.map fun u => (column u).getD 0).sum

theorem known_map (column : UsageRow → Option Int) (rows : List UsageRow) :
    known (rows.map column) = knownIn column rows := by
  rw [known, knownIn, List.map_map]
  rfl

theorem usageSums_spec {group : (Str × Str × Option Str) × List UsageRow} {sums : Str × Option Int × Option Int}
    (h : usageSums group = some sums) :
    sums.1 = group.1.1 ∧ sums.2.1.getD 0 = knownIn (·.inputTokens) group.2 ∧
      sums.2.2.getD 0 = knownIn (·.outputTokens) group.2 := by
  obtain ⟨input, hinput, h⟩ := Option.bind_eq_some_iff.1 h
  obtain ⟨output, houtput, h⟩ := Option.bind_eq_some_iff.1 h
  cases h
  exact ⟨rfl, (sqlSum_getD hinput).trans (known_map ..), (sqlSum_getD houtput).trans (known_map ..)⟩

theorem loadGroup_spec {group : (Str × Option Str × Str) × List UsageRow} {loaded : UsageGroup}
    (h : loadGroup group = some loaded) :
    loaded.withUsage = group.2.countP (fun u => u.inputTokens.isSome || u.outputTokens.isSome) ∧
      loaded.inputTokens.getD 0 = knownIn (·.inputTokens) group.2 ∧
      loaded.outputTokens.getD 0 = knownIn (·.outputTokens) group.2 := by
  obtain ⟨input, hinput, h⟩ := Option.bind_eq_some_iff.1 h
  obtain ⟨output, houtput, h⟩ := Option.bind_eq_some_iff.1 h
  cases h
  exact ⟨rfl, (sqlSum_getD hinput).trans (known_map ..), (sqlSum_getD houtput).trans (known_map ..)⟩

theorem clauses_of_isEmpty {f : ActivityFilter} (h : f.isEmpty = true) (db : Db) (e : EventRow) :
    f.clauses db e = true := by
  obtain ⟨host, provider, credentialId, statusClass, endpoint, observationSource, model⟩ := f
  simp only [ActivityFilter.isEmpty, Bool.and_eq_true, Option.isNone_iff_eq_none] at h
  obtain ⟨⟨⟨⟨⟨⟨rfl, rfl⟩, rfl⟩, rfl⟩, rfl⟩, rfl⟩, rfl⟩ := h
  rfl

/-- The event of a usage row in the scope is in the scope. -/
theorem mem_eventScope_of_usage {db : Db} {w : Window} {f : ActivityFilter} (hlinked : db.Linked) {u : UsageRow}
    (hu : u ∈ usageScope db w f) : ∃ e ∈ eventScope db w f, e.at_ = u.at_ := by
  obtain ⟨hmem, hscope⟩ := List.mem_filter.1 hu
  simp only [Bool.and_eq_true, Bool.or_eq_true, decide_eq_true_eq, List.any_eq_true] at hscope
  obtain ⟨⟨hproject, htime⟩, hfilter⟩ := hscope
  obtain ⟨e, he, hid, hsame, hat⟩ := hlinked u hmem
  have heproject : e.projectId = w.project := Option.some.inj (hsame.symm.trans hproject)
  have hclauses : f.clauses db e = true := by
    rcases hfilter with hempty | ⟨e', he', ⟨hid', -⟩, hclauses⟩
    · exact clauses_of_isEmpty hempty db e
    · have hsameId : e'.id = e.id := Option.some.inj (hid'.symm.trans hid)
      rwa [← List.inj_on_of_nodup_map db.nodup_events he' he hsameId]
  refine ⟨e, List.mem_filter.2 ⟨he, ?_⟩, hat.symm⟩
  simp [heproject, ← hat, htime, hclauses]

/-- Each bucket of the usage has a point. -/
theorem bucket_mem_requestPoints {db : Db} {w : Window} {g : Granularity} {f : ActivityFilter}
    (hlinked : db.Linked) (hcap : (bucketGroups db w g f).length ≤ maxBuckets)
    {group : (Str × Str × Option Str) × List UsageRow} (hgroup : group ∈ usageGroups db w g f) :
    group.1.1 ∈ (requestPoints db w g f).map (·.bucketStart) := by
  obtain ⟨u, hu, hkey⟩ := mem_keys_groups.1 (List.mem_map_of_mem (f := Prod.fst) hgroup)
  obtain ⟨e, he, hat⟩ := mem_eventScope_of_usage hlinked hu
  have hbucket : group.1.1 ∈ (bucketGroups db w g f).map Prod.fst :=
    mem_keys_groups.2 ⟨e, he, by rw [hat, ← hkey]⟩
  rw [requestPoints, List.map_map]
  exact ((limited_perm hcap).map Prod.fst).mem_iff.2 hbucket

theorem nodup_requestPoints {db : Db} {w : Window} {g : Granularity} {f : ActivityFilter}
    (hcap : (bucketGroups db w g f).length ≤ maxBuckets) :
    ((requestPoints db w g f).map (·.bucketStart)).Nodup := by
  have hkeys : ((bucketGroups db w g f).map Prod.fst).Nodup := by
    rw [bucketGroups, keys_groups]
    exact List.nodup_dedup _
  rw [requestPoints, List.map_map]
  exact ((limited_perm hcap).map Prod.fst).nodup_iff.2 hkeys

/-- The tokens of the points are those of the usage rows, in 64 bits. -/
theorem tokens_series {db : Db} {w : Window} {g : Granularity} {f : ActivityFilter} {series : List SeriesPoint}
    (hlinked : db.Linked) (hcaps : UnderCaps db w g f) (h : projectSeries db w g f = some series) :
    sumI64 (series.map (·.inputTokens.getD 0)) = addI64 0 (knownIn (·.inputTokens) (usageScope db w f)) ∧
      sumI64 (series.map (·.outputTokens.getD 0)) = addI64 0 (knownIn (·.outputTokens) (usageScope db w f)) := by
  obtain ⟨sums, hsums, hseries⟩ := Option.bind_eq_some_iff.1 h
  cases hseries
  have hin : ∀ sum ∈ sums, sum.1 ∈ (requestPoints db w g f).map (·.bucketStart) := by
    intro sum hsum
    have hbuckets := map_of_mapM (r := Prod.fst) hsums fun _ _ h => (usageSums_spec h).1
    have hbucket : sum.1 ∈ (limited (maxBuckets * 8) (fun a b => a.1.1 ≤ b.1.1) (usageGroups db w g f)).map
        fun group => group.1.1 := hbuckets ▸ List.mem_map_of_mem hsum
    obtain ⟨group, hgroup, heq⟩ := List.mem_map.1 hbucket
    exact heq ▸ bucket_mem_requestPoints hlinked hcaps.buckets ((limited_perm hcaps.usage).mem_iff.1 hgroup)
  have hnone : ∀ v : SeriesPoint → Int, (∀ p : SeriesPoint, p.inputTokens = none → p.outputTokens = none → v p = 0) →
      ((requestPoints db w g f).map v).sum = 0 := by
    intro v hv
    refine List.sum_eq_zero fun y hy => ?_
    obtain ⟨p, hp, rfl⟩ := List.mem_map.1 hy
    obtain ⟨group, -, rfl⟩ := List.mem_map.1 hp
    exact hv _ rfl rfl
  have htotal : ∀ (column : UsageRow → Option Int) (d : Str × Option Int × Option Int → Int),
      (∀ group sum, usageSums group = some sum → d sum = knownIn column group.2) →
      (sums.map d).sum = knownIn column (usageScope db w f) := by
    intro column d hd
    rw [map_of_mapM hsums hd, sum_limited hcaps.usage]
    exact sum_groups _ _ _
  have hnodup := nodup_requestPoints hcaps.buckets
  constructor
  · have hsum := sum_foldl_addUsage (v := fun p => p.inputTokens.getD 0) (d := fun sum => sum.2.1.getD 0)
      (fun _ _ => addTokens_modEq ..) hnodup hin
    rw [hnone _ fun _ hi _ => by simp [hi], zero_add,
      htotal (·.inputTokens) _ fun _ _ h => (usageSums_spec h).2.1] at hsum
    rw [sumI64_eq]
    exact addI64_zero_congr hsum
  · have hsum := sum_foldl_addUsage (v := fun p => p.outputTokens.getD 0) (d := fun sum => sum.2.2.getD 0)
      (fun _ _ => addTokens_modEq ..) hnodup hin
    rw [hnone _ fun _ _ ho => by simp [ho], zero_add,
      htotal (·.outputTokens) _ fun _ _ h => (usageSums_spec h).2.2] at hsum
    rw [sumI64_eq]
    exact addI64_zero_congr hsum

theorem knownIn_eq_zero {rows : List UsageRow}
    (h : rows.countP (fun u => u.inputTokens.isSome || u.outputTokens.isSome) = 0) :
    knownIn (·.inputTokens) rows = 0 ∧ knownIn (·.outputTokens) rows = 0 := by
  have hnone : ∀ u ∈ rows, u.inputTokens = none ∧ u.outputTokens = none := by
    intro u hu
    have hu := List.countP_eq_zero.1 h u hu
    simpa using hu
  constructor
  · refine List.sum_eq_zero fun y hy => ?_
    obtain ⟨u, hu, rfl⟩ := List.mem_map.1 hy
    simp [(hnone u hu).1]
  · refine List.sum_eq_zero fun y hy => ?_
    obtain ⟨u, hu, rfl⟩ := List.mem_map.1 hy
    simp [(hnone u hu).2]

/-- A group without known tokens adds nothing, so the groups are added up as if each had some. -/
theorem foldl_knownTokens {groups : List ((Str × Option Str × Str) × List UsageRow)} {loaded : List UsageGroup}
    (h : groups.mapM loadGroup = some loaded) (input output : Int) :
    loaded.foldl KnownTokens.add ⟨addI64 0 input, addI64 0 output⟩
      = ⟨addI64 0 (input + (groups.map fun group => knownIn (·.inputTokens) group.2).sum),
          addI64 0 (output + (groups.map fun group => knownIn (·.outputTokens) group.2).sum)⟩ := by
  induction groups generalizing loaded input output with
  | nil =>
      rw [List.mapM_nil] at h
      cases h
      simp
  | cons group groups ih =>
      rw [List.mapM_cons] at h
      obtain ⟨b, hb, h⟩ := Option.bind_eq_some_iff.1 h
      obtain ⟨bs, hbs, h⟩ := Option.bind_eq_some_iff.1 h
      cases h
      obtain ⟨husage, hinput, houtput⟩ := loadGroup_spec hb
      have hstep : KnownTokens.add ⟨addI64 0 input, addI64 0 output⟩ b
          = ⟨addI64 0 (input + knownIn (·.inputTokens) group.2), addI64 0 (output + knownIn (·.outputTokens) group.2)⟩ := by
        unfold KnownTokens.add
        split_ifs with hzero
        · obtain ⟨hi, ho⟩ := knownIn_eq_zero (husage.symm.trans hzero)
          rw [hi, ho, add_zero, add_zero]
        · rw [hinput, houtput, addI64_addI64, addI64_addI64]
      rw [List.foldl_cons, hstep, ih hbs]
      simp only [List.map_cons, List.sum_cons, add_assoc]

/-- The known tokens of the coverage are those of the usage rows, in 64 bits. -/
theorem tokens_cost {db : Db} {w : Window} {f : ActivityFilter} {cost : KnownTokens}
    (hcap : (dayGroups db w f).length ≤ maxGroups) (h : projectCostCoverage db w f = some cost) :
    cost = ⟨addI64 0 (knownIn (·.inputTokens) (usageScope db w f)),
      addI64 0 (knownIn (·.outputTokens) (usageScope db w f))⟩ := by
  obtain ⟨loaded, hloaded, hcost⟩ := Option.bind_eq_some_iff.1 h
  cases hcost
  have hcap' : (dayGroups db w f).length ≤ maxGroups + 1 := hcap.trans (Nat.le_succ _)
  have hlength : loaded.length ≤ maxGroups := by
    have hmap := map_of_mapM (q := fun _ => ()) (r := fun _ => ()) hloaded fun _ _ _ => rfl
    have hsame := congrArg List.length hmap
    rw [List.length_map, List.length_map, (limited_perm hcap').length_eq] at hsame
    exact hsame.trans_le hcap
  have htotal : ∀ column : UsageRow → Option Int,
      ((limited (maxGroups + 1) dayOrder (dayGroups db w f)).map fun group => knownIn column group.2).sum
        = knownIn column (usageScope db w f) := by
    intro column
    rw [sum_limited hcap']
    exact sum_groups _ _ _
  have hfold := foldl_knownTokens hloaded 0 0
  rw [htotal (·.inputTokens), htotal (·.outputTokens), zero_add, zero_add] at hfold
  rw [List.take_of_length_le hlength]
  exact hfold

/-! ### The errors -/

/-- A request the metrics take for an error and the chart does not: its status is neither 2xx to 5xx, and it was
carried without a transport error. -/
def EventRow.metricsOnly (e : EventRow) : Bool := !e.succeeded && !e.failed

/-- A request the chart takes for an error and the metrics do not: a success with a transport error. -/
def EventRow.chartOnly (e : EventRow) : Bool := e.succeeded && e.failed

theorem countP_succeeded (rows : List EventRow) :
    rows.countP EventRow.succeeded
      = (rows.countP fun e => e.statusClass = "2xx".toList) + rows.countP fun e => e.statusClass = "3xx".toList := by
  induction rows with
  | nil => rfl
  | cons e rows ih =>
      have hone : (if e.succeeded = true then 1 else 0)
          = (if e.statusClass = "2xx".toList then 1 else 0) + if e.statusClass = "3xx".toList then 1 else 0 := by
        simp only [EventRow.succeeded, Bool.or_eq_true, decide_eq_true_eq]
        by_cases h2 : e.statusClass = "2xx".toList
        · have h3 : e.statusClass ≠ "3xx".toList := by
            rw [h2]
            decide
          rw [if_pos (.inl h2), if_pos h2, if_neg h3]
        · simp only [h2, false_or, if_false, zero_add]
      simp only [List.countP_cons, ih, hone, decide_eq_true_eq]
      omega

/-- The errors of the metrics are the requests without a success. -/
theorem errors_projectMetrics (db : Db) (w : Window) (f : ActivityFilter) :
    (projectMetrics db w f).errors = (eventScope db w f).countP fun e => !e.succeeded := by
  have hlength := List.length_eq_countP_add_countP EventRow.succeeded (l := eventScope db w f)
  have hsucceeded := countP_succeeded (eventScope db w f)
  simp only [decide_not, Bool.decide_eq_true] at hlength
  simp only [projectMetrics]
  omega

theorem countP_not_succeeded (rows : List EventRow) :
    (rows.countP fun e => !e.succeeded) + rows.countP EventRow.chartOnly
      = rows.countP EventRow.failed + rows.countP EventRow.metricsOnly := by
  induction rows with
  | nil => rfl
  | cons e rows ih =>
      simp only [List.countP_cons, EventRow.chartOnly, EventRow.metricsOnly]
      by_cases hs : e.succeeded = true <;> by_cases hf : e.failed = true <;> simp [hs, hf] <;> omega

/-! ### The figures of a snapshot -/

/-- Requests and tokens are counted over one population. -/
theorem onePopulation_of_activityOnly {db : Db} {w : Window} {g : Granularity} {f : ActivityFilter}
    {s : ActivitySnapshot} (hlinked : db.Linked) (hcaps : UnderCaps db w g f)
    (h : activityOnly db w g f = some s) : s.OnePopulation := by
  obtain ⟨series, hseries, h⟩ := Option.bind_eq_some_iff.1 h
  obtain ⟨cost, hcost, h⟩ := Option.bind_eq_some_iff.1 h
  cases h
  have htokens := tokens_series hlinked hcaps hseries
  have hknown := tokens_cost hcaps.days hcost
  exact ⟨(requests_series hcaps.buckets hseries).1.symm, (requests_integrations hcaps.integrations).1.symm,
    htokens.1.trans (by rw [hknown]), htokens.2.trans (by rw [hknown])⟩

/-- The figures of a snapshot agree when as many requests are an error of the metrics alone as are one of the chart
alone. -/
theorem figures_agree_iff {db : Db} {w : Window} {g : Granularity} {f : ActivityFilter} {s : ActivitySnapshot}
    (hlinked : db.Linked) (hcaps : UnderCaps db w g f) (h : activityOnly db w g f = some s) :
    (s.OnePopulation ∧ s.OneErrorCount) ↔
      (eventScope db w f).countP EventRow.metricsOnly = (eventScope db w f).countP EventRow.chartOnly := by
  have hone := onePopulation_of_activityOnly hlinked hcaps h
  obtain ⟨series, hseries, h⟩ := Option.bind_eq_some_iff.1 h
  obtain ⟨cost, hcost, h⟩ := Option.bind_eq_some_iff.1 h
  cases h
  have hmetrics := errors_projectMetrics db w f
  have hchart := (requests_series hcaps.buckets hseries).2
  have hintegrations := (requests_integrations hcaps.integrations).2
  have hboth := countP_not_succeeded (eventScope db w f)
  constructor
  · rintro ⟨-, herrors, -⟩
    dsimp only at herrors
    omega
  · intro heq
    refine ⟨hone, ?_, ?_⟩
    · dsimp only
      omega
    · dsimp only
      omega

/-- A request with usage, answered 2xx, and one of the given status class without a transport error. -/
def answeredDb (statusClass : Str) : Db where
  events :=
    [⟨"a".toList, "p".toList, "s".toList, "2026-01-01T00:00:00Z".toList, "api.example.com".toList, "/v1".toList,
        "2xx".toList, "gateway".toList, "none".toList, none⟩,
      ⟨"b".toList, "p".toList, "s".toList, "2026-01-01T00:01:00Z".toList, "api.example.com".toList, "/v1".toList,
        statusClass, "gateway".toList, "none".toList, none⟩]
  usage := [⟨some "a".toList, "2026-01-01T00:00:00Z".toList, "openai".toList, some "p".toList, none, some 3, none⟩]
  services := [⟨"s".toList, none, none, none⟩]
  nodup_events := show ["a".toList, "b".toList].Nodup by decide
  nodup_services := by decide

/-- The project's requests from the start of the year. -/
def yearWindow : Window := ⟨"p".toList, "2026".toList, none⟩

def noFilter : ActivityFilter := ⟨none, none, none, none, none, none, none⟩

/-- A snapshot of two requests with three input tokens. -/
def twoRequests (metricsErrors errors : Int) : ActivitySnapshot :=
  ⟨⟨2, metricsErrors⟩, [⟨"2026-01-01T00:00:00Z".toList, 2, errors, some 3, none⟩],
    [⟨"api.example.com".toList, none, none, none, 2, errors⟩], ⟨3, 0⟩⟩

theorem linked_answeredDb (statusClass : Str) : (answeredDb statusClass).Linked := by
  intro u hu
  rw [List.mem_singleton.1 hu]
  exact ⟨_, List.mem_cons_self, rfl, rfl, rfl⟩

theorem figures_agree_iff_answered :
    ((twoRequests 1 1).OnePopulation ∧ (twoRequests 1 1).OneErrorCount) ↔
      (eventScope (answeredDb "4xx".toList) yearWindow noFilter).countP EventRow.metricsOnly
        = (eventScope (answeredDb "4xx".toList) yearWindow noFilter).countP EventRow.chartOnly :=
  figures_agree_iff (g := .day) (linked_answeredDb _) ⟨by decide, by decide, by decide, by decide⟩ (by decide)

/-- A protocol switch (1xx) is an error of the metrics, and none of the chart and the integrations. -/
theorem switch_counted_apart :
    (answeredDb "1xx".toList).Linked ∧ UnderCaps (answeredDb "1xx".toList) yearWindow .day noFilter ∧
      activityOnly (answeredDb "1xx".toList) yearWindow .day noFilter = some (twoRequests 1 0) ∧
      ¬ ((twoRequests 1 0).OnePopulation ∧ (twoRequests 1 0).OneErrorCount) := by
  refine ⟨linked_answeredDb _, ⟨by decide, by decide, by decide, by decide⟩, by decide, ?_⟩
  rintro ⟨-, herrors, -⟩
  revert herrors
  decide

end Tethra.ProjectActivity
