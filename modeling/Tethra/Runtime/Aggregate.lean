import Tethra.Core.Clock
import Tethra.Lib.Grouped

set_option autoImplicit false

/-! # Metric buckets (`core/src/runtime/aggregate.rs`, `core/src/runtime/retention.rs`)

The request events, the hour and day buckets made from them, and the sweep that deletes old events. A
bucket row is its key with its 27 counters; the dates of SQLite and of the `time` crate are
parameters. -/

namespace Tethra.Runtime

open Clock Grouped

/-- The columns of `runtime_request_events` that the buckets read. -/
structure Event where
  at_ : Timestamp
  projectId : Str
  serviceId : Str
  /-- The id of a credential is not empty. -/
  credentialId : Option {c : Str // c ≠ []}
  statusClass : Str
  outcome : Str
  statusCode : Option Int
  latencyMs : Option Int
  requestBytes : Option Int
  responseBytes : Option Int
  deriving DecidableEq

/-- The columns of a bucket behind its start; the credential is empty for the row of all. -/
structure GroupKey where
  projectId : Str
  serviceId : Str
  credentialId : Str
  deriving DecidableEq, Repr

abbrev Counters := Fin 27 → Int

/-- A row of `runtime_metric_buckets` of one granularity. -/
abbrev BucketRow := (Str × GroupKey) × Counters

def flag (p : Bool) : Int := if p then 1 else 0

def Event.statusIs (e : Event) (c : String) : Int := flag (e.statusClass = c.toList)

def Event.outcomeIs (e : Event) (o : String) : Int := flag (e.outcome = o.toList)

/-- The latency is above the lower bound and not above the upper one. -/
def Event.latencyIn (e : Event) (lower upper : Option Int) : Int :=
  flag (e.latencyMs.any fun ms => lower.all (· < ms) && upper.all (ms ≤ ·))

/-- What an event adds to each counter (`EVENT_AGG`, in the order of `COUNTER_COLS`). -/
def eventAgg (e : Event) : Counters :=
  ![1, e.statusIs "2xx", e.statusIs "3xx", e.statusIs "4xx", e.statusIs "5xx",
    e.outcomeIs "auth_error", flag (e.statusCode = some 403), e.outcomeIs "rate_limited",
    e.outcomeIs "server_error", e.outcomeIs "transport_error", e.outcomeIs "tls_error",
    e.requestBytes.getD 0, e.responseBytes.getD 0,
    e.latencyIn none (some 1), e.latencyIn (some 1) (some 2), e.latencyIn (some 2) (some 5),
    e.latencyIn (some 5) (some 10), e.latencyIn (some 10) (some 25), e.latencyIn (some 25) (some 50),
    e.latencyIn (some 50) (some 100), e.latencyIn (some 100) (some 250),
    e.latencyIn (some 250) (some 500), e.latencyIn (some 500) (some 1000),
    e.latencyIn (some 1000) (some 2500), e.latencyIn (some 2500) (some 5000),
    e.latencyIn (some 5000) (some 10000), e.latencyIn (some 10000) none]

/-- The groups of an event: all credentials, and its own. -/
def Event.keys (e : Event) : List GroupKey :=
  ⟨e.projectId, e.serviceId, []⟩ ::
    (e.credentialId.map fun c => ⟨e.projectId, e.serviceId, c.val⟩).toList

/-- SQLite's `strftime` at hours and days, and the hour after a timestamp. -/
structure Dates where
  strftimeHour : Str → Str
  strftimeDay : Str → Str
  plusHour : Str → Option Str

structure MetricsDb where
  events : List Event
  hours : List BucketRow
  days : List BucketRow
  watermark : Option Str

def MetricsDb.empty : MetricsDb := ⟨[], [], [], none⟩

def MetricsDb.insertEvent (db : MetricsDb) (e : Event) : MetricsDb :=
  { db with events := db.events ++ [e] }

/-- An `INSERT` of rows under the unique key of the table. -/
def insertRows (kept new : List BucketRow) : Except CoreError (List BucketRow) :=
  if new.any fun r => (kept.map Prod.fst).contains r.1 then
    .error (.db "UNIQUE constraint failed: runtime_metric_buckets".toList)
  else .ok (kept ++ new)

/-- What events put into the hour buckets, one row for each of their groups. -/
def hourEntries (dates : Dates) (events : List Event) : List BucketRow :=
  events.flatMap fun e => e.keys.map fun k => ((dates.strftimeHour e.at_.toRfc3339, k), eventAgg e)

/-- What hour rows put into the day buckets. -/
def dayEntries (dates : Dates) (hours : List BucketRow) : List BucketRow :=
  hours.map fun r => ((dates.strftimeDay r.1.1, r.1.2), r.2)

/-- The half-open range of a string. -/
def inRange (lower upper s : Str) : Bool := lower ≤ s && s < upper

/-- The two inserts write rows of different keys, so they are one here. -/
def recomputeHourBuckets (dates : Dates) (fromHour toHour : Str) (db : MetricsDb) :
    Except CoreError MetricsDb := do
  let kept := db.hours.filter fun r => !inRange fromHour toHour r.1.1
  let selected := db.events.filter fun e => inRange fromHour toHour e.at_.toRfc3339
  let hours ← insertRows kept (groupSum (hourEntries dates selected))
  return { db with hours }

def recomputeDayBuckets (dates : Dates) (fromDay : Str) (db : MetricsDb) :
    Except CoreError MetricsDb := do
  let kept := db.days.filter fun r => !decide (fromDay ≤ r.1.1)
  let source := db.hours.filter fun r => decide (fromDay ≤ r.1.1)
  let days ← insertRows kept (groupSum (dayEntries dates source))
  return { db with days }

/-- The hours and then the days from `fromHour` on, in one transaction. -/
def recompute (dates : Dates) (fromHour toHour : Str) (db : MetricsDb) : Except CoreError MetricsDb := do
  let db ← recomputeHourBuckets dates fromHour toHour db
  recomputeDayBuckets dates (dayFloor fromHour) db

def rollUp (dates : Dates) (now : Str) (db : MetricsDb) : Except CoreError MetricsDb :=
  let fromHour := hourFloor (db.watermark.getD epoch)
  let currentHour := hourFloor now
  if currentHour ≤ fromHour then .ok db
  else do
    let db ← recompute dates fromHour currentHour db
    return { db with watermark := some currentHour }

def nextHour (dates : Dates) (hourFloorStr : Str) : Str :=
  match dates.plusHour hourFloorStr with
  | some t => hourFloor t
  | none => hourFloorStr

def rerollHours (dates : Dates) (firstAt lastAt : Str) (db : MetricsDb) : Except CoreError MetricsDb :=
  let fromHour := hourFloor firstAt
  let toHour := nextHour dates (hourFloor lastAt)
  if toHour ≤ fromHour then .ok db else recompute dates fromHour toHour db

/-- The bound below which the sweep deletes events: nothing before the first roll-up. -/
def MetricsDb.eventBound (db : MetricsDb) (eventCutoff : Str) : Str :=
  match db.watermark with
  | none => []
  | some w => min w eventCutoff

/-- `sweep_with`, with the two cutoffs that it computes from the retention settings and the time. -/
def sweepWith (eventCutoff aggCutoff : Str) (db : MetricsDb) : MetricsDb :=
  { db with
    events := db.events.filter fun e => !decide (e.at_.toRfc3339 < db.eventBound eventCutoff)
    hours := db.hours.filter fun r => !decide (r.1.1 < aggCutoff)
    days := db.days.filter fun r => !decide (r.1.1 < aggCutoff) }

/-- A transaction that fails leaves the database as it was. -/
def orUnchanged (db : MetricsDb) : Except CoreError MetricsDb → MetricsDb
  | .ok db => db
  | .error _ => db

/-- What SQLite documents: the hour of a timestamp, and the day of an hour. -/
structure Dates.Sound (dates : Dates) : Prop where
  hour : ∀ t : Timestamp, dates.strftimeHour t.toRfc3339 = hourStart t.hourKey
  day : ∀ t : Timestamp, dates.strftimeDay (hourStart t.hourKey) = dayStart t.dayKey

/-! ## What one operation does -/

theorem insertRows_eq_ok {kept new rows : List BucketRow} (h : insertRows kept new = .ok rows) :
    rows = kept ++ new ∧ ∀ r ∈ new, r.1 ∉ kept.map Prod.fst := by
  unfold insertRows at h
  split_ifs at h with hconflict
  refine ⟨(Except.ok.inj h).symm, ?_⟩
  intro r hr hmem
  refine hconflict (List.any_eq_true.2 ⟨r, hr, ?_⟩)
  simpa using hmem

/-- A recompute that succeeds: the hours of the range are made anew, and then the days. -/
theorem recompute_eq_ok {dates : Dates} {fromHour toHour : Str} {db db' : MetricsDb}
    (h : recompute dates fromHour toHour db = .ok db') :
    db'.events = db.events ∧ db'.watermark = db.watermark ∧
      insertRows (db.hours.filter fun r => !inRange fromHour toHour r.1.1)
        (groupSum (hourEntries dates
          (db.events.filter fun e => inRange fromHour toHour e.at_.toRfc3339))) = .ok db'.hours ∧
      insertRows (db.days.filter fun r => !decide (dayFloor fromHour ≤ r.1.1))
        (groupSum (dayEntries dates
          (db'.hours.filter fun r => decide (dayFloor fromHour ≤ r.1.1)))) = .ok db'.days := by
  obtain ⟨mid, hmid, hday⟩ := bind_eq_ok.1 h
  obtain ⟨hours, hhours, hmid'⟩ := bind_eq_ok.1 hmid
  obtain rfl := Except.ok.inj hmid'
  obtain ⟨days, hdays, hday'⟩ := bind_eq_ok.1 hday
  obtain rfl := Except.ok.inj hday'
  exact ⟨rfl, rfl, hhours, hdays⟩

/-- A second roll-up in the same hour changes nothing, whatever the first did. -/
theorem rollUp_again (dates : Dates) (now : Str) (db : MetricsDb) :
    let db' := orUnchanged db (rollUp dates now db)
    orUnchanged db' (rollUp dates now db') = db' := by
  dsimp only
  cases hroll : rollUp dates now db with
  | error e => rw [orUnchanged, hroll, orUnchanged]
  | ok db' =>
      simp only [orUnchanged]
      unfold rollUp at hroll
      dsimp only at hroll
      split_ifs at hroll with hdone
      · obtain rfl := Except.ok.inj hroll
        rw [rollUp]
        simp only [if_pos hdone]
      · obtain ⟨mid, -, hmid⟩ := bind_eq_ok.1 hroll
        obtain rfl := Except.ok.inj hmid
        obtain ⟨h, hlen, hfloor⟩ := exists_hourFloor now
        have hsame : hourFloor (hourFloor now) = hourFloor now := by
          rw [hfloor, hourFloor_hourStart hlen]
        simp [rollUp, hsame]

end Tethra.Runtime
