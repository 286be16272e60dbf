import Tethra.Runtime.Aggregate
import Tethra.Lib.Runs

set_option autoImplicit false

/-! # Which events the buckets count

Beside the database the ledger keeps, for every event that was ever inserted, whether the bucket of its
hour counts it. That is decided by the recomputes of its hour: the last one must have come after the
event, and it must have taken the event in (`Takes`). The ledger accounts for every hour bucket
(`Ledger.Inv`). -/

namespace Tethra.Runtime

open Clock Grouped Runs

inductive Tally where
  | uncounted
  | counted
  /-- Counted in a bucket that was deleted since. -/
  | expired
  deriving DecidableEq, Repr

structure Tracked where
  event : Event
  tally : Tally
  deriving DecidableEq

/-- The start of the event's hour. -/
def Event.hour (e : Event) : Str := hourStart e.at_.hourKey

/-- The recompute from the hour `f` to the hour `g` takes the event in: its hour lies in the range, but
    events within a first second are taken in with the hour before theirs. -/
def Takes (f g : Str) (e : Event) : Prop :=
  (f < e.hour ∨ f = e.hour ∧ ¬e.at_.InFirstSecond) ∧ (e.hour < g ∨ e.hour = g ∧ e.at_.InFirstSecond)

instance (f g : Str) (e : Event) : Decidable (Takes f g e) := inferInstanceAs (Decidable (_ ∧ _))

/-- A stored event after a recompute: its hour was made anew, or it was taken in from outside. -/
def Tracked.recount (f g : Str) (x : Tracked) : Tracked :=
  if inRange f g x.event.hour then
    { x with tally := if Takes f g x.event then .counted else .uncounted }
  else if Takes f g x.event then { x with tally := .counted }
  else x

/-- A swept event after a recompute: its hour was made anew without it. -/
def Tracked.forget (f g : Str) (x : Tracked) : Tracked :=
  if inRange f g x.event.hour ∧ x.tally = .counted then { x with tally := .uncounted } else x

/-- An event after the buckets before the cutoff were deleted. -/
def Tracked.expire (cutoff : Str) (x : Tracked) : Tracked :=
  if x.event.hour < cutoff ∧ x.tally = .counted then { x with tally := .expired } else x

structure Ledger where
  db : MetricsDb
  stored : List Tracked
  swept : List Tracked

def Ledger.empty : Ledger := ⟨.empty, [], []⟩

def Ledger.insertEvent (l : Ledger) (e : Event) : Ledger :=
  { l with db := l.db.insertEvent e, stored := l.stored ++ [⟨e, .uncounted⟩] }

/-- The outcome of a roll-up or a re-roll of the range, if there was one. -/
def Ledger.settle (l : Ledger) (range : Option (Str × Str)) : Except CoreError MetricsDb → Ledger
  | .error _ => l
  | .ok db =>
      match range with
      | none => { l with db := db }
      | some (f, g) => ⟨db, l.stored.map (.recount f g), l.swept.map (.forget f g)⟩

/-- The range that a roll-up recomputes. -/
def rollUpRange (now : Str) (db : MetricsDb) : Option (Str × Str) :=
  let fromHour := hourFloor (db.watermark.getD epoch)
  if hourFloor now ≤ fromHour then none else some (fromHour, hourFloor now)

/-- The range that a re-roll recomputes. -/
def rerollRange (dates : Dates) (firstAt lastAt : Str) : Option (Str × Str) :=
  let toHour := nextHour dates (hourFloor lastAt)
  if toHour ≤ hourFloor firstAt then none else some (hourFloor firstAt, toHour)

def Ledger.sweep (l : Ledger) (eventCutoff aggCutoff : Str) : Ledger :=
  let old := fun x : Tracked => decide (x.event.at_.toRfc3339 < l.db.eventBound eventCutoff)
  { db := sweepWith eventCutoff aggCutoff l.db
    stored := (l.stored.filter fun x => !old x).map (.expire aggCutoff)
    swept := (l.swept ++ l.stored.filter old).map (.expire aggCutoff) }

/-- An insert, a roll-up or a re-roll. -/
inductive RollStep (dates : Dates) : Ledger → Ledger → Prop where
  | insertEvent (l : Ledger) (e : Event) : RollStep dates l (l.insertEvent e)
  | rollUp (l : Ledger) (now : Timestamp) : RollStep dates l
      (l.settle (rollUpRange now.toRfc3339 l.db) (rollUp dates now.toRfc3339 l.db))
  | rerollHours (l : Ledger) (firstAt lastAt : Timestamp) : RollStep dates l
      (l.settle (rerollRange dates firstAt.toRfc3339 lastAt.toRfc3339)
        (rerollHours dates firstAt.toRfc3339 lastAt.toRfc3339 l.db))

/-! ## Contributions -/

/-- What an event adds to a bucket. -/
def contribution (key : Str × GroupKey) (e : Event) : Counters :=
  if e.hour = key.1 ∧ key.2 ∈ e.keys then eventAgg e else 0

theorem nodup_keys (e : Event) : e.keys.Nodup := by
  unfold Event.keys
  match e.credentialId with
  | none => exact List.nodup_singleton _
  | some ⟨c, hc⟩ =>
      refine List.nodup_cons.2 ⟨?_, List.nodup_singleton _⟩
      intro hmem
      have hkey := List.mem_singleton.1 hmem
      exact hc (GroupKey.mk.inj hkey).2.2.symm

/-- Every event counts in the group of all credentials. -/
theorem allKey_mem (e : Event) : (⟨e.projectId, e.serviceId, []⟩ : GroupKey) ∈ e.keys :=
  List.mem_cons_self ..

theorem total_hourEntries {dates : Dates} (hdates : dates.Sound) (events : List Event)
    (key : Str × GroupKey) :
    total (hourEntries dates events) key = (events.map (contribution key)).sum := by
  rw [hourEntries, total_flatMap]
  congr 1
  refine List.map_congr_left ?_
  intro e _
  obtain ⟨hour, k⟩ := key
  rw [hdates.hour]
  unfold contribution
  by_cases hmem : e.hour = hour ∧ k ∈ e.keys
  · obtain ⟨rfl, hk⟩ := hmem
    rw [if_pos ⟨rfl, hk⟩]
    refine total_of_mem ?_ (List.mem_map_of_mem (f := fun k => ((e.hour, k), eventAgg e)) hk)
    have hnodup := (nodup_keys e).map (f := fun k => (e.hour, k)) fun _ _ h => (Prod.mk.inj h).2
    simpa [Function.comp_def, Event.hour] using hnodup
  · rw [if_neg hmem]
    refine total_eq_zero ?_
    intro r hr heq
    obtain ⟨k', hk', rfl⟩ := List.mem_map.1 hr
    obtain ⟨hhour, rfl⟩ := Prod.mk.inj heq
    exact hmem ⟨hhour, hk'⟩

/-- The keys of entries are those of their events. -/
theorem mem_keys_hourEntries {dates : Dates} (hdates : dates.Sound) {events : List Event}
    {key : Str × GroupKey} :
    key ∈ (hourEntries dates events).map Prod.fst ↔ ∃ e ∈ events, e.hour = key.1 ∧ key.2 ∈ e.keys := by
  simp only [hourEntries, List.mem_map, List.mem_flatMap, hdates.hour]
  constructor
  · rintro ⟨r, ⟨e, he, k, hk, rfl⟩, rfl⟩
    exact ⟨e, he, rfl, hk⟩
  · rintro ⟨e, he, hhour, hk⟩
    exact ⟨((e.hour, key.2), eventAgg e), ⟨e, he, key.2, hk, rfl⟩, Prod.ext hhour rfl⟩

/-- The strings select the events that the recompute takes in. -/
theorem inRange_iff_takes {f g : Str} (hf : f.length = 13) (hg : g.length = 13) (e : Event) :
    inRange (hourStart f) (hourStart g) e.at_.toRfc3339 = true ↔
      Takes (hourStart f) (hourStart g) e := by
  have hlen := e.at_.length_hourKey
  unfold inRange Takes Event.hour
  rw [Bool.and_eq_true, decide_eq_true_iff, decide_eq_true_iff, hourStart_le_toRfc3339 _ hf,
    toRfc3339_lt_hourStart _ hg, hourStart_lt (hf.trans hlen.symm), hourStart_lt (hlen.trans hg.symm)]
  have hinj : ∀ a b : Str, hourStart a = hourStart b ↔ a = b := fun a b => List.append_left_inj _
  rw [hinj, hinj]

/-- What the tallies say of a bucket. -/
def Ledger.tallied (l : Ledger) (key : Str × GroupKey) : Counters :=
  ((l.stored ++ l.swept).map fun x =>
    if x.tally = .counted then contribution key x.event else 0).sum

/-- The ledger accounts for the events and for every hour bucket. -/
structure Ledger.Inv (l : Ledger) : Prop where
  events : l.db.events = l.stored.map Tracked.event
  hours : ∀ key, total l.db.hours key = l.tallied key
  rows : ∀ x ∈ l.stored ++ l.swept, x.tally = .counted → ∀ k ∈ x.event.keys,
    (x.event.hour, k) ∈ l.db.hours.map Prod.fst
  starts : ∀ r ∈ l.db.hours, ∃ t : Timestamp, r.1.1 = hourStart t.hourKey
  distinct : (l.db.hours.map Prod.fst).Nodup

/-! ## A recompute -/

section Recompute

variable {dates : Dates} {l : Ledger} {f g : Str} {db' : MetricsDb}

/-- The ledger after a recompute. -/
def Ledger.recomputed (l : Ledger) (f g : Str) (db : MetricsDb) : Ledger :=
  ⟨db, l.stored.map (.recount f g), l.swept.map (.forget f g)⟩

@[simp] theorem event_recount (x : Tracked) : (x.recount f g).event = x.event := by
  unfold Tracked.recount
  split_ifs <;> rfl

@[simp] theorem event_forget (x : Tracked) : (x.forget f g).event = x.event := by
  unfold Tracked.forget
  split_ifs <;> rfl

/-- The rows that a recompute keeps and makes. -/
structure Remade (dates : Dates) (l : Ledger) (f g : Str) (hours : List BucketRow) : Prop where
  eq : hours = (l.db.hours.filter fun r => !inRange f g r.1.1) ++
    groupSum (hourEntries dates ((l.stored.map Tracked.event).filter fun e => decide (Takes f g e)))
  fresh : ∀ x ∈ l.stored, Takes f g x.event → ∀ k ∈ x.event.keys,
    inRange f g x.event.hour = false → (x.event.hour, k) ∉ l.db.hours.map Prod.fst

theorem remade_of_recompute (hdates : dates.Sound) (hinv : l.Inv) {f g : Str} (hf : f.length = 13)
    (hg : g.length = 13) (h : recompute dates (hourStart f) (hourStart g) l.db = .ok db') :
    db'.events = l.db.events ∧ Remade dates l (hourStart f) (hourStart g) db'.hours := by
  obtain ⟨hevents, -, hhours, -⟩ := recompute_eq_ok h
  have hselected : (l.db.events.filter fun e => inRange (hourStart f) (hourStart g) e.at_.toRfc3339)
      = (l.stored.map Tracked.event).filter fun e => decide (Takes (hourStart f) (hourStart g) e) := by
    rw [hinv.events]
    refine List.filter_congr ?_
    intro e _
    rw [Bool.eq_iff_iff, inRange_iff_takes hf hg, decide_eq_true_iff]
  obtain ⟨hrows, hconflict⟩ := insertRows_eq_ok hhours
  rw [hselected] at hrows hconflict
  refine ⟨hevents, hrows, ?_⟩
  intro x hx htakes k hk hout hmem
  -- a row of the event's bucket that was kept is in conflict with the one that is made
  have hnew : (x.event.hour, k) ∈ (groupSum (hourEntries dates ((l.stored.map Tracked.event).filter
      fun e => decide (Takes (hourStart f) (hourStart g) e)))).map Prod.fst := by
    rw [mem_keys_groupSum, mem_keys_hourEntries hdates]
    refine ⟨x.event, List.mem_filter.2 ⟨List.mem_map_of_mem hx, ?_⟩, rfl, hk⟩
    exact decide_eq_true htakes
  obtain ⟨r, hr, hrkey⟩ := List.mem_map.1 hnew
  obtain ⟨r', hr', hr'key⟩ := List.mem_map.1 hmem
  refine hconflict r hr ?_
  rw [hrkey, ← hr'key]
  refine List.mem_map_of_mem (List.mem_filter.2 ⟨hr', ?_⟩)
  rw [hr'key]
  simp [hout]

/-- One stored event: what it adds afterwards is what it added to a row that was kept, and what it adds
    to a row that was made. -/
theorem recount_contribution (hrows : ∀ k ∈ l.stored ++ l.swept, k.tally = .counted →
      ∀ j ∈ k.event.keys, (k.event.hour, j) ∈ l.db.hours.map Prod.fst)
    {hours : List BucketRow} (hremade : Remade dates l f g hours) {x : Tracked} (hx : x ∈ l.stored)
    (key : Str × GroupKey) :
    (if (x.recount f g).tally = .counted then contribution key (x.recount f g).event else 0)
      = (if inRange f g key.1 then 0
          else if x.tally = .counted then contribution key x.event else 0)
        + if Takes f g x.event then contribution key x.event else 0 := by
  rw [event_recount]
  by_cases hmem : x.event.hour = key.1 ∧ key.2 ∈ x.event.keys
  · obtain ⟨hhour, hk⟩ := hmem
    unfold Tracked.recount
    rw [hhour]
    by_cases hin : inRange f g key.1 = true
    · rw [if_pos hin, if_pos hin, zero_add]
      by_cases htakes : Takes f g x.event
      · simp [htakes]
      · simp [htakes]
    · rw [if_neg hin, if_neg hin]
      by_cases htakes : Takes f g x.event
      · have hout : inRange f g x.event.hour = false := by
          rw [hhour]
          simpa using hin
        have huncounted : x.tally ≠ .counted := by
          intro hcounted
          exact hremade.fresh x hx htakes key.2 hk hout
            (hrows x (List.mem_append_left _ hx) hcounted key.2 hk)
        simp [htakes, huncounted]
      · simp [htakes]
  · have hzero : contribution key x.event = 0 := if_neg hmem
    simp [hzero]

/-- One swept event: a row that was kept counts it as before. -/
theorem forget_contribution (x : Tracked) (key : Str × GroupKey) :
    (if (x.forget f g).tally = .counted then contribution key (x.forget f g).event else 0)
      = if inRange f g key.1 then 0
          else if x.tally = .counted then contribution key x.event else 0 := by
  rw [event_forget]
  by_cases hmem : x.event.hour = key.1 ∧ key.2 ∈ x.event.keys
  · obtain ⟨hhour, -⟩ := hmem
    unfold Tracked.forget
    rw [hhour]
    by_cases hin : inRange f g key.1 = true
    · by_cases hcounted : x.tally = .counted
      · simp [hin, hcounted]
      · simp [hcounted]
    · simp [hin]
  · have hzero : contribution key x.event = 0 := if_neg hmem
    simp [hzero]

theorem sum_map_ite_zero {α : Type} (p : Prop) [Decidable p] (c : α → Counters) (xs : List α) :
    (xs.map fun x => if p then 0 else c x).sum = if p then 0 else (xs.map c).sum := by
  by_cases h : p
  · simp [h]
  · simp [h]

theorem sum_filter_takes (xs : List Tracked) (key : Str × GroupKey) :
    (((xs.map Tracked.event).filter fun e => decide (Takes f g e)).map (contribution key)).sum
      = (xs.map fun x => if Takes f g x.event then contribution key x.event else 0).sum := by
  induction xs with
  | nil => rfl
  | cons x xs ih =>
      by_cases h : Takes f g x.event
      · simp [h, ih]
      · simp [h, ih]

/-- The tallies after a recompute account for the rows that were kept and made. -/
theorem tallied_recomputed (hdates : dates.Sound) (hinv : l.Inv)
    (hremade : Remade dates l f g db'.hours) (key : Str × GroupKey) :
    total db'.hours key = (l.recomputed f g db').tallied key := by
  have hkept : total (l.db.hours.filter fun r => !inRange f g r.1.1) key
      = if inRange f g key.1 then 0 else l.tallied key := by
    by_cases hin : inRange f g key.1 = true
    · rw [if_pos hin]
      refine total_eq_zero ?_
      rintro r hr rfl
      simp [hin] at hr
    · rw [if_neg hin, ← hinv.hours]
      refine total_filter ?_
      rintro r - rfl
      simpa using hin
  have hstored := List.map_congr_left (l := l.stored)
    fun x hx => recount_contribution hinv.rows hremade hx key
  have hswept := List.map_congr_left (l := l.swept) fun x _ => forget_contribution (f := f) (g := g) x key
  rw [hremade.eq, total_append, hkept, total_groupSum, total_hourEntries hdates, sum_filter_takes]
  simp only [Ledger.tallied, Ledger.recomputed, List.map_append, List.sum_append, List.map_map,
    Function.comp_def]
  rw [hstored, hswept, List.sum_map_add, sum_map_ite_zero, sum_map_ite_zero]
  by_cases hin : inRange f g key.1 = true
  · simp [hin]
  · simp only [hin, if_false, Bool.false_eq_true]
    abel

/-- What a recompute has counted: taken in now, or counted before in an hour outside the range. -/
theorem counted_recount {x : Tracked} (h : (x.recount f g).tally = .counted) :
    Takes f g x.event ∨ inRange f g x.event.hour = false ∧ x.tally = .counted := by
  by_cases htakes : Takes f g x.event
  · exact .inl htakes
  · by_cases hin : inRange f g x.event.hour = true
    · simp [Tracked.recount, hin, htakes] at h
    · have hsame : x.recount f g = x := by simp [Tracked.recount, hin, htakes]
      rw [hsame] at h
      exact .inr ⟨by simpa using hin, h⟩

theorem counted_forget {x : Tracked} (h : (x.forget f g).tally = .counted) :
    inRange f g x.event.hour = false ∧ x.tally = .counted := by
  by_cases hlost : inRange f g x.event.hour ∧ x.tally = .counted
  · simp [Tracked.forget, hlost] at h
  · have hsame : x.forget f g = x := by simp [Tracked.forget, hlost]
    rw [hsame] at h
    refine ⟨?_, h⟩
    by_contra hne
    exact hlost ⟨by simpa using hne, h⟩

theorem mem_kept {hours : List BucketRow} {key : Str × GroupKey} (hmem : key ∈ hours.map Prod.fst)
    (hout : inRange f g key.1 = false) :
    key ∈ (hours.filter fun r => !inRange f g r.1.1).map Prod.fst := by
  obtain ⟨r, hr, rfl⟩ := List.mem_map.1 hmem
  exact List.mem_map_of_mem (List.mem_filter.2 ⟨hr, by simp [hout]⟩)

/-- A recompute keeps the ledger's accounts. -/
theorem Ledger.Inv.recompute (hdates : dates.Sound) (hinv : l.Inv) {f g : Str} (hf : f.length = 13)
    (hg : g.length = 13)
    (h : Runtime.recompute dates (hourStart f) (hourStart g) l.db = .ok db') :
    (l.recomputed (hourStart f) (hourStart g) db').Inv := by
  obtain ⟨hevents, hremade⟩ := remade_of_recompute hdates hinv hf hg h
  obtain ⟨-, -, hhours, -⟩ := recompute_eq_ok h
  obtain ⟨hrows, hconflict⟩ := insertRows_eq_ok hhours
  refine ⟨?_, tallied_recomputed hdates hinv hremade, ?_, ?_, ?_⟩
  · rw [Ledger.recomputed, hevents, hinv.events, List.map_map]
    exact List.map_congr_left fun x _ => (event_recount x).symm
  · intro y hy hcounted k hk
    show (y.event.hour, k) ∈ db'.hours.map Prod.fst
    rw [hremade.eq, List.map_append, List.mem_append]
    rcases List.mem_append.1 hy with hy | hy
    · obtain ⟨x, hx, rfl⟩ := List.mem_map.1 hy
      rw [event_recount] at hk ⊢
      rcases counted_recount hcounted with htakes | ⟨hout, hold⟩
      · refine .inr ?_
        rw [mem_keys_groupSum, mem_keys_hourEntries hdates]
        exact ⟨x.event, List.mem_filter.2 ⟨List.mem_map_of_mem hx, decide_eq_true htakes⟩, rfl, hk⟩
      · exact .inl (mem_kept (hinv.rows x (List.mem_append_left _ hx) hold k hk) hout)
    · obtain ⟨x, hx, rfl⟩ := List.mem_map.1 hy
      rw [event_forget] at hk ⊢
      obtain ⟨hout, hold⟩ := counted_forget hcounted
      exact .inl (mem_kept (hinv.rows x (List.mem_append_right _ hx) hold k hk) hout)
  · intro r hr
    have hr' : r ∈ db'.hours := hr
    rw [hremade.eq] at hr'
    rcases List.mem_append.1 hr' with hr' | hr'
    · exact hinv.starts r (List.mem_of_mem_filter hr')
    · have hkey := mem_keys_groupSum.1 (List.mem_map_of_mem (f := Prod.fst) hr')
      obtain ⟨e, -, hhour, -⟩ := (mem_keys_hourEntries hdates).1 hkey
      exact ⟨e.at_, hhour.symm⟩
  · show (db'.hours.map Prod.fst).Nodup
    rw [hrows, List.map_append]
    refine List.Nodup.append ?_ (nodup_keys_groupSum _) ?_
    · exact hinv.distinct.sublist ((List.filter_sublist).map Prod.fst)
    · intro key hkept hnew
      obtain ⟨r, hr, rfl⟩ := List.mem_map.1 hnew
      exact hconflict r hr hkept

end Recompute

/-! ## The steps -/

theorem Ledger.inv_empty : Ledger.empty.Inv :=
  ⟨rfl, fun _ => rfl, nofun, nofun, List.nodup_nil⟩

theorem Ledger.Inv.insertEvent {l : Ledger} (h : l.Inv) (e : Event) : (l.insertEvent e).Inv := by
  refine ⟨?_, ?_, ?_, h.starts, h.distinct⟩
  · show l.db.events ++ [e] = (l.stored ++ [Tracked.mk e .uncounted]).map Tracked.event
    rw [h.events, List.map_append]
    rfl
  · intro key
    show total l.db.hours key = _
    rw [h.hours]
    simp [Ledger.tallied, Ledger.insertEvent]
  · intro x hx hcounted
    refine h.rows x ?_ hcounted
    rcases List.mem_append.1 hx with hx | hx
    · rcases List.mem_append.1 hx with hx | hx
      · exact List.mem_append_left _ hx
      · rw [List.mem_singleton.1 hx] at hcounted
        simp at hcounted
    · exact List.mem_append_right _ hx

/-- A ledger on the same rows and events keeps its accounts, whatever the watermark is. -/
theorem Ledger.Inv.congr {l : Ledger} (h : l.Inv) {db : MetricsDb} (hevents : db.events = l.db.events)
    (hhours : db.hours = l.db.hours) : Ledger.Inv { l with db := db } := by
  refine ⟨hevents.trans h.events, ?_, ?_, ?_, ?_⟩
  · intro key
    show total db.hours key = l.tallied key
    rw [hhours, h.hours]
  · intro x hx hcounted k hk
    show (x.event.hour, k) ∈ db.hours.map Prod.fst
    rw [hhours]
    exact h.rows x hx hcounted k hk
  · intro r hr
    exact h.starts r (hhours ▸ hr)
  · show (db.hours.map Prod.fst).Nodup
    rw [hhours]
    exact h.distinct

theorem exists_nextHour (dates : Dates) (s : Str) :
    ∃ h, h.length = 13 ∧ nextHour dates (hourFloor s) = hourStart h := by
  unfold nextHour
  split
  · exact exists_hourFloor _
  · exact exists_hourFloor s

/-- What a roll-up does to the ledger: nothing, or a recompute from an hour to another, after which the
    watermark moves. -/
theorem settle_rollUp {dates : Dates} (l : Ledger) (now : Str) :
    l.settle (rollUpRange now l.db) (rollUp dates now l.db) = l ∨
      ∃ f g db', f.length = 13 ∧ g.length = 13 ∧
        recompute dates (hourStart f) (hourStart g) l.db = .ok db' ∧
        l.settle (rollUpRange now l.db) (rollUp dates now l.db)
          = l.recomputed (hourStart f) (hourStart g) { db' with watermark := some (hourStart g) } := by
  cases hroll : rollUp dates now l.db with
  | error e => exact .inl rfl
  | ok db =>
      unfold rollUp at hroll
      unfold rollUpRange
      dsimp only at hroll ⊢
      split_ifs at hroll ⊢ with hdone
      · obtain rfl := Except.ok.inj hroll
        exact .inl rfl
      · obtain ⟨db', hrec, hdb⟩ := bind_eq_ok.1 hroll
        obtain rfl := Except.ok.inj hdb
        obtain ⟨f, hf, hfrom⟩ := exists_hourFloor (l.db.watermark.getD epoch)
        obtain ⟨g, hg, hto⟩ := exists_hourFloor now
        rw [hfrom, hto] at hrec
        rw [hfrom, hto]
        exact .inr ⟨f, g, db', hf, hg, hrec, rfl⟩

theorem settle_rerollHours {dates : Dates} (l : Ledger) (firstAt lastAt : Str) :
    l.settle (rerollRange dates firstAt lastAt) (rerollHours dates firstAt lastAt l.db) = l ∨
      ∃ f g db', f.length = 13 ∧ g.length = 13 ∧
        recompute dates (hourStart f) (hourStart g) l.db = .ok db' ∧
        l.settle (rerollRange dates firstAt lastAt) (rerollHours dates firstAt lastAt l.db)
          = l.recomputed (hourStart f) (hourStart g) db' := by
  cases hroll : rerollHours dates firstAt lastAt l.db with
  | error e => exact .inl rfl
  | ok db =>
      unfold rerollHours at hroll
      unfold rerollRange
      dsimp only at hroll ⊢
      split_ifs at hroll ⊢ with hdone
      · obtain rfl := Except.ok.inj hroll
        exact .inl rfl
      · obtain ⟨f, hf, hfrom⟩ := exists_hourFloor firstAt
        obtain ⟨g, hg, hto⟩ := exists_nextHour dates lastAt
        rw [hfrom, hto] at hroll
        rw [hfrom, hto]
        exact .inr ⟨f, g, db, hf, hg, hroll, rfl⟩

/-- Inserts, roll-ups and re-rolls keep the ledger's accounts. -/
theorem Ledger.Inv.step {dates : Dates} (hdates : dates.Sound) {l l' : Ledger} (h : l.Inv)
    (hstep : RollStep dates l l') : l'.Inv := by
  match hstep with
  | .insertEvent _ e => exact h.insertEvent e
  | .rollUp _ now =>
      rcases @settle_rollUp dates l now.toRfc3339 with heq | ⟨f, g, db', hf, hg, hrec, heq⟩
      · rw [heq]
        exact h
      · rw [heq]
        exact (h.recompute hdates hf hg hrec).congr rfl rfl
  | .rerollHours _ firstAt lastAt =>
      rcases @settle_rerollHours dates l firstAt.toRfc3339 lastAt.toRfc3339 with
        heq | ⟨f, g, db', hf, hg, hrec, heq⟩
      · rw [heq]
        exact h
      · rw [heq]
        exact h.recompute hdates hf hg hrec

end Tethra.Runtime
