import Tethra.Tracking.Setup
import Tethra.Lib.Runs

set_option autoImplicit false

/-! # The insertion watermark (`core/src/db.rs`, `tracking/src/state.rs`)

An apply keeps the newest rowid of the observations, and a later observation is taken for a row with a
greater one. The table hands out one more than the greatest rowid that is there, so a rowid comes back when
the newest rows were deleted, and a restored backup numbers its rows anew. The watermark tells the later
rows from the earlier ones as long as neither reaches below it (`watermark_marks_inserted`). -/

namespace Tethra.Tracking

open Runs

/-- A stored observation, with the moment at which it was inserted. -/
structure Stored where
  event : EventRow
  inserted : Nat
  deriving DecidableEq

/-- The observations and a setup, with the moment of its last apply. -/
structure Observatory where
  row : Option TrackingSetup
  events : List Stored
  applied : Nat
  deriving DecidableEq

def Observatory.db (o : Observatory) : TrackDb := ⟨o.row, [], [], o.events.map Stored.event⟩

/-- `INSERT INTO runtime_request_events`: one more than the greatest rowid. -/
def insertStored (events : List Stored) (s : Stored) : List Stored :=
  events ++ [⟨{ s.event with rowid := newestEventRowid ⟨none, [], [], events.map Stored.event⟩ + 1 },
    s.inserted⟩]

/-- The rows of a backup are inserted into an empty table, in the order of their rowids. -/
def reinsert (events : List Stored) : List Stored := events.foldl insertStored []

structure Deployment where
  now : Nat
  current : Observatory
  backups : List Observatory

inductive DataOp where
  | insertEvent (projectId host at_ : Str) (fromGateway : Bool)
  | sweep (eventBound : Str)
  | deleteProjectData (projectId : Str)
  | deleteAll
  | upsertSetup (projectId : Str) (state : TrackingState) (id session : Nat) (now : Str)
  | recordApplied (setup : TrackingSetup) (summary : PlanSummary) (now : Str)
  | backup
  | restore (backup : Nat)

def Observatory.delete (o : Observatory) (gone : EventRow → Bool) : Observatory :=
  { o with events := o.events.filter fun s => !gone s.event }

/-- An operation at the moment `now`. -/
def Observatory.apply (o : Observatory) (now : Nat) : DataOp → Observatory
  | .insertEvent projectId host at_ fromGateway =>
      { o with events := insertStored o.events ⟨⟨0, projectId, fromGateway, host, at_⟩, now⟩ }
  | .sweep eventBound => o.delete fun e => decide (e.at_ < eventBound)
  | .deleteProjectData projectId => o.delete fun e => decide (e.projectId = projectId)
  | .deleteAll => o.delete fun _ => true
  | .upsertSetup projectId state id session text =>
      { o with
        row := (Tracking.upsertSetup o.db projectId state id session (newestEventRowid o.db) text).row
        applied := now }
  | .recordApplied setup summary text =>
      match Tracking.recordApplied o.db setup summary (newestEventRowid o.db) text with
      | .ok (db, _) => { o with row := db.row, applied := now }
      | .error _ => o
  | .backup | .restore _ => o

def Observatory.restored (o : Observatory) : Observatory := { o with events := reinsert o.events }

def Deployment.step (d : Deployment) (op : DataOp) : Deployment :=
  let now := d.now + 1
  match op with
  | .backup => ⟨now, d.current, d.backups ++ [d.current]⟩
  | .restore i => ⟨now, (d.backups[i]?.map Observatory.restored).getD d.current, d.backups⟩
  | op => ⟨now, d.current.apply now op, d.backups⟩

/-- An observation is inserted while the newest rowid is not below the watermark; and a backup is restored
    that has no row above the watermark, or every row up to it. -/
def Deployment.Above (d : Deployment) : DataOp → Prop
  | .insertEvent _ _ _ _ => ∀ row ∈ d.current.row, row.appliedEventRowid ≤ newestEventRowid d.current.db
  | .restore i => ∀ o ∈ d.backups[i]?, ∀ row ∈ o.row,
      (∀ s ∈ o.events, s.event.rowid ≤ row.appliedEventRowid) ∨
        row.appliedEventRowid ≤ o.events.countP fun s => decide (s.event.rowid ≤ row.appliedEventRowid)
  | _ => True

instance (d : Deployment) (op : DataOp) : Decidable (d.Above op) :=
  match op with
  | .insertEvent _ _ _ _ => inferInstanceAs (Decidable
      (∀ row ∈ d.current.row, row.appliedEventRowid ≤ newestEventRowid d.current.db))
  | .restore i => inferInstanceAs (Decidable (∀ o ∈ d.backups[i]?, ∀ row ∈ o.row,
      (∀ s ∈ o.events, s.event.rowid ≤ row.appliedEventRowid) ∨
        row.appliedEventRowid ≤ o.events.countP fun s => decide (s.event.rowid ≤ row.appliedEventRowid)))
  | .sweep _ | .deleteProjectData _ | .deleteAll | .upsertSetup .. | .recordApplied .. | .backup =>
      isTrue trivial

def Deployment.Next (d d' : Deployment) : Prop := ∃ op, d' = d.step op

def Deployment.NextAbove (d d' : Deployment) : Prop := ∃ op, d.Above op ∧ d' = d.step op

/-- The watermark tells the observations inserted after the last apply. -/
def Observatory.Marked (o : Observatory) : Prop :=
  ∀ row, o.row = some row → ∀ s ∈ o.events, row.appliedEventRowid < s.event.rowid ↔ o.applied < s.inserted

structure Observatory.Inv (now : Nat) (o : Observatory) : Prop where
  sorted : o.events.Pairwise fun s t => s.event.rowid < t.event.rowid
  positive : ∀ s ∈ o.events, 0 < s.event.rowid
  inserted : ∀ s ∈ o.events, s.inserted ≤ now
  applied : o.applied ≤ now
  marked : o.Marked

def Deployment.Inv (d : Deployment) : Prop :=
  d.current.Inv d.now ∧ ∀ o ∈ d.backups, o.Inv d.now

/-! ## Rowids -/

theorem le_foldl_max (xs : List Nat) (b : Nat) :
    b ≤ xs.foldl max b ∧ ∀ x ∈ xs, x ≤ xs.foldl max b := by
  induction xs generalizing b with
  | nil => exact ⟨le_rfl, fun x hx => by cases hx⟩
  | cons y xs ih =>
      obtain ⟨hb, hxs⟩ := ih (max b y)
      refine ⟨(le_max_left b y).trans hb, fun x hx => ?_⟩
      rcases List.mem_cons.1 hx with rfl | hx
      · exact (le_max_right b x).trans hb
      · exact hxs x hx

theorem rowid_le_newest {events : List Stored} {s : Stored} (h : s ∈ events) (row : Option TrackingSetup) :
    s.event.rowid ≤ newestEventRowid ⟨row, [], [], events.map Stored.event⟩ := by
  refine (le_foldl_max _ 0).2 _ ?_
  simp only [List.map_map]
  exact List.mem_map_of_mem h

def newestStored (events : List Stored) : Nat :=
  newestEventRowid ⟨none, [], [], events.map Stored.event⟩

theorem newestStored_insertStored (events : List Stored) (s : Stored) :
    newestStored (insertStored events s) = newestStored events + 1 := by
  simp [newestStored, insertStored, newestEventRowid]

/-- A stored row with the rowid `i + 1`. -/
def Stored.renumber (i : Nat) (s : Stored) : Stored := ⟨{ s.event with rowid := i + 1 }, s.inserted⟩

theorem foldl_insertStored (events acc : List Stored) :
    events.foldl insertStored acc
      = acc ++ events.mapIdx fun i s => s.renumber (newestStored acc + i) := by
  induction events generalizing acc with
  | nil => simp
  | cons s events ih =>
      rw [List.foldl_cons, ih, newestStored_insertStored, List.mapIdx_cons]
      have hshift : ∀ i, newestStored acc + 1 + i = newestStored acc + (i + 1) := by intro i; omega
      simp only [hshift]
      rw [insertStored, List.append_assoc]
      rfl

/-- A restored table is numbered from 1 on. -/
theorem reinsert_eq (events : List Stored) : reinsert events = events.mapIdx fun i s => s.renumber i := by
  rw [reinsert, foldl_insertStored]
  simp [newestStored, newestEventRowid]

theorem exists_of_mem_reinsert {events : List Stored} {s : Stored} (h : s ∈ reinsert events) :
    ∃ (i : Nat) (t : Stored), events[i]? = some t ∧ s = t.renumber i := by
  rw [reinsert_eq] at h
  obtain ⟨i, hi, rfl⟩ := List.mem_mapIdx.1 h
  exact ⟨i, events[i], List.getElem?_eq_getElem hi, rfl⟩

theorem sorted_reinsert (events : List Stored) :
    (reinsert events).Pairwise fun s t => s.event.rowid < t.event.rowid := by
  rw [reinsert_eq, List.pairwise_iff_getElem]
  intro i j hi hj hij
  simp only [List.getElem_mapIdx, Stored.renumber]
  omega

section Sorted

variable {events : List Stored}
  (hsorted : events.Pairwise fun s t => s.event.rowid < t.event.rowid)
  (hpositive : ∀ s ∈ events, 0 < s.event.rowid)

include hsorted hpositive in
/-- The rows before one have rowids of their own. -/
theorem index_lt_rowid {i : Nat} {s : Stored} (h : events[i]? = some s) : i < s.event.rowid := by
  induction i generalizing s with
  | zero => exact hpositive s (List.mem_of_getElem? h)
  | succ i ih =>
      obtain ⟨hi, hs⟩ := List.getElem?_eq_some_iff.1 h
      have hprev : events[i]? = some events[i] := List.getElem?_eq_getElem (by omega)
      have hlt := List.pairwise_iff_getElem.1 hsorted i (i + 1) (by omega) hi (Nat.lt_succ_self i)
      have hbefore := ih hprev
      rw [hs] at hlt
      omega

include hsorted in
/-- The rows up to a bound are before a row above it. -/
theorem countP_le_index {i : Nat} {s : Stored} (h : events[i]? = some s) {bound : Nat}
    (hbound : bound < s.event.rowid) :
    events.countP (fun t => decide (t.event.rowid ≤ bound)) ≤ i := by
  obtain ⟨hi, rfl⟩ := List.getElem?_eq_some_iff.1 h
  have hafter : (events.drop i).countP (fun t => decide (t.event.rowid ≤ bound)) = 0 := by
    refine List.countP_eq_zero.2 fun t ht => ?_
    obtain ⟨j, hj, rfl⟩ := List.getElem_of_mem ht
    have hij : i + j < events.length := by rw [List.length_drop] at hj; omega
    have hle : events[i].event.rowid ≤ events[i + j].event.rowid := by
      cases j with
      | zero => exact le_rfl
      | succ j => exact (List.pairwise_iff_getElem.1 hsorted i (i + (j + 1)) hi hij (by omega)).le
    rw [List.getElem_drop]
    simp only [decide_eq_true_eq]
    omega
  have hsplit : (events.take i ++ events.drop i).countP (fun t => decide (t.event.rowid ≤ bound))
      = (events.take i).countP (fun t => decide (t.event.rowid ≤ bound)) + (events.drop i).countP _ :=
    List.countP_append
  rw [List.take_append_drop] at hsplit
  rw [hsplit, hafter, Nat.add_zero]
  exact List.countP_le_length.trans (by simp)

end Sorted

/-! ## Steps -/

theorem Observatory.Inv.mono {now now' : Nat} {o : Observatory} (h : o.Inv now) (hle : now ≤ now') :
    o.Inv now' :=
  ⟨h.sorted, h.positive, fun s hs => (h.inserted s hs).trans hle, h.applied.trans hle, h.marked⟩

theorem Observatory.Inv.delete {now : Nat} {o : Observatory} (h : o.Inv now) (gone : EventRow → Bool) :
    (o.delete gone).Inv now := by
  have hmem : ∀ s ∈ (o.delete gone).events, s ∈ o.events := fun s hs => (List.mem_filter.1 hs).1
  exact ⟨h.sorted.filter _, fun s hs => h.positive s (hmem s hs), fun s hs => h.inserted s (hmem s hs),
    h.applied, fun row hrow s hs => h.marked row hrow s (hmem s hs)⟩

/-- An apply: the watermark becomes the newest rowid. -/
theorem Observatory.Inv.applyRow {now : Nat} {o : Observatory} (h : o.Inv now)
    {row : Option TrackingSetup}
    (hrow : ∀ r, row = some r → r.appliedEventRowid = newestEventRowid o.db) :
    (Observatory.mk row o.events (now + 1)).Inv (now + 1) := by
  refine ⟨h.sorted, h.positive, fun s hs => (h.inserted s hs).trans (Nat.le_succ _), le_rfl, ?_⟩
  intro r hr s hs
  have hrowid : s.event.rowid ≤ newestEventRowid o.db := rowid_le_newest hs o.row
  have hinserted := h.inserted s hs
  have hmark : r.appliedEventRowid = newestEventRowid o.db := hrow r hr
  show r.appliedEventRowid < s.event.rowid ↔ now + 1 < s.inserted
  omega

theorem Observatory.Inv.insert {now : Nat} {o : Observatory} (h : o.Inv now)
    (habove : ∀ row ∈ o.row, row.appliedEventRowid ≤ newestEventRowid o.db) (e : EventRow) :
    (Observatory.mk o.row (insertStored o.events ⟨e, now + 1⟩) o.applied).Inv (now + 1) := by
  have hnewest : newestEventRowid o.db = newestStored o.events := rfl
  have hcases : ∀ s ∈ insertStored o.events ⟨e, now + 1⟩,
      s ∈ o.events ∨ (s.event.rowid = newestStored o.events + 1 ∧ s.inserted = now + 1) := by
    intro s hs
    rcases List.mem_append.1 hs with hs | hs
    · exact .inl hs
    · rw [List.mem_singleton.1 hs]
      exact .inr ⟨rfl, rfl⟩
  have happlied := h.applied
  refine ⟨?_, fun s hs => ?_, fun s hs => ?_, by simp only; omega, fun row hrow s hs => ?_⟩
  · refine List.pairwise_append.2 ⟨h.sorted, List.pairwise_singleton _ _, fun s hs t ht => ?_⟩
    rw [List.mem_singleton.1 ht]
    exact Nat.lt_succ_of_le (rowid_le_newest hs none)
  · rcases hcases s hs with hs | ⟨hrowid, -⟩
    · exact h.positive s hs
    · omega
  · rcases hcases s hs with hs | ⟨-, hinserted⟩
    · exact (h.inserted s hs).trans (Nat.le_succ _)
    · exact hinserted.le
  · rcases hcases s hs with hs | ⟨hrowid, hinserted⟩
    · exact h.marked row hrow s hs
    · have hle := habove row hrow
      show row.appliedEventRowid < s.event.rowid ↔ o.applied < s.inserted
      omega

theorem Observatory.Inv.restored {now : Nat} {o : Observatory} (h : o.Inv now)
    (habove : ∀ row ∈ o.row, (∀ s ∈ o.events, s.event.rowid ≤ row.appliedEventRowid) ∨
      row.appliedEventRowid ≤ o.events.countP fun s => decide (s.event.rowid ≤ row.appliedEventRowid)) :
    o.restored.Inv now := by
  refine ⟨sorted_reinsert _, fun s hs => ?_, fun s hs => ?_, h.applied, fun row hrow s hs => ?_⟩
  · obtain ⟨i, t, -, rfl⟩ := exists_of_mem_reinsert hs
    exact Nat.succ_pos i
  · obtain ⟨i, t, ht, rfl⟩ := exists_of_mem_reinsert hs
    exact h.inserted t (List.mem_of_getElem? ht)
  · obtain ⟨i, t, ht, rfl⟩ := exists_of_mem_reinsert hs
    have hindex := index_lt_rowid h.sorted h.positive ht
    show row.appliedEventRowid < i + 1 ↔ o.applied < t.inserted
    rw [← h.marked row hrow t (List.mem_of_getElem? ht)]
    refine ⟨fun hlt => by omega, fun hlt => ?_⟩
    rcases habove row hrow with hold | hfull
    · have hle := hold t (List.mem_of_getElem? ht)
      omega
    · have hcount := countP_le_index h.sorted ht hlt
      omega

theorem Deployment.Inv.step {d : Deployment} (h : d.Inv) {op : DataOp} (habove : d.Above op) :
    (d.step op).Inv := by
  obtain ⟨hcurrent, hbackups⟩ := h
  have hkept : ∀ o ∈ d.backups, o.Inv (d.now + 1) :=
    fun o ho => (hbackups o ho).mono (Nat.le_succ _)
  cases op with
  | insertEvent projectId host at_ fromGateway => exact ⟨hcurrent.insert habove _, hkept⟩
  | sweep eventBound =>
      have hdelete := hcurrent.delete (fun e => decide (e.at_ < eventBound))
      exact ⟨hdelete.mono (Nat.le_succ _), hkept⟩
  | deleteProjectData projectId =>
      have hdelete := hcurrent.delete (fun e => decide (e.projectId = projectId))
      exact ⟨hdelete.mono (Nat.le_succ _), hkept⟩
  | deleteAll =>
      have hdelete := hcurrent.delete (fun _ => true)
      exact ⟨hdelete.mono (Nat.le_succ _), hkept⟩
  | upsertSetup projectId state id session text =>
      refine ⟨hcurrent.applyRow fun r hr => ?_, hkept⟩
      unfold Tracking.upsertSetup at hr
      split at hr
      · obtain rfl := Option.some.inj hr
        rfl
      · obtain rfl := Option.some.inj hr
        rfl
  | recordApplied setup summary text =>
      refine ⟨?_, hkept⟩
      show (d.current.apply (d.now + 1) (.recordApplied setup summary text)).Inv (d.now + 1)
      rw [Observatory.apply]
      cases hok : Tracking.recordApplied d.current.db setup summary (newestEventRowid d.current.db) text with
      | error e => exact hcurrent.mono (Nat.le_succ _)
      | ok result =>
          refine hcurrent.applyRow fun r hr => ?_
          unfold Tracking.recordApplied casWriteSummary TrackDb.casWrite at hok
          split at hok
          · obtain rfl := Except.ok.inj hok
            obtain ⟨row, -, rfl⟩ := Option.map_eq_some_iff.1 hr
            rfl
          · cases hok
  | backup =>
      refine ⟨hcurrent.mono (Nat.le_succ _), fun o ho => ?_⟩
      rcases List.mem_append.1 ho with ho | ho
      · exact hkept o ho
      · rw [List.mem_singleton.1 ho]
        exact hcurrent.mono (Nat.le_succ _)
  | restore i =>
      refine ⟨?_, hkept⟩
      show ((d.backups[i]?.map Observatory.restored).getD d.current).Inv (d.now + 1)
      cases hbackup : d.backups[i]? with
      | none => exact hcurrent.mono (Nat.le_succ _)
      | some o =>
          have hinv := (hbackups o (List.mem_of_getElem? hbackup)).restored (habove o hbackup)
          exact hinv.mono (Nat.le_succ _)

/-- No observation, setup or backup yet. -/
def Deployment.empty : Deployment := ⟨0, ⟨none, [], 0⟩, []⟩

/-- While insertions and restores stay above the watermark, an observation has a rowid greater than the
    watermark exactly when it was inserted after the last apply. -/
theorem watermark_marks_inserted {d : Deployment}
    (hrun : Steps Deployment.NextAbove Deployment.empty d) : d.current.Marked := by
  have hinv : d.Inv := by
    refine Steps.invariant ?_ ?_ hrun
    · rintro d _ h ⟨op, habove, rfl⟩
      exact h.step habove
    · exact ⟨⟨List.Pairwise.nil, fun s hs => (by cases hs), fun s hs => (by cases hs), le_rfl,
        fun row hrow => (by cases hrow)⟩, fun o ho => (by cases ho)⟩
  exact hinv.1.marked

/-! ## A rowid that comes back -/

def Deployment.runAll (d : Deployment) (ops : List DataOp) : Deployment := ops.foldl step d

def observe : DataOp := .insertEvent "p1".toList "api.example".toList "2026-01-01T00:00:00Z".toList true

def openSession : DataOp := .upsertSetup "p1".toList .applying 1 1 "2026-01-01T00:00:00Z".toList

theorem steps_runAll (d : Deployment) (ops : List DataOp) : Steps Deployment.Next d (d.runAll ops) := by
  induction ops generalizing d with
  | nil => exact .refl
  | cons op ops ih => exact .head ⟨op, rfl⟩ (ih _)

/-- An observation is deleted behind an apply, and the next one gets its rowid. -/
theorem rowid_reused_below_watermark :
    ∃ d, Steps Deployment.Next Deployment.empty d ∧ ¬d.current.Marked := by
  refine ⟨_, steps_runAll _ [observe, openSession, .deleteProjectData "p1".toList, observe], fun h => ?_⟩
  have hmark := h _ rfl ⟨⟨1, "p1".toList, true, "api.example".toList, "2026-01-01T00:00:00Z".toList⟩, 4⟩
    (List.mem_singleton.2 (by decide))
  exact absurd (hmark.2 (by decide)) (by decide)

/-- An observation before an apply and one behind it, a backup, and its restore over an empty table. -/
theorem watermark_marks_inserted_swept :
    ∃ d, Steps Deployment.NextAbove Deployment.empty d ∧ d.current.Marked ∧ d.current.events.length = 2 := by
  have hsteps : Steps Deployment.NextAbove Deployment.empty
      (Deployment.empty.runAll [observe, openSession, observe, .backup, .deleteAll, .restore 0]) := by
    refine .head ⟨observe, fun row hrow => (by cases hrow), rfl⟩ ?_
    refine .head ⟨openSession, trivial, rfl⟩ ?_
    refine .head ⟨observe, by decide, rfl⟩ ?_
    refine .head ⟨.backup, trivial, rfl⟩ ?_
    refine .head ⟨.deleteAll, trivial, rfl⟩ ?_
    exact .head ⟨.restore 0, by decide, rfl⟩ .refl
  exact ⟨_, hsteps, watermark_marks_inserted hsteps, by decide⟩

end Tethra.Tracking
