import Tethra.Tracking.Evidence
import Tethra.Lib.Runs

set_option autoImplicit false

/-! # Processes that share a setup (`tracking/src/state.rs`)

Several processes read the row of a setup and write it later, each statement at once. A copy that still
has the row's version has its guarded columns too, and nothing was committed since it was read
(`World.Inv`). -/

namespace Tethra.Tracking

open Runs

/-- A copy of the row, with the time at which it was read or last written through. -/
structure Copy where
  setup : TrackingSetup
  readAt : Nat

/-- Where a process is: before any read, with a copy, or within a refresh that has looked at the evidence
    or has corrected the row. -/
inductive Local where
  | idle
  | holds (c : Copy)
  | looked (c : Copy) (r : Reading)
  | corrected (c : Copy) (r : Reading)

def Local.copy : Local → Option Copy
  | .idle => none
  | .holds c => some c
  | .looked c _ => some c
  | .corrected c _ => some c

/-- The database and the processes. `recorded` has every event that ever was in the table, `time` counts
    the operations, and `committedAt` is the time of the last one that changed the row's version. -/
structure World where
  db : TrackDb
  minted : Nat
  procs : Nat → Local
  recorded : List EventRow
  time : Nat
  committedAt : Nat

/-- One statement of a process, or a change from outside. -/
inductive Op where
  | read (p : Nat)
  | look (p : Nat) (now : Str)
  | correct (p : Nat) (now : Str)
  | correctUnchecked (p : Nat) (now : Str)
  | writeTraffic (p : Nat)
  | writeVerified (p : Nat)
  | transition (p : Nat) (next : TrackingState) (reason : Option Str) (now : Str)
  | recordRoutesCreated (p : Nat) (createdRoutes reEnabledRoutes : List Str)
  | recordApplied (p : Nat) (summary : PlanSummary) (rowid : Nat) (now : Str)
  | clearArtifacts (p : Nat)
  | upsert (projectId : Str) (state : TrackingState) (rowid : Nat) (now : Str)
  | delete
  | setEvents (events : List EventRow)
  | setRoutes (routes : List RouteRow)
  | setLinks (links : List LinkRow)

def World.become (w : World) (p : Nat) (l : Local) : World :=
  { w with procs := Function.update w.procs p l }

/-- The copy after a guarded write: as new as the write, if there was one. -/
def World.after (w : World) (c : Copy) (setup : TrackingSetup) : Copy :=
  ⟨setup, if setup.rowVersion = c.setup.rowVersion then c.readAt else w.time⟩

/-- Take the result of a guarded write; after a conflict the process reads again. -/
def World.commit (w : World) (p : Nat) (c : Copy) (next : Copy → Local)
    (result : Except CoreError (TrackDb × TrackingSetup)) : World :=
  match result with
  | .ok (db, setup) => { w with db }.become p (next (w.after c setup))
  | .error _ => w.become p .idle

/-- Take the result of a watermark write, of a refresh that has observed something. -/
def World.mark (w : World) (p : Nat) (c : Copy) (r : Reading) (result : TrackDb × TrackingSetup) :
    World :=
  if 0 < r.observedEver then
    { w with db := result.1 }.become p (.corrected ⟨result.2, c.readAt⟩ r)
  else w

/-- What an operation does; one that its process is not ready for does nothing. -/
def World.act (env : TrackEnv) (w : World) : Op → World
  | .read p =>
      match w.db.row with
      | some row => w.become p (.holds ⟨row, w.time⟩)
      | none => w
  | .look p now =>
      match w.procs p with
      | .holds c =>
          match c.setup.checkedFrom with
          | some appliedAt => w.become p (.looked c (env.read w.db now appliedAt c.setup))
          | none => w
      | _ => w
  | .correct p now =>
      match w.procs p with
      | .looked c r => w.commit p c (fun c => .corrected c r) (env.correct w.db now c.setup r true)
      | _ => w
  | .correctUnchecked p now =>
      match w.procs p with
      | .holds c =>
          match c.setup.checkedFrom with
          | none => w.commit p c .holds (Tracking.correctUnchecked w.db now c.setup true)
          | some _ => w
      | _ => w
  | .writeTraffic p =>
      match w.procs p with
      | .corrected c r => w.mark p c r (w.db.writeTraffic c.setup r.earliest)
      | _ => w
  | .writeVerified p =>
      match w.procs p with
      | .corrected c r => w.mark p c r (w.db.writeVerified c.setup r.earliest)
      | _ => w
  | .transition p next reason now =>
      match w.procs p with
      | .holds c => w.commit p c .holds (Tracking.transition w.db c.setup next reason now)
      | _ => w
  | .recordRoutesCreated p created reEnabled =>
      match w.procs p with
      | .holds c => w.commit p c .holds (Tracking.recordRoutesCreated w.db c.setup created reEnabled)
      | _ => w
  | .recordApplied p summary rowid now =>
      match w.procs p with
      | .holds c => w.commit p c .holds (Tracking.recordApplied w.db c.setup summary rowid now)
      | _ => w
  | .clearArtifacts p =>
      match w.procs p with
      | .holds c => w.commit p c .holds (Tracking.clearArtifacts w.db c.setup)
      | _ => w
  | .upsert projectId state rowid now =>
      { w with
        db := upsertSetup w.db projectId state w.minted w.minted rowid now
        minted := w.minted + 1 }
  | .delete => { w with db := (w.db.row.map fun row => deleteSetup w.db row.id).getD w.db }
  | .setEvents events => { w with db := { w.db with events } }
  | .setRoutes routes => { w with db := { w.db with routes } }
  | .setLinks links => { w with db := { w.db with links } }

/-- What tells one committed row from another. -/
def TrackDb.version (db : TrackDb) : Option (Nat × Nat) :=
  db.row.map fun row => (row.id, row.rowVersion)

/-- The world after an operation that left `w'`. -/
def World.tick (w w' : World) : World :=
  { w' with
    recorded := w.recorded ++ w'.db.events
    time := w.time + 1
    committedAt := if w'.db.version = w.db.version then w.committedAt else w.time }

def World.step (env : TrackEnv) (w : World) (op : Op) : World := w.tick (w.act env op)

/-- One operation, any one. -/
def World.Next (env : TrackEnv) (w w' : World) : Prop := ∃ op, w' = w.step env op

/-- A recorded failure has its time. -/
def TrackingSetup.Stamped (s : TrackingSetup) : Prop := s.attentionReason.isSome = s.attentionAt.isSome

/-- Before any process has read. -/
structure World.Initial (w : World) : Prop where
  idle : ∀ p, w.procs p = .idle
  minted : ∀ row, w.db.row = some row → row.id < w.minted
  stamped : ∀ row, w.db.row = some row → row.Stamped
  recorded : ∀ e ∈ w.db.events, e ∈ w.recorded
  committedAt : w.committedAt ≤ w.time

/-! ## Guarded writes -/

/-- The columns that the row's version guards. -/
def TrackingSetup.guarded (s : TrackingSetup) : TrackingSetup :=
  { s with
    firstTrafficAt := none
    firstVerifiedAt := none }

/-- A write of guarded columns: it bumps the version, and never records a failure without its time. -/
structure Bumps (write : TrackingSetup → TrackingSetup) : Prop where
  id : ∀ s, (write s).id = s.id
  projectId : ∀ s, (write s).projectId = s.projectId
  rowVersion : ∀ s, (write s).rowVersion = s.rowVersion + 1
  guarded : ∀ s, (write s).guarded = (write s.guarded).guarded
  stamped : ∀ s, s.Stamped → (write s).Stamped

/-- What a guarded write can come to. -/
inductive Guarded (db : TrackDb) (setup : TrackingSetup) :
    Except CoreError (TrackDb × TrackingSetup) → Prop where
  | refused (e : CoreError) : Guarded db setup (.error e)
  | unneeded : Guarded db setup (.ok (db, setup))
  | written {write : TrackingSetup → TrackingSetup} (h : Bumps write) (held : db.holds setup = true) :
      Guarded db setup (.ok ({ db with row := db.row.map write }, write setup))

theorem Bumps.guarded_congr {write : TrackingSetup → TrackingSetup} (h : Bumps write)
    {s t : TrackingSetup} (hst : s.guarded = t.guarded) : (write s).guarded = (write t).guarded := by
  rw [h.guarded s, h.guarded t, hst]

theorem bumps_withHealth (next : TrackingState) {reason attentionAt : Option Str} (now : Str)
    (h : reason.isSome = attentionAt.isSome) :
    Bumps (TrackingSetup.withHealth next reason attentionAt now) :=
  ⟨fun _ => rfl, fun _ => rfl, fun _ => rfl, fun _ => rfl, fun _ _ => h⟩

theorem bumps_withSummary (summary : PlanSummary) (applied : Option (Nat × Str)) :
    Bumps (TrackingSetup.withSummary summary applied) :=
  ⟨fun _ => rfl, fun _ => rfl, fun _ => rfl, fun _ => rfl, fun _ h => h⟩

theorem bumps_cleared : Bumps TrackingSetup.cleared :=
  ⟨fun _ => rfl, fun _ => rfl, fun _ => rfl, fun _ => rfl, fun _ h => h⟩

theorem bumps_reopened (state : TrackingState) (session rowid : Nat) (now : Str) :
    Bumps (TrackingSetup.reopened state session rowid now) :=
  ⟨fun _ => rfl, fun _ => rfl, fun _ => rfl, fun _ => rfl, fun _ _ => rfl⟩

section Results

variable {env : TrackEnv} {db : TrackDb} {setup : TrackingSetup}

theorem guarded_casWrite {write : TrackingSetup → TrackingSetup} (h : Bumps write) :
    Guarded db setup (db.casWrite setup write) := by
  unfold TrackDb.casWrite
  split_ifs with held
  · exact .written h held
  · exact .refused _

theorem guarded_correct (now : Str) (r : Reading) (mayWrite : Bool) :
    Guarded db setup (env.correct db now setup r mayWrite) := by
  unfold TrackEnv.correct
  split
  · split_ifs
    · refine guarded_casWrite (bumps_withHealth _ _ ?_)
      cases env.failureIsNewer setup r
      · rfl
      · rw [if_pos rfl]
        cases setup.attentionReason <;> rfl
    · exact .unneeded
  · exact .unneeded

theorem guarded_correctUnchecked (now : Str) (mayWrite : Bool) :
    Guarded db setup (Tracking.correctUnchecked db now setup mayWrite) := by
  unfold correctUnchecked
  split_ifs
  · exact guarded_casWrite (bumps_withHealth _ _ rfl)
  · exact .unneeded

theorem guarded_transition (next : TrackingState) (reason : Option Str) (now : Str) :
    Guarded db setup (transition db setup next reason now) := by
  unfold transition
  split_ifs
  · exact .refused _
  · exact guarded_casWrite (bumps_withHealth _ _ (by cases reason <;> rfl))

end Results

/-! ## What a copy knows of the row -/

/-- While the row has the copy's version, it has the copy's guarded columns, and nothing was committed
    since the copy was read. -/
structure Copy.Known (c : Copy) (w : World) : Prop where
  minted : c.setup.id < w.minted
  stamped : c.setup.Stamped
  row : ∀ row, w.db.row = some row → row.id = c.setup.id →
    row.projectId = c.setup.projectId ∧ c.setup.rowVersion ≤ row.rowVersion ∧
      (row.rowVersion = c.setup.rowVersion →
        row.guarded = c.setup.guarded ∧ w.committedAt ≤ c.readAt)

/-- The time is that of an observation that may verify the row's session. -/
def World.Observed (env : TrackEnv) (w : World) (row : TrackingSetup) (t : Str) : Prop :=
  ∃ e ∈ w.recorded, (∃ now, Admissible env now row e) ∧ e.at_ = t

/-- The times of a reading are those of observations of the row that it was made for. -/
structure Reading.Backed (env : TrackEnv) (w : World) (setup : TrackingSetup) (r : Reading) : Prop where
  earliest : ∀ t, r.earliest = some t → w.Observed env setup t
  newest : ∀ t, r.newest = some t → w.Observed env setup t

def Local.Inv (env : TrackEnv) (w : World) : Local → Prop
  | .idle => True
  | .holds c => c.Known w
  | .looked c r => c.Known w ∧ r.Backed env w c.setup
  | .corrected c r => c.Known w ∧ r.Backed env w c.setup

structure World.Inv (env : TrackEnv) (w : World) : Prop where
  minted : ∀ row, w.db.row = some row → row.id < w.minted
  stamped : ∀ row, w.db.row = some row → row.Stamped
  recorded : ∀ e ∈ w.db.events, e ∈ w.recorded
  committedAt : w.committedAt ≤ w.time
  procs : ∀ p, (w.procs p).Inv env w

theorem World.Initial.inv {w : World} (h : w.Initial) (env : TrackEnv) : w.Inv env := by
  refine ⟨h.minted, h.stamped, h.recorded, h.committedAt, ?_⟩
  intro p
  rw [h.idle p]
  trivial

/-- The columns that say which observations a row admits. -/
def TrackingSetup.SameSession (s t : TrackingSetup) : Prop :=
  s.appliedAt = t.appliedAt ∧ s.projectId = t.projectId ∧ s.appliedEventRowid = t.appliedEventRowid

theorem World.Observed.congr {env : TrackEnv} {w : World} {s s' : TrackingSetup} {t : Str}
    (h : w.Observed env s t) (hsame : s'.SameSession s) : w.Observed env s' t := by
  obtain ⟨e, he, ⟨now, appliedAt, happlied, hproject, hgateway, hrowid, htimes⟩, hat⟩ := h
  obtain ⟨hsameAt, hsameProject, hsameRowid⟩ := hsame
  refine ⟨e, he, ⟨now, appliedAt, hsameAt.trans happlied, ?_, hgateway, ?_, htimes⟩, hat⟩
  · rw [hproject, hsameProject]
  · rw [hsameRowid]
    exact hrowid

theorem World.Observed.mono {env : TrackEnv} {w w' : World} {s : TrackingSetup} {t : Str}
    (h : w.Observed env s t) (hrecorded : w.recorded ⊆ w'.recorded) : w'.Observed env s t := by
  obtain ⟨e, he, hadmissible, hat⟩ := h
  exact ⟨e, hrecorded he, hadmissible, hat⟩

theorem Reading.Backed.congr {env : TrackEnv} {w w' : World} {s s' : TrackingSetup} {r : Reading}
    (h : r.Backed env w s) (hsame : s'.SameSession s) (hrecorded : w.recorded ⊆ w'.recorded) :
    r.Backed env w' s' :=
  ⟨fun t ht => ((h.earliest t ht).congr hsame).mono hrecorded,
    fun t ht => ((h.newest t ht).congr hsame).mono hrecorded⟩

theorem Local.Inv.mono {env : TrackEnv} {w w' : World} {l : Local} (h : l.Inv env w)
    (hknown : ∀ c : Copy, c.Known w → c.Known w') (hrecorded : w.recorded ⊆ w'.recorded) :
    l.Inv env w' := by
  cases l with
  | idle => trivial
  | holds c => exact hknown c h
  | looked c r => exact ⟨hknown c h.1, h.2.congr ⟨rfl, rfl, rfl⟩ hrecorded⟩
  | corrected c r => exact ⟨hknown c h.1, h.2.congr ⟨rfl, rfl, rfl⟩ hrecorded⟩

/-! ## What an operation does to the row -/

/-- The row after an operation: as it was but for the watermarks, written with a new version, created,
    or deleted. -/
inductive RowStep (w w' : World) : Prop where
  | kept (hminted : w'.minted = w.minted)
      (hrow : w'.db.row.map TrackingSetup.guarded = w.db.row.map TrackingSetup.guarded)
  | written {write : TrackingSetup → TrackingSetup} (h : Bumps write) (hminted : w.minted ≤ w'.minted)
      (hrow : w'.db.row = w.db.row.map write)
  | created {row : TrackingSetup} (hminted : w'.minted = w.minted + 1) (hrow : w'.db.row = some row)
      (hid : row.id = w.minted) (hstamped : row.Stamped)
  | deleted (hminted : w'.minted = w.minted) (hrow : w'.db.row = none)

theorem committedAt_tick_le {w : World} (h : w.committedAt ≤ w.time) (w' : World) :
    (w.tick w').committedAt ≤ w.time := by
  dsimp only [World.tick]
  split_ifs
  · exact h
  · exact le_rfl

/-- The columns that tell a row from another are guarded. -/
theorem columns_of_guarded {s t : TrackingSetup} (h : s.guarded = t.guarded) :
    s.id = t.id ∧ s.projectId = t.projectId ∧ s.rowVersion = t.rowVersion ∧
      s.attentionReason = t.attentionReason ∧ s.attentionAt = t.attentionAt := by
  change s.guarded.id = t.guarded.id ∧ s.guarded.projectId = t.guarded.projectId ∧
    s.guarded.rowVersion = t.guarded.rowVersion ∧
    s.guarded.attentionReason = t.guarded.attentionReason ∧ s.guarded.attentionAt = t.guarded.attentionAt
  rw [h]
  exact ⟨rfl, rfl, rfl, rfl, rfl⟩

section Tick

variable {env : TrackEnv} {w w' : World}

/-- What a copy knows survives what others do. -/
theorem Copy.Known.tick {c : Copy} (h : c.Known w) (hstep : RowStep w w') : c.Known (w.tick w') := by
  rcases hstep with ⟨hminted, hrow⟩ | ⟨hwrite, hminted, hrow⟩ | ⟨hminted, hrow, hid, -⟩ | ⟨hminted, hrow⟩
  · refine ⟨hminted ▸ h.minted, h.stamped, ?_⟩
    intro row' hrow' hsame
    have hmap : w.db.row.map TrackingSetup.guarded = some row'.guarded := by
      rw [← hrow, show w'.db.row = some row' from hrow', Option.map_some]
    obtain ⟨row, hrow, hguarded⟩ := Option.map_eq_some_iff.1 hmap
    obtain ⟨hid, hproject, hversion, -⟩ := columns_of_guarded hguarded
    obtain ⟨hknownProject, hle, hknown⟩ := h.row row hrow (hid.trans hsame)
    have hcommitted : (w.tick w').committedAt = w.committedAt := by
      refine if_pos ?_
      rw [TrackDb.version, TrackDb.version, show w'.db.row = some row' from hrow', hrow, Option.map_some, Option.map_some, hid, hversion]
    refine ⟨hproject ▸ hknownProject, hversion ▸ hle, fun heq => ?_⟩
    obtain ⟨hcolumns, hcommittedAt⟩ := hknown (hversion.trans heq)
    exact ⟨hguarded ▸ hcolumns, hcommitted ▸ hcommittedAt⟩
  · refine ⟨h.minted.trans_le hminted, h.stamped, ?_⟩
    intro row' hrow' hsame
    obtain ⟨row, hold, rfl⟩ := Option.map_eq_some_iff.1 (hrow.symm.trans hrow')
    rw [hwrite.id] at hsame
    obtain ⟨hproject, hle, -⟩ := h.row row hold hsame
    refine ⟨(hwrite.projectId row).trans hproject, ?_, ?_⟩
    · rw [hwrite.rowVersion]
      exact hle.trans (Nat.le_succ _)
    · intro heq
      rw [hwrite.rowVersion] at heq
      omega
  · have hlt : c.setup.id < w'.minted := by
      rw [hminted]
      exact h.minted.trans (Nat.lt_succ_self _)
    refine ⟨hlt, h.stamped, ?_⟩
    intro row' hrow' hsame
    obtain rfl := Option.some.inj (hrow.symm.trans hrow')
    rw [hid] at hsame
    exact absurd h.minted (by omega)
  · refine ⟨hminted ▸ h.minted, h.stamped, ?_⟩
    intro row' hrow' _
    cases hrow.symm.trans hrow'

theorem World.Inv.known_read (h : w.Inv env) {row : TrackingSetup} (hrow : w.db.row = some row) :
    Copy.Known ⟨row, w.time⟩ w := by
  refine ⟨h.minted row hrow, h.stamped row hrow, ?_⟩
  intro row' hrow' _
  obtain rfl := Option.some.inj (hrow.symm.trans hrow')
  exact ⟨rfl, le_rfl, fun _ => ⟨rfl, h.committedAt⟩⟩

theorem holds_iff {db : TrackDb} {setup : TrackingSetup} :
    db.holds setup = true ↔
      ∃ row, db.row = some row ∧ row.id = setup.id ∧ row.rowVersion = setup.rowVersion := by
  unfold TrackDb.holds
  cases db.row <;> simp

/-- The copy of a writer whose write was let through. -/
theorem Copy.Known.written {c : Copy} (h : c.Known w) (hcommitted : w.committedAt ≤ w.time)
    (held : w.db.holds c.setup = true) {write : TrackingSetup → TrackingSetup} (hwrite : Bumps write)
    (hminted : w'.minted = w.minted) (hrow : w'.db.row = w.db.row.map write) :
    Copy.Known ⟨write c.setup, w.time⟩ (w.tick w') := by
  obtain ⟨row, hold, hid, hversion⟩ := holds_iff.1 held
  obtain ⟨hproject, -, hknown⟩ := h.row row hold hid
  refine ⟨?_, hwrite.stamped _ h.stamped, ?_⟩
  · rw [hwrite.id]
    exact hminted ▸ h.minted
  intro row' hrow' _
  rw [show w'.db.row = some row' from hrow', hold, Option.map_some] at hrow
  obtain rfl := Option.some.inj hrow
  refine ⟨?_, ?_, fun _ => ⟨hwrite.guarded_congr (hknown hversion).1, ?_⟩⟩
  · rw [hwrite.projectId, hwrite.projectId, hproject]
  · rw [hwrite.rowVersion, hwrite.rowVersion, hversion]
  · exact committedAt_tick_le hcommitted w'

/-- A copy is as good as another with its guarded columns. -/
theorem Copy.Known.of_guarded {c : Copy} (h : c.Known w) {setup : TrackingSetup}
    (hguarded : setup.guarded = c.setup.guarded) : Copy.Known ⟨setup, c.readAt⟩ w := by
  obtain ⟨hid, hproject, hversion, hreason, hat⟩ := columns_of_guarded hguarded
  refine ⟨hid ▸ h.minted, ?_, ?_⟩
  · have hstamped := h.stamped
    unfold TrackingSetup.Stamped at hstamped ⊢
    rw [hreason, hat]
    exact hstamped
  · intro row hrow hsame
    obtain ⟨hknownProject, hle, hknown⟩ := h.row row hrow (hsame.trans hid)
    refine ⟨hknownProject.trans hproject.symm, hversion ▸ hle, fun heq => ?_⟩
    obtain ⟨hcolumns, hcommittedAt⟩ := hknown (heq.trans hversion)
    exact ⟨hcolumns.trans hguarded.symm, hcommittedAt⟩

/-- The invariant after an operation, from what it does to the row and to its process. -/
theorem World.Inv.tick (h : w.Inv env) (hstep : RowStep w w')
    (hprocs : ∀ p, w'.procs p = w.procs p ∨ (w'.procs p).Inv env (w.tick w')) :
    (w.tick w').Inv env := by
  refine ⟨?_, ?_, fun e he => List.mem_append_right _ he,
    (committedAt_tick_le h.committedAt w').trans (Nat.le_succ _), ?_⟩
  · intro row' hrow'
    rcases hstep with ⟨hminted, hrow⟩ | ⟨hwrite, hminted, hrow⟩ | ⟨hminted, hrow, hid, -⟩ | ⟨-, hrow⟩
    · rw [show w'.db.row = some row' from hrow', Option.map_some] at hrow
      obtain ⟨row, hold, hguarded⟩ := Option.map_eq_some_iff.1 hrow.symm
      rw [← (columns_of_guarded hguarded).1]
      exact (h.minted row hold).trans_eq hminted.symm
    · obtain ⟨row, hold, rfl⟩ := Option.map_eq_some_iff.1 (hrow.symm.trans hrow')
      rw [hwrite.id]
      exact (h.minted row hold).trans_le hminted
    · obtain rfl := Option.some.inj (hrow.symm.trans hrow')
      exact (hid.trans_lt (Nat.lt_succ_self _)).trans_eq hminted.symm
    · cases hrow.symm.trans hrow'
  · intro row' hrow'
    rcases hstep with ⟨-, hrow⟩ | ⟨hwrite, -, hrow⟩ | ⟨-, hrow, -, hstamped⟩ | ⟨-, hrow⟩
    · rw [show w'.db.row = some row' from hrow', Option.map_some] at hrow
      obtain ⟨row, hold, hguarded⟩ := Option.map_eq_some_iff.1 hrow.symm
      obtain ⟨-, -, -, hreason, hat⟩ := columns_of_guarded hguarded
      have hstamped := h.stamped row hold
      unfold TrackingSetup.Stamped at hstamped ⊢
      rw [← hreason, ← hat]
      exact hstamped
    · obtain ⟨row, hold, rfl⟩ := Option.map_eq_some_iff.1 (hrow.symm.trans hrow')
      exact hwrite.stamped _ (h.stamped row hold)
    · obtain rfl := Option.some.inj (hrow.symm.trans hrow')
      exact hstamped
    · cases hrow.symm.trans hrow'
  · intro p
    rcases hprocs p with hsame | hnew
    · rw [show (w.tick w').procs p = w.procs p from hsame]
      exact (h.procs p).mono (fun c hc => hc.tick hstep) (List.subset_append_left _ _)
    · exact hnew

end Tick

/-! ## Every operation keeps the invariant -/

theorem casWrite_eq_ok {db db' : TrackDb} {setup setup' : TrackingSetup}
    {write : TrackingSetup → TrackingSetup} (h : db.casWrite setup write = .ok (db', setup')) :
    db.holds setup = true ∧ db' = { db with row := db.row.map write } ∧ setup' = write setup := by
  unfold TrackDb.casWrite at h
  split_ifs at h with held
  · obtain ⟨rfl, rfl⟩ := Prod.mk.inj (Except.ok.inj h)
    exact ⟨held, rfl, rfl⟩
  · cases h

theorem sameSession_of_guarded {s t : TrackingSetup} (h : s.guarded = t.guarded) : s.SameSession t := by
  change s.guarded.SameSession t.guarded
  rw [h]
  exact ⟨rfl, rfl, rfl⟩

/-- A correction either leaves the row or writes what the evidence says. -/
theorem correct_eq_ok {env : TrackEnv} {db db' : TrackDb} {now : Str} {setup setup' : TrackingSetup}
    {r : Reading} {mayWrite : Bool} (h : env.correct db now setup r mayWrite = .ok (db', setup')) :
    (db' = db ∧ setup' = setup) ∨ ∃ next, env.derivedState setup r = some next ∧
      writeDerived db setup next (env.failureIsNewer setup r) now = .ok (db', setup') := by
  unfold TrackEnv.correct at h
  split at h
  · rename_i next hnext
    split_ifs at h
    · exact Or.inr ⟨next, hnext, h⟩
    · obtain ⟨rfl, rfl⟩ := Prod.mk.inj (Except.ok.inj h)
      exact Or.inl ⟨rfl, rfl⟩
  · obtain ⟨rfl, rfl⟩ := Prod.mk.inj (Except.ok.inj h)
    exact Or.inl ⟨rfl, rfl⟩

/-- A correction stays within the session. -/
theorem sameSession_correct {env : TrackEnv} {db db' : TrackDb} {now : Str}
    {setup setup' : TrackingSetup} {r : Reading} {mayWrite : Bool}
    (h : env.correct db now setup r mayWrite = .ok (db', setup')) : setup'.SameSession setup := by
  rcases correct_eq_ok h with ⟨-, rfl⟩ | ⟨next, -, hwrite⟩
  · exact ⟨rfl, rfl, rfl⟩
  · obtain ⟨-, -, rfl⟩ := casWrite_eq_ok hwrite
    exact ⟨rfl, rfl, rfl⟩

theorem guarded_writeTraffic (db : TrackDb) (setup : TrackingSetup) (earliest : Option Str) :
    (db.writeTraffic setup earliest).1.row.map TrackingSetup.guarded
        = db.row.map TrackingSetup.guarded ∧
      (db.writeTraffic setup earliest).2.guarded = setup.guarded := by
  unfold TrackDb.writeTraffic
  split_ifs
  · refine ⟨?_, rfl⟩
    rw [Option.map_map]
    refine Option.map_congr ?_
    intro row _
    simp only [Function.comp_apply]
    split_ifs <;> rfl
  · exact ⟨rfl, rfl⟩

theorem guarded_writeVerified (db : TrackDb) (setup : TrackingSetup) (earliest : Option Str) :
    (db.writeVerified setup earliest).1.row.map TrackingSetup.guarded
        = db.row.map TrackingSetup.guarded ∧
      (db.writeVerified setup earliest).2.guarded = setup.guarded := by
  unfold TrackDb.writeVerified
  split_ifs
  · refine ⟨?_, rfl⟩
    rw [Option.map_map]
    refine Option.map_congr ?_
    intro row _
    simp only [Function.comp_apply]
    split_ifs <;> rfl
  · exact ⟨rfl, rfl⟩

section Step

variable {env : TrackEnv} {w : World}

theorem procs_become {w' : World} {Q : Local → Prop} (hprocs : w'.procs = w.procs) {p : Nat} {l : Local}
    (hl : Q l) (q : Nat) :
    (w'.become p l).procs q = w.procs q ∨ Q ((w'.become p l).procs q) := by
  by_cases h : q = p
  · refine Or.inr ?_
    change Q (Function.update w'.procs p l q)
    rw [h, Function.update_self]
    exact hl
  · refine Or.inl ?_
    change Function.update w'.procs p l q = w.procs q
    rw [Function.update_of_ne h, hprocs]

/-- A guarded write keeps the invariant, if what its process goes on with does. -/
theorem World.Inv.commit (h : w.Inv env) {p : Nat} {c : Copy} (hc : c.Known w) {next : Copy → Local}
    {result : Except CoreError (TrackDb × TrackingSetup)} (hresult : Guarded w.db c.setup result)
    (hnext : ∀ (w' : World) (c' : Copy), c'.Known w' → w.recorded ⊆ w'.recorded →
      (∃ db, result = .ok (db, c'.setup)) → (next c').Inv env w') :
    (w.tick (w.commit p c next result)).Inv env := by
  cases hresult with
  | refused e => exact h.tick (.kept rfl rfl) (procs_become rfl trivial)
  | unneeded =>
      have hafter : w.after c c.setup = c := by
        unfold World.after
        rw [if_pos rfl]
      refine h.tick (.kept rfl rfl) (procs_become rfl ?_)
      rw [hafter]
      exact hnext _ _ (hc.tick (.kept rfl rfl)) (List.subset_append_left _ _) ⟨_, rfl⟩
  | @written write hwrite held =>
      have hafter : w.after c (write c.setup) = ⟨write c.setup, w.time⟩ := by
        unfold World.after
        rw [if_neg]
        rw [hwrite.rowVersion]
        exact Nat.succ_ne_self _
      refine h.tick (.written hwrite le_rfl rfl) (procs_become rfl ?_)
      rw [hafter]
      exact hnext _ _ (hc.written h.committedAt held hwrite rfl rfl) (List.subset_append_left _ _)
        ⟨_, rfl⟩

/-- So does the write of a watermark. -/
theorem World.Inv.mark (h : w.Inv env) {p : Nat} {c : Copy} (hc : c.Known w) {r : Reading}
    (hr : r.Backed env w c.setup) {result : TrackDb × TrackingSetup}
    (hresult : result.1.row.map TrackingSetup.guarded = w.db.row.map TrackingSetup.guarded ∧
      result.2.guarded = c.setup.guarded) :
    (w.tick (w.mark p c r result)).Inv env := by
  obtain ⟨hrow, hcopy⟩ := hresult
  unfold World.mark
  split_ifs
  · refine h.tick (.kept rfl hrow) (procs_become rfl ⟨?_, ?_⟩)
    · exact (hc.of_guarded hcopy).tick (.kept rfl hrow)
    · exact hr.congr (sameSession_of_guarded hcopy) (List.subset_append_left _ _)
  · exact h.tick (.kept rfl rfl) fun _ => Or.inl rfl

theorem World.Inv.quiet (h : w.Inv env) : (w.tick w).Inv env :=
  h.tick (.kept rfl rfl) fun _ => Or.inl rfl

/-- What a refresh reads is backed by the events at hand. -/
theorem World.Inv.backed_read (h : w.Inv env) {setup : TrackingSetup} {appliedAt : Str}
    (happlied : setup.appliedAt = some appliedAt) (now : Str) :
    (env.read w.db now appliedAt setup).Backed env w setup := by
  refine ⟨?_, ?_⟩
  · intro t ht
    obtain ⟨e, he, hadmissible, hat⟩ := read_earliest happlied ht
    exact ⟨e, h.recorded e he, ⟨now, hadmissible⟩, hat⟩
  · intro t ht
    obtain ⟨f, hf, hlast⟩ := newest_mem ht
    obtain ⟨e, he, hadmissible, -, hat⟩ := read_lastObserved happlied hf hlast
    exact ⟨e, h.recorded e he, ⟨now, hadmissible⟩, hat⟩

theorem World.Inv.holds (h : w.Inv env) {p : Nat} {c : Copy} (hp : w.procs p = .holds c) : c.Known w := by
  have hlocal := h.procs p
  rw [hp] at hlocal
  exact hlocal

theorem World.Inv.looked (h : w.Inv env) {p : Nat} {c : Copy} {r : Reading}
    (hp : w.procs p = .looked c r) : c.Known w ∧ r.Backed env w c.setup := by
  have hlocal := h.procs p
  rw [hp] at hlocal
  exact hlocal

theorem World.Inv.corrected (h : w.Inv env) {p : Nat} {c : Copy} {r : Reading}
    (hp : w.procs p = .corrected c r) : c.Known w ∧ r.Backed env w c.setup := by
  have hlocal := h.procs p
  rw [hp] at hlocal
  exact hlocal

theorem row_delete : (w.act env .delete).db.row = none := by
  dsimp only [World.act]
  cases hrow : w.db.row with
  | none => exact hrow
  | some row =>
      rw [Option.map_some, Option.getD_some, deleteSetup, hrow]
      simp

/-- Every operation keeps the invariant. -/
theorem World.Inv.step (h : w.Inv env) (op : Op) : (w.step env op).Inv env := by
  unfold World.step
  cases op with
  | read p =>
      dsimp only [World.act]
      split
      · rename_i row hrow
        exact h.tick (.kept rfl rfl) (procs_become rfl ((h.known_read hrow).tick (.kept rfl rfl)))
      · exact h.quiet
  | look p now =>
      dsimp only [World.act]
      split
      · rename_i c hp
        have hc := h.holds hp
        split
        · rename_i appliedAt hchecked
          have hbacked := h.backed_read (appliedAt_of_checkedFrom hchecked) now
          refine h.tick (.kept rfl rfl) (procs_become rfl ⟨hc.tick (.kept rfl rfl), ?_⟩)
          exact hbacked.congr ⟨rfl, rfl, rfl⟩ (List.subset_append_left _ _)
        · exact h.quiet
      · exact h.quiet
  | correct p now =>
      dsimp only [World.act]
      split
      · rename_i c r hp
        obtain ⟨hc, hr⟩ := h.looked hp
        refine h.commit hc (guarded_correct now r true) ?_
        rintro w' c' hknown hrecorded ⟨db, hok⟩
        -- a correction stays within the session that the evidence was read for
        exact ⟨hknown, hr.congr (sameSession_correct hok) hrecorded⟩
      · exact h.quiet
  | correctUnchecked p now =>
      dsimp only [World.act]
      split
      · rename_i c hp
        split
        · exact h.commit (h.holds hp) (guarded_correctUnchecked now true) fun _ _ hknown _ _ => hknown
        · exact h.quiet
      · exact h.quiet
  | writeTraffic p =>
      dsimp only [World.act]
      split
      · rename_i c r hp
        exact h.mark (h.corrected hp).1 (h.corrected hp).2 (guarded_writeTraffic w.db c.setup r.earliest)
      · exact h.quiet
  | writeVerified p =>
      dsimp only [World.act]
      split
      · rename_i c r hp
        exact h.mark (h.corrected hp).1 (h.corrected hp).2 (guarded_writeVerified w.db c.setup r.earliest)
      · exact h.quiet
  | transition p next reason now =>
      dsimp only [World.act]
      split
      · rename_i c hp
        exact h.commit (h.holds hp) (guarded_transition next reason now) fun _ _ hknown _ _ => hknown
      · exact h.quiet
  | recordRoutesCreated p created reEnabled =>
      dsimp only [World.act]
      split
      · rename_i c hp
        exact h.commit (h.holds hp) (guarded_casWrite (bumps_withSummary _ _))
          fun _ _ hknown _ _ => hknown
      · exact h.quiet
  | recordApplied p summary rowid now =>
      dsimp only [World.act]
      split
      · rename_i c hp
        exact h.commit (h.holds hp) (guarded_casWrite (bumps_withSummary _ _))
          fun _ _ hknown _ _ => hknown
      · exact h.quiet
  | clearArtifacts p =>
      dsimp only [World.act]
      split
      · rename_i c hp
        exact h.commit (h.holds hp) (guarded_casWrite bumps_cleared) fun _ _ hknown _ _ => hknown
      · exact h.quiet
  | upsert projectId state rowid now =>
      refine h.tick ?_ fun _ => Or.inl rfl
      dsimp only [World.act, upsertSetup]
      split
      · exact .created rfl rfl rfl rfl
      · rename_i row hrow
        refine .written (bumps_reopened state w.minted rowid now) (Nat.le_succ _) ?_
        rw [hrow, Option.map_some]
  | delete => exact h.tick (.deleted rfl row_delete) fun _ => Or.inl rfl
  | setEvents events => exact h.tick (.kept rfl rfl) fun _ => Or.inl rfl
  | setRoutes routes => exact h.tick (.kept rfl rfl) fun _ => Or.inl rfl
  | setLinks links => exact h.tick (.kept rfl rfl) fun _ => Or.inl rfl

end Step

/-- So does every run. -/
theorem World.Inv.run {env : TrackEnv} {w w' : World} (h : w.Inv env)
    (hrun : Steps (World.Next env) w w') : w'.Inv env := by
  refine Steps.invariant (I := World.Inv env) ?_ h hrun
  rintro s t hs ⟨op, rfl⟩
  exact hs.step op

end Tethra.Tracking
