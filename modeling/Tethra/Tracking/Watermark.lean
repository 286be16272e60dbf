import Tethra.Tracking.Session

set_option autoImplicit false

/-! # The watermark of a session

`first_traffic_at` is written beside the version guard, and only once. While each such write lands in the
session that its refresh has read, and no apply is recorded over an older watermark, the watermark is
the time of an observation of the session (`watermark_observed`). A refresh that is overtaken by a new
session leaves the old session's time on it (`watermark_of_old_session`). -/

namespace Tethra.Tracking

open Runs

/-- The watermark is the time of an observation that the row's session admits. -/
def World.WatermarkObserved (env : TrackEnv) (w : World) : Prop :=
  ∀ row, w.db.row = some row → ∀ t, row.firstTrafficAt = some t → w.Observed env row t

/-- The operation keeps to the session: a watermark that it writes was read in the session of the stored
    row, and an apply that it records meets no watermark. -/
def World.WithinSession (w : World) : Op → Prop
  | .writeTraffic p => ∀ c r row, w.procs p = .corrected c r → w.db.row = some row →
      0 < r.observedEver → c.setup.firstTrafficAt = none → row.id = c.setup.id →
      row.firstTrafficAt = none →
      row.appliedAt = c.setup.appliedAt ∧ row.appliedEventRowid = c.setup.appliedEventRowid
  | .recordApplied p _ _ _ => ∀ c row, w.procs p = .holds c → w.db.row = some row →
      w.db.holds c.setup = true → row.firstTrafficAt = none
  | _ => True

/-- An operation that keeps to the session. -/
def World.NextWithin (env : TrackEnv) (w w' : World) : Prop :=
  ∃ op, w.WithinSession op ∧ w' = w.step env op

/-- What a write does to the watermark and to the session that it is held against. -/
def Faithful (write : TrackingSetup → TrackingSetup) (row : TrackingSetup) : Prop :=
  (write row).firstTrafficAt = none ∨
    ((write row).firstTrafficAt = row.firstTrafficAt ∧ (write row).SameSession row)

variable {env : TrackEnv} {w : World}

theorem recorded_tick (w' : World) : w.recorded ⊆ (w.tick w').recorded := List.subset_append_left _ _

theorem watermarkObserved_map (h : w.WatermarkObserved env) {w' : World}
    {write : TrackingSetup → TrackingSetup} (hrow : w'.db.row = w.db.row.map write)
    (hwrite : ∀ row, w.db.row = some row → Faithful write row) :
    (w.tick w').WatermarkObserved env := by
  intro row' hrow' t ht
  obtain ⟨row, hold, rfl⟩ := Option.map_eq_some_iff.1 (hrow.symm.trans hrow')
  rcases hwrite row hold with hnone | ⟨hsame, hsession⟩
  · rw [hnone] at ht
    cases ht
  · rw [hsame] at ht
    exact ((h row hold t ht).congr hsession).mono (recorded_tick w')

theorem watermarkObserved_self (h : w.WatermarkObserved env) {w' : World}
    (hrow : w'.db.row = w.db.row) : (w.tick w').WatermarkObserved env := by
  intro row hrow' t ht
  exact (h row (hrow.symm.trans hrow') t ht).mono (recorded_tick w')

theorem watermarkObserved_commit (h : w.WatermarkObserved env) {p : Nat} {c : Copy}
    {next : Copy → Local} {result : Except CoreError (TrackDb × TrackingSetup)}
    (hresult : ∀ db setup, result = .ok (db, setup) → db.row = w.db.row ∨
      ∃ write, db.row = w.db.row.map write ∧ ∀ row, w.db.row = some row → Faithful write row) :
    (w.tick (w.commit p c next result)).WatermarkObserved env := by
  unfold World.commit
  split
  · rename_i db setup
    rcases hresult db setup rfl with hrow | ⟨write, hrow, hwrite⟩
    · exact watermarkObserved_self h hrow
    · exact watermarkObserved_map h hrow hwrite
  · exact watermarkObserved_self h rfl

/-- The writes of the health columns leave the session alone. -/
theorem faithful_withHealth (next : TrackingState) (reason attentionAt : Option Str) (now : Str)
    (row : TrackingSetup) : Faithful (TrackingSetup.withHealth next reason attentionAt now) row :=
  Or.inr ⟨rfl, rfl, rfl, rfl⟩

theorem casWriteHealth_faithful {db db' : TrackDb} {setup setup' : TrackingSetup}
    {next : TrackingState} {reason attentionAt : Option Str} {now : Str}
    (hok : casWriteHealth db setup next reason attentionAt now = .ok (db', setup')) :
    ∃ write, db'.row = db.row.map write ∧ ∀ row, db.row = some row → Faithful write row := by
  obtain ⟨-, rfl, -⟩ := casWrite_eq_ok hok
  exact ⟨_, rfl, fun row _ => faithful_withHealth next reason attentionAt now row⟩

theorem watermarkObserved_writeTraffic (hinv : w.Inv env) (h : w.WatermarkObserved env) {p : Nat}
    {c : Copy} {r : Reading} (hp : w.procs p = .corrected c r)
    (hwithin : w.WithinSession (.writeTraffic p)) :
    (w.tick (w.mark p c r (w.db.writeTraffic c.setup r.earliest))).WatermarkObserved env := by
  obtain ⟨hc, hr⟩ := hinv.corrected hp
  unfold World.mark TrackDb.writeTraffic
  split_ifs with hobserved hunset
  · intro row' hrow' t ht
    obtain ⟨row, hrow, hwrite⟩ := Option.map_eq_some_iff.1 hrow'
    split_ifs at hwrite with hlands
    · -- the write lands: its time was read in this session
      obtain ⟨hid, hnone⟩ := hlands
      subst hwrite
      obtain ⟨happlied, hrowid⟩ := hwithin c r row hp hrow hobserved (Option.isNone_iff_eq_none.1 hunset)
        hid (Option.isNone_iff_eq_none.1 hnone)
      have hproject := (hc.row row hrow hid).1
      exact ((hr.earliest t ht).congr ⟨happlied, hproject, hrowid⟩).mono (recorded_tick _)
    · subst hwrite
      exact (h row hrow t ht).mono (recorded_tick _)
  · exact watermarkObserved_self h rfl
  · exact watermarkObserved_self h rfl

theorem watermarkObserved_writeVerified (h : w.WatermarkObserved env) {p : Nat} {c : Copy}
    {r : Reading} :
    (w.tick (w.mark p c r (w.db.writeVerified c.setup r.earliest))).WatermarkObserved env := by
  unfold World.mark TrackDb.writeVerified
  split_ifs
  · refine watermarkObserved_map h rfl fun row _ => Or.inr ?_
    dsimp only
    split_ifs
    · exact ⟨rfl, rfl, rfl, rfl⟩
    · exact ⟨rfl, rfl, rfl, rfl⟩
  · exact watermarkObserved_self h rfl
  · exact watermarkObserved_self h rfl

/-- An operation that keeps to the session keeps the watermark one of the session. -/
theorem watermarkObserved_step (hinv : w.Inv env) (h : w.WatermarkObserved env) {op : Op}
    (hwithin : w.WithinSession op) : (w.step env op).WatermarkObserved env := by
  have hquiet : (w.tick w).WatermarkObserved env := watermarkObserved_self h rfl
  unfold World.step
  cases op with
  | read p =>
      dsimp only [World.act]
      split
      · exact watermarkObserved_self h rfl
      · exact hquiet
  | look p now =>
      dsimp only [World.act]
      split
      · split
        · exact watermarkObserved_self h rfl
        · exact hquiet
      · exact hquiet
  | correct p now =>
      dsimp only [World.act]
      split
      · refine watermarkObserved_commit h fun db setup hok => ?_
        rcases correct_eq_ok hok with ⟨rfl, -⟩ | ⟨next, -, hwrite⟩
        · exact Or.inl rfl
        · exact Or.inr (casWriteHealth_faithful hwrite)
      · exact hquiet
  | correctUnchecked p now =>
      dsimp only [World.act]
      split
      · split
        · refine watermarkObserved_commit h fun db setup hok => ?_
          unfold correctUnchecked at hok
          split_ifs at hok
          · exact Or.inr (casWriteHealth_faithful hok)
          · obtain ⟨rfl, -⟩ := Prod.mk.inj (Except.ok.inj hok)
            exact Or.inl rfl
        · exact hquiet
      · exact hquiet
  | writeTraffic p =>
      dsimp only [World.act]
      split
      · rename_i c r hp
        exact watermarkObserved_writeTraffic hinv h hp hwithin
      · exact hquiet
  | writeVerified p =>
      dsimp only [World.act]
      split
      · exact watermarkObserved_writeVerified h
      · exact hquiet
  | transition p next reason now =>
      dsimp only [World.act]
      split
      · refine watermarkObserved_commit h fun db setup hok => Or.inr ?_
        unfold transition at hok
        split_ifs at hok
        exact casWriteHealth_faithful hok
      · exact hquiet
  | recordRoutesCreated p created reEnabled =>
      dsimp only [World.act]
      split
      · refine watermarkObserved_commit h fun db setup hok => Or.inr ?_
        obtain ⟨-, rfl, -⟩ := casWrite_eq_ok hok
        exact ⟨_, rfl, fun _ _ => Or.inr ⟨rfl, rfl, rfl, rfl⟩⟩
      · exact hquiet
  | recordApplied p summary rowid now =>
      dsimp only [World.act]
      split
      · rename_i c hp
        refine watermarkObserved_commit h fun db setup hok => Or.inr ?_
        obtain ⟨held, rfl, -⟩ := casWrite_eq_ok hok
        -- the session's columns move under a watermark that is not set
        exact ⟨_, rfl, fun row hrow => Or.inl (hwithin c row hp hrow held)⟩
      · exact hquiet
  | clearArtifacts p =>
      dsimp only [World.act]
      split
      · refine watermarkObserved_commit h fun db setup hok => Or.inr ?_
        obtain ⟨-, rfl, -⟩ := casWrite_eq_ok hok
        exact ⟨_, rfl, fun _ _ => Or.inl rfl⟩
      · exact hquiet
  | upsert projectId state rowid now =>
      dsimp only [World.act, upsertSetup]
      split
      · intro row hrow t ht
        obtain rfl := Option.some.inj hrow
        cases ht
      · rename_i row hrow
        refine @watermarkObserved_map env w h _ (TrackingSetup.reopened state w.minted rowid now) ?_
          fun _ _ => Or.inl rfl
        rw [hrow, Option.map_some]
  | delete =>
      intro row hrow
      cases (@row_delete env w).symm.trans hrow
  | setEvents events => exact watermarkObserved_self h rfl
  | setRoutes routes => exact watermarkObserved_self h rfl
  | setLinks links => exact watermarkObserved_self h rfl

/-- In every run of operations that keep to the session, from any database whose watermark is one of its
    session, the watermark is the time of an observation that the current session admits. -/
theorem watermark_observed {w₀ : World} (hinitial : w₀.Initial) (hstart : w₀.WatermarkObserved env)
    (hrun : Steps (World.NextWithin env) w₀ w) : w.WatermarkObserved env := by
  have hboth : w.Inv env ∧ w.WatermarkObserved env := by
    refine Steps.invariant (I := fun u => World.Inv env u ∧ u.WatermarkObserved env) ?_
      ⟨hinitial.inv env, hstart⟩ hrun
    rintro u v ⟨hinv, hobserved⟩ ⟨op, hwithin, rfl⟩
    exact ⟨hinv.step op, watermarkObserved_step hinv hobserved hwithin⟩
  exact hboth.2

/-! ## A refresh that is overtaken -/

def observedWorld : World where
  db := observedDb
  minted := 2
  procs _ := .idle
  recorded := observedDb.events
  time := 0
  committedAt := 0

theorem observedWorld_initial : observedWorld.Initial := by
  refine ⟨fun _ => rfl, ?_, ?_, fun _ h => h, le_rfl⟩
  · intro row hrow
    obtain rfl := Option.some.inj hrow
    exact Nat.lt_succ_self 1
  · intro row hrow
    obtain rfl := Option.some.inj hrow
    rfl

theorem observedWorld_watermark : observedWorld.WatermarkObserved plainEnv := by
  intro row hrow t ht
  obtain rfl := Option.some.inj hrow
  cases ht

/-- A refresh has read the row and the evidence, and has corrected the row. -/
def correctedWorld : World :=
  ((observedWorld.step plainEnv (.read 0)).step plainEnv (.look 0 noon)).step plainEnv (.correct 0 noon)

/-- A refresh that runs to its end writes a watermark of its session. -/
theorem watermark_observed_refresh :
    (correctedWorld.step plainEnv (.writeTraffic 0)).WatermarkObserved plainEnv := by
  have hcorrected : Steps (World.NextWithin plainEnv) observedWorld correctedWorld :=
    .tail (.tail (.tail .refl ⟨.read 0, trivial, rfl⟩) ⟨.look 0 noon, trivial, rfl⟩)
      ⟨.correct 0 noon, trivial, rfl⟩
  refine watermark_observed observedWorld_initial observedWorld_watermark
    (hcorrected.tail ⟨.writeTraffic 0, ?_, rfl⟩)
  intro c r row hp hrow _ _ _ _
  have hsame : ((correctedWorld.procs 0).copy.map fun c =>
        (c.setup.appliedAt, c.setup.appliedEventRowid))
      = correctedWorld.db.row.map fun row => (row.appliedAt, row.appliedEventRowid) := by
    decide +kernel
  rw [hp, hrow] at hsame
  obtain ⟨happlied, hrowid⟩ := Prod.mk.inj (Option.some.inj hsame)
  exact ⟨happlied.symm, hrowid.symm⟩

/-- Another process opens a new session before the refresh writes its watermark. -/
def overtakenWorld : World :=
  (correctedWorld.step plainEnv (.upsert "p1".toList .applying 5 noon)).step plainEnv (.writeTraffic 0)

/-- The refresh leaves the old session's time on the new one. -/
theorem watermark_of_old_session :
    observedWorld.Initial ∧ observedWorld.WatermarkObserved plainEnv ∧
      Steps (World.Next plainEnv) observedWorld overtakenWorld ∧
      ¬ overtakenWorld.WatermarkObserved plainEnv := by
  refine ⟨observedWorld_initial, observedWorld_watermark, ?_, ?_⟩
  · exact .tail (.tail (.tail (.tail (.tail .refl ⟨.read 0, rfl⟩) ⟨.look 0 noon, rfl⟩)
      ⟨.correct 0 noon, rfl⟩) ⟨.upsert "p1".toList .applying 5 noon, rfl⟩) ⟨.writeTraffic 0, rfl⟩
  · intro h
    have hrow : overtakenWorld.db.row.map (fun row => (row.appliedAt, row.firstTrafficAt))
        = some (none, some "2026-07-24T11:59:00Z".toList) := by decide +kernel
    obtain ⟨row, hrow, hcolumns⟩ := Option.map_eq_some_iff.1 hrow
    obtain ⟨hunapplied, htraffic⟩ := Prod.mk.inj hcolumns
    obtain ⟨e, -, ⟨now, appliedAt, happlied, -⟩, -⟩ := h row hrow _ htraffic
    cases hunapplied.symm.trans happlied

end Tethra.Tracking
