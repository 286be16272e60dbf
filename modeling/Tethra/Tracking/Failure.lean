import Tethra.Tracking.Session

set_option autoImplicit false

/-! # No failure is lost

A recorded failure stays on the row, whoever writes it, until it is answered (`failure_kept_or_cleared`). A
correction from evidence takes an observation at the failure's own instant for a newer one
(`failure_cleared_at_tie`); every other one keeps a failure that is not older. -/

namespace Tethra.Tracking

open Runs

/-- The failure is on the row. -/
def KeepsFailure (row : TrackingSetup) (db : TrackDb) : Prop :=
  ∃ row', db.row = some row' ∧ row'.id = row.id ∧ row'.attentionReason = row.attentionReason ∧
    row'.attentionAt = row.attentionAt

/-- What may clear the failure of a row: a refresh that read this very row, after which nothing was
    committed, and has a newer observation that the row admits; a transition by who read the row; a new
    session; and the end of the setup. -/
inductive World.Clears (env : TrackEnv) (w : World) (row : TrackingSetup) : Op → Prop where
  | observed {p : Nat} {now then_ failed : Str} {c : Copy} {r : Reading} {e : EventRow} {i j : Int}
      (looked : w.procs p = .looked c r) (current : w.committedAt ≤ c.readAt)
      (same : row.guarded = c.setup.guarded) (recorded : e ∈ w.recorded)
      (admissible : Admissible env then_ row e) (stamped : row.attentionAt = some failed)
      (failedAt : env.parse failed = some i) (observedAt : env.parse e.at_ = some j) (newer : i < j) :
      Clears env w row (.correct p now)
  | transition {p : Nat} {next : TrackingState} {reason : Option Str} {now : Str} {c : Copy}
      (holds : w.procs p = .holds c) (current : w.committedAt ≤ c.readAt) :
      Clears env w row (.transition p next reason now)
  | upsert {projectId : Str} {state : TrackingState} {rowid : Nat} {now : Str} :
      Clears env w row (.upsert projectId state rowid now)
  | delete : Clears env w row .delete

/-- A refresh is about to correct the row from evidence whose newest time is the failure's. -/
def World.Ties (env : TrackEnv) (w : World) (op : Op) : Prop :=
  ∃ p now c r failed seen i, op = .correct p now ∧ w.procs p = .looked c r ∧
    c.setup.attentionAt = some failed ∧ r.newest = some seen ∧ env.parse failed = some i ∧
    env.parse seen = some i

variable {env : TrackEnv} {w : World} {row : TrackingSetup}

theorem keepsFailure_self {db : TrackDb} (hrow : db.row = some row) : KeepsFailure row db :=
  ⟨row, hrow, rfl, rfl, rfl⟩

theorem keepsFailure_map {db db' : TrackDb} (hrow : db.row = some row)
    {write : TrackingSetup → TrackingSetup} (hdb : db'.row = db.row.map write)
    (hid : (write row).id = row.id) (hreason : (write row).attentionReason = row.attentionReason)
    (hat : (write row).attentionAt = row.attentionAt) : KeepsFailure row db' := by
  refine ⟨write row, ?_, hid, hreason, hat⟩
  rw [hdb, hrow, Option.map_some]

theorem keepsFailure_guarded {db db' : TrackDb} (hrow : db.row = some row)
    (hguarded : db'.row.map TrackingSetup.guarded = db.row.map TrackingSetup.guarded) :
    KeepsFailure row db' := by
  rw [hrow, Option.map_some] at hguarded
  obtain ⟨row', hrow', hsame⟩ := Option.map_eq_some_iff.1 hguarded
  obtain ⟨hid, -, -, hreason, hat⟩ := columns_of_guarded hsame
  exact ⟨row', hrow', hid, hreason, hat⟩

/-- A write that was let through came from a copy of the stored row. -/
theorem Copy.Known.of_held {c : Copy} (h : c.Known w) (hrow : w.db.row = some row)
    (held : w.db.holds c.setup = true) : row.guarded = c.setup.guarded ∧ w.committedAt ≤ c.readAt := by
  obtain ⟨row', hrow', hid, hversion⟩ := holds_iff.1 held
  obtain rfl := Option.some.inj (hrow.symm.trans hrow')
  exact (h.row row hrow hid).2.2 hversion

/-- A guarded write clears the failure only if the write that it comes to does. -/
theorem keepsFailure_commit {p : Nat} {c : Copy} {next : Copy → Local}
    {result : Except CoreError (TrackDb × TrackingSetup)} {Q : Prop} (hrow : w.db.row = some row)
    (h : ∀ db setup, result = .ok (db, setup) → KeepsFailure row db ∨ Q) :
    KeepsFailure row (w.commit p c next result).db ∨ Q := by
  unfold World.commit
  split
  · rename_i db setup
    exact h db setup rfl
  · exact Or.inl (keepsFailure_self hrow)

theorem keepsFailure_casWrite {p : Nat} {c : Copy} {next : Copy → Local}
    {write : TrackingSetup → TrackingSetup} {Q : Prop} (hrow : w.db.row = some row)
    (hid : (write row).id = row.id) (hreason : (write row).attentionReason = row.attentionReason)
    (hat : (write row).attentionAt = row.attentionAt) :
    KeepsFailure row (w.commit p c next (w.db.casWrite c.setup write)).db ∨ Q := by
  refine keepsFailure_commit hrow fun db setup hok => Or.inl ?_
  obtain ⟨-, rfl, -⟩ := casWrite_eq_ok hok
  exact keepsFailure_map hrow rfl hid hreason hat

theorem keepsFailure_mark {p : Nat} {c : Copy} {r : Reading} {result : TrackDb × TrackingSetup}
    (hrow : w.db.row = some row)
    (hresult : result.1.row.map TrackingSetup.guarded = w.db.row.map TrackingSetup.guarded) :
    KeepsFailure row (w.mark p c r result).db := by
  unfold World.mark
  split_ifs
  · exact keepsFailure_guarded hrow hresult
  · exact keepsFailure_self hrow

/-! ## Corrections -/

/-- A correction keeps the failure, or has a newer observation. -/
theorem keepsFailure_correct {p : Nat} {now : Str} {c : Copy} {r : Reading} (hinv : w.Inv env)
    (hp : w.procs p = .looked c r) (hties : ¬ w.Ties env (.correct p now)) (hrow : w.db.row = some row)
    (hfailed : row.attentionReason.isSome = true) {db : TrackDb} {setup : TrackingSetup}
    (hok : env.correct w.db now c.setup r true = .ok (db, setup)) :
    KeepsFailure row db ∨ w.Clears env row (.correct p now) := by
  obtain ⟨hc, hr⟩ := hinv.looked hp
  rcases correct_eq_ok hok with ⟨rfl, -⟩ | ⟨next, -, hwrite⟩
  · exact Or.inl (keepsFailure_self hrow)
  obtain ⟨held, rfl, -⟩ := casWrite_eq_ok hwrite
  obtain ⟨hsame, hcurrent⟩ := hc.of_held hrow held
  obtain ⟨-, -, -, hreason, hat⟩ := columns_of_guarded hsame
  have hstamped := hinv.stamped row hrow
  unfold TrackingSetup.Stamped at hstamped
  rw [hfailed] at hstamped
  obtain ⟨failed, hstamp⟩ := Option.isSome_iff_exists.1 hstamped.symm
  -- the failure is either kept, or answered by the newest observation
  cases hnewer : env.failureIsNewer c.setup r with
  | true =>
      refine Or.inl (keepsFailure_map hrow rfl rfl ?_ ?_)
      · exact hreason.symm
      · change (if c.setup.attentionReason.isSome = true then
          some (c.setup.attentionAt.getD now) else none) = row.attentionAt
        rw [← hreason, ← hat, if_pos hfailed, hstamp]
        rfl
  | false =>
      obtain ⟨seen, i, j, hseen, hi, hj, hle⟩ := newest_of_failureIsNewer (hat.symm.trans hstamp) hnewer
      obtain ⟨e, he, ⟨then_, hadmissible⟩, rfl⟩ :=
        (World.Observed.congr (hr.newest seen hseen) (sameSession_of_guarded hsame))
      have hne : i ≠ j := by
        rintro rfl
        exact hties ⟨p, now, c, r, failed, _, i, rfl, hp, hat.symm.trans hstamp, hseen, hi, hj⟩
      exact Or.inr (.observed hp hcurrent hsame he hadmissible hstamp hi hj (lt_of_le_of_ne hle hne))

theorem keepsFailure_correctUnchecked {p : Nat} {now : Str} {c : Copy} (hinv : w.Inv env)
    (hp : w.procs p = .holds c) (hrow : w.db.row = some row)
    (hfailed : row.attentionReason.isSome = true) {db : TrackDb} {setup : TrackingSetup}
    (hok : Tracking.correctUnchecked w.db now c.setup true = .ok (db, setup)) : KeepsFailure row db := by
  unfold correctUnchecked at hok
  split_ifs at hok
  · obtain ⟨held, rfl, -⟩ := casWrite_eq_ok hok
    obtain ⟨hsame, -⟩ := (hinv.holds hp).of_held hrow held
    obtain ⟨-, -, -, hreason, hat⟩ := columns_of_guarded hsame
    obtain ⟨reason, hsome⟩ := Option.isSome_iff_exists.1 hfailed
    have hstamped := hinv.stamped row hrow
    unfold TrackingSetup.Stamped at hstamped
    rw [hfailed] at hstamped
    obtain ⟨failed, hstamp⟩ := Option.isSome_iff_exists.1 hstamped.symm
    -- the generic reason only fills a gap, and here there is none
    refine keepsFailure_map hrow rfl rfl ?_ ?_
    · change some (c.setup.attentionReason.getD _) = row.attentionReason
      rw [← hreason, hsome]
      rfl
    · change some (c.setup.attentionAt.getD now) = row.attentionAt
      rw [← hat, hstamp]
      rfl
  · obtain ⟨rfl, -⟩ := Prod.mk.inj (Except.ok.inj hok)
    exact keepsFailure_self hrow

/-! ## Every operation -/

/-- In every run of the processes, an operation on a row with a failure keeps the failure, unless it may
    clear it, or is a refresh whose newest observation is at the failure's instant. -/
theorem failure_kept_or_cleared {w₀ : World} (hinitial : w₀.Initial)
    (hrun : Steps (World.Next env) w₀ w) {op : Op} (hties : ¬ w.Ties env op)
    (hrow : w.db.row = some row) (hfailed : row.attentionReason.isSome = true) :
    KeepsFailure row (w.step env op).db ∨ w.Clears env row op := by
  have hinv := (hinitial.inv env).run hrun
  change KeepsFailure row (w.act env op).db ∨ w.Clears env row op
  have hquiet : KeepsFailure row w.db := keepsFailure_self hrow
  cases op with
  | read p =>
      dsimp only [World.act]
      split
      · exact Or.inl hquiet
      · exact Or.inl hquiet
  | look p now =>
      dsimp only [World.act]
      split
      · split
        · exact Or.inl hquiet
        · exact Or.inl hquiet
      · exact Or.inl hquiet
  | correct p now =>
      dsimp only [World.act]
      split
      · rename_i c r hp
        exact keepsFailure_commit hrow fun _ _ => keepsFailure_correct hinv hp hties hrow hfailed
      · exact Or.inl hquiet
  | correctUnchecked p now =>
      dsimp only [World.act]
      split
      · rename_i c hp
        split
        · refine keepsFailure_commit hrow fun _ _ hok => Or.inl ?_
          exact keepsFailure_correctUnchecked hinv hp hrow hfailed hok
        · exact Or.inl hquiet
      · exact Or.inl hquiet
  | writeTraffic p =>
      dsimp only [World.act]
      split
      · rename_i c r hp
        exact Or.inl (keepsFailure_mark hrow (guarded_writeTraffic w.db c.setup r.earliest).1)
      · exact Or.inl hquiet
  | writeVerified p =>
      dsimp only [World.act]
      split
      · rename_i c r hp
        exact Or.inl (keepsFailure_mark hrow (guarded_writeVerified w.db c.setup r.earliest).1)
      · exact Or.inl hquiet
  | transition p next reason now =>
      dsimp only [World.act]
      split
      · rename_i c hp
        -- it may clear the failure, but only from a copy that has it
        refine keepsFailure_commit hrow fun db setup hok => Or.inr ?_
        have held : w.db.holds c.setup = true := by
          unfold transition at hok
          split_ifs at hok
          exact (casWrite_eq_ok hok).1
        exact .transition hp ((hinv.holds hp).of_held hrow held).2
      · exact Or.inl hquiet
  | recordRoutesCreated p created reEnabled =>
      dsimp only [World.act]
      split
      · exact keepsFailure_casWrite hrow rfl rfl rfl
      · exact Or.inl hquiet
  | recordApplied p summary rowid now =>
      dsimp only [World.act]
      split
      · exact keepsFailure_casWrite hrow rfl rfl rfl
      · exact Or.inl hquiet
  | clearArtifacts p =>
      dsimp only [World.act]
      split
      · exact keepsFailure_casWrite hrow rfl rfl rfl
      · exact Or.inl hquiet
  | upsert projectId state rowid now => exact Or.inr .upsert
  | delete => exact Or.inr .delete
  | setEvents events => exact Or.inl hquiet
  | setRoutes routes => exact Or.inl hquiet
  | setLinks links => exact Or.inl hquiet

/-! ## A tie -/

/-- `plainEnv` with a calendar that reads the two times at hand. -/
def clockEnv : TrackEnv :=
  { plainEnv with
    parse := fun t =>
      if t = "2026-07-24T11:58:00Z".toList then some 1784894280
      else if t = "2026-07-24T11:59:00Z".toList then some 1784894340
      else none }

/-- The applied setup, in need of attention since `at_`. -/
def failedSetup (at_ : Str) : TrackingSetup :=
  { appliedSetup with
    state := .needsAttention
    attentionReason := some "apply_failed:EnsureRoutes".toList
    attentionAt := some at_ }

def failedWorld (at_ : Str) : World where
  db := { observedDb with row := some (failedSetup at_) }
  minted := 2
  procs _ := .idle
  recorded := observedDb.events
  time := 0
  committedAt := 0

/-- A process has read the row and looked at the evidence. -/
def lookedWorld (at_ : Str) : World :=
  ((failedWorld at_).step clockEnv (.read 0)).step clockEnv (.look 0 noon)

theorem failedWorld_initial (at_ : Str) : (failedWorld at_).Initial := by
  refine ⟨fun _ => rfl, ?_, ?_, fun _ h => h, le_rfl⟩
  · intro row hrow
    obtain rfl := Option.some.inj hrow
    exact Nat.lt_succ_self 1
  · intro row hrow
    obtain rfl := Option.some.inj hrow
    rfl

theorem lookedWorld_reached (at_ : Str) :
    Steps (World.Next clockEnv) (failedWorld at_) (lookedWorld at_) :=
  .tail (.tail .refl ⟨.read 0, rfl⟩) ⟨.look 0 noon, rfl⟩

def earlier : Str := "2026-07-24T11:58:00Z".toList

def observedAt : Str := "2026-07-24T11:59:00Z".toList

/-- An observation a minute after the failure may clear it. -/
theorem failure_kept_or_cleared_newer :
    KeepsFailure (failedSetup earlier) ((lookedWorld earlier).step clockEnv (.correct 0 noon)).db ∨
      (lookedWorld earlier).Clears clockEnv (failedSetup earlier) (.correct 0 noon) := by
  refine failure_kept_or_cleared (failedWorld_initial earlier) (lookedWorld_reached earlier) ?_ rfl rfl
  rintro ⟨p, now, c, r, failed, seen, i, hop, hp, hfailed, hseen, hi, hi'⟩
  obtain ⟨rfl, rfl⟩ := Op.correct.inj hop
  have hlooked : (lookedWorld earlier).procs 0 = .looked ⟨failedSetup earlier, 0⟩
      (clockEnv.read (failedWorld earlier).db noon "2026-07-24T11:00:00Z".toList
        (failedSetup earlier)) := rfl
  obtain ⟨rfl, rfl⟩ := Local.looked.inj (hlooked.symm.trans hp)
  have hnewest : (clockEnv.read (failedWorld earlier).db noon "2026-07-24T11:00:00Z".toList
      (failedSetup earlier)).newest = some observedAt := by decide +kernel
  obtain rfl := Option.some.inj (hnewest.symm.trans hseen)
  obtain rfl : earlier = failed := Option.some.inj hfailed
  have hne : clockEnv.parse earlier ≠ clockEnv.parse observedAt := by decide
  exact hne (hi.trans hi'.symm)

/-- An observation at the failure's own instant clears it too. -/
theorem failure_cleared_at_tie :
    (failedWorld observedAt).Initial ∧
      Steps (World.Next clockEnv) (failedWorld observedAt) (lookedWorld observedAt) ∧
      (lookedWorld observedAt).db.row = some (failedSetup observedAt) ∧
      ¬ (KeepsFailure (failedSetup observedAt)
          ((lookedWorld observedAt).step clockEnv (.correct 0 noon)).db ∨
        (lookedWorld observedAt).Clears clockEnv (failedSetup observedAt) (.correct 0 noon)) := by
  refine ⟨failedWorld_initial observedAt, lookedWorld_reached observedAt, rfl, ?_⟩
  rintro (⟨row', hrow', -, hreason, -⟩ | hclears)
  · have hcleared : ((lookedWorld observedAt).step clockEnv (.correct 0 noon)).db.row.map
        TrackingSetup.attentionReason = some none := by decide +kernel
    rw [hrow', Option.map_some, hreason] at hcleared
    cases hcleared
  · cases hclears with
    | observed hp hcurrent hsame he hadmissible hstamp hi hj hlt =>
        have hall : ∀ e ∈ (lookedWorld observedAt).recorded, e.at_ = observedAt := by decide
        obtain rfl := Option.some.inj hstamp
        rw [hall _ he] at hj
        obtain rfl := Option.some.inj (hi.symm.trans hj)
        exact lt_irrefl _ hlt

end Tethra.Tracking
