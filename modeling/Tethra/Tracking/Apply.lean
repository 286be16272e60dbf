import Tethra.Tracking.Setup
import Tethra.Lib.Runs

set_option autoImplicit false

/-! # Which routes an apply created (`tracking/src/apply.rs`)

An apply opens a new session, which clears the record of the routes that earlier attempts created, and
writes the record again once its own routes exist. The record is true of every sequence of attempts that
do not stop in between while there is something to record (`attempts_listed`). -/

namespace Tethra.Tracking

open Runs

/-- The functions outside: the provider's name as it is stored, and the host of an origin. -/
structure RouteEnv where
  normalize : Str → Str
  originHost : Str → Str

inductive RouteAction where
  | createManifestRoute (routePrefix providerId : Str)
  | createCustomRoute (routePrefix providerId origin : Str)
  | reuseRoute (routePrefix providerId : Str)
  | reEnableRoute (routePrefix providerId : Str)
  deriving DecidableEq, Repr

/-- The row that an action creates. -/
def RouteAction.creates (env : RouteEnv) : RouteAction → Option RouteRow
  | .createManifestRoute routePrefix providerId =>
      some ⟨routePrefix, env.normalize providerId, none, true⟩
  | .createCustomRoute routePrefix providerId origin =>
      some ⟨routePrefix, env.normalize providerId, some (env.originHost origin), true⟩
  | .reuseRoute _ _ => none
  | .reEnableRoute _ _ => none

def RouteAction.providerId : RouteAction → Str
  | .createManifestRoute _ providerId => providerId
  | .createCustomRoute _ providerId _ => providerId
  | .reuseRoute _ providerId => providerId
  | .reEnableRoute _ providerId => providerId

def TrackDb.hasRoute (db : TrackDb) (routePrefix : Str) : Bool :=
  db.routes.any (·.routePrefix = routePrefix)

/-- Where the route loop is: the table, and what was done so far. -/
structure RouteRun where
  routes : List RouteRow
  created : List Str
  reused : List Str
  reEnabled : List Str

def RouteRun.hasRoute (run : RouteRun) (routePrefix : Str) : Bool :=
  run.routes.any (·.routePrefix = routePrefix)

/-- `INSERT OR IGNORE`: a route that exists is a reuse. -/
def RouteRun.insert (run : RouteRun) (row : RouteRow) : RouteRun :=
  if run.hasRoute row.routePrefix then { run with reused := run.reused ++ [row.routePrefix] }
  else
    { run with
      routes := run.routes ++ [row]
      created := run.created ++ [row.routePrefix] }

/-- One action of the plan. -/
def RouteRun.act (env : RouteEnv) (run : RouteRun) : RouteAction → RouteRun
  | .createManifestRoute routePrefix providerId =>
      run.insert ⟨routePrefix, env.normalize providerId, none, true⟩
  | .createCustomRoute routePrefix providerId origin =>
      run.insert ⟨routePrefix, env.normalize providerId, some (env.originHost origin), true⟩
  | .reuseRoute routePrefix _ => { run with reused := run.reused ++ [routePrefix] }
  | .reEnableRoute routePrefix _ =>
      { run with
        routes := run.routes.map fun r =>
          if r.routePrefix = routePrefix then { r with enabled := true } else r
        reEnabled := run.reEnabled ++ [routePrefix] }

def RouteRun.run (env : RouteEnv) (run : RouteRun) (actions : List RouteAction) : RouteRun :=
  actions.foldl (RouteRun.act env) run

/-- The prefixes of `xs`, and those of `ys` that are not in it yet. -/
def carryOver (xs ys : List Str) : List Str :=
  ys.foldl (fun out routePrefix => if routePrefix ∈ out then out else out ++ [routePrefix]) xs

/-- Where an attempt fails, if it does. -/
inductive Stop where
  /-- the project, or the row's upsert -/
  | beforeUpsert
  /-- the port, or the service -/
  | beforeRoutes
  /-- the action after the first `done`; its row may have been inserted all the same -/
  | inRoutes (done : Nat) (inserted : Bool)
  /-- `record_routes_created` -/
  | atRecord
  /-- a step after it, down to `record_applied` -/
  | afterRecord
  | never
  deriving DecidableEq

/-- One attempt: its plan, where it fails, and whether the row's record could be read before (the code goes
    on without it). -/
structure Attempt where
  projectId : Str
  plan : List RouteAction
  details : PlanSummary
  priorReadable : Bool
  stop : Stop
  failure : Str
  id : Nat
  rowid : Nat
  appliedRowid : Nat
  endState : TrackingState
  now : Str

/-- A failed step is put on the row, if its state allows it. -/
def failAttempt (db : TrackDb) (failure now : Str) : TrackDb :=
  match db.row with
  | none => db
  | some row =>
      match transition db row .needsAttention (some failure) now with
      | .ok (db, _) => db
      | .error _ => db

/-- What the earlier attempts recorded. -/
def Attempt.prior (a : Attempt) (db : TrackDb) : PlanSummary :=
  if a.priorReadable then (db.row.map planSummaryOf).getD .empty else .empty

/-- The route actions that were carried out. -/
def Attempt.done (a : Attempt) : List RouteAction :=
  match a.stop with
  | .beforeUpsert | .beforeRoutes => []
  | .inRoutes done inserted => a.plan.take (if inserted then done + 1 else done)
  | .atRecord | .afterRecord | .never => a.plan

/-- What the route loop did. -/
def Attempt.routeRun (env : RouteEnv) (a : Attempt) (db : TrackDb) : RouteRun :=
  RouteRun.run env ⟨db.routes, [], [], []⟩ a.done

/-- The steps after the route loop, on the row that this attempt opened. -/
def Attempt.record (a : Attempt) (db : TrackDb) (setup : TrackingSetup) (run : RouteRun)
    (prior : PlanSummary) : TrackDb :=
  let created := carryOver run.created prior.createdRoutes
  let reEnabled := carryOver run.reEnabled (prior.reEnabledRoutes.filter (· ∉ created))
  match recordRoutesCreated db setup created reEnabled with
  | .error _ => failAttempt db a.failure a.now
  | .ok (db, setup) =>
      if a.stop = .never then
        let summary := { a.details with
          providers := a.plan.map RouteAction.providerId
          createdRoutes := created
          reusedRoutes := run.reused.filter (· ∉ created)
          reEnabledRoutes := reEnabled }
        match recordApplied db setup summary a.appliedRowid a.now with
        | .error _ => failAttempt db a.failure a.now
        | .ok (db, setup) =>
            match transition db setup a.endState none a.now with
            | .error _ => failAttempt db a.failure a.now
            | .ok (db, _) => db
      else failAttempt db a.failure a.now

def Attempt.apply (env : RouteEnv) (a : Attempt) (db : TrackDb) : TrackDb :=
  if a.stop = .beforeUpsert then db
  else
    let opened := upsertSetup db a.projectId .applying a.id a.id a.rowid a.now
    let run := a.routeRun env db
    let routed := { opened with routes := run.routes }
    match opened.row with
    | none => routed
    | some setup =>
        if a.stop = .afterRecord ∨ a.stop = .never then a.record routed setup run (a.prior db)
        else failAttempt routed a.failure a.now

/-! ## Sequences of attempts -/

/-- The database, with the routes that an attempt created and that nobody has removed since. -/
structure Provenance where
  db : TrackDb
  created : List Str

/-- An attempt, or a change of the routes by others. -/
inductive Provenance.Op where
  | attempt (a : Attempt)
  | addRoute (row : RouteRow)
  | removeRoute (routePrefix : Str)

def Provenance.step (env : RouteEnv) (w : Provenance) : Provenance.Op → Provenance
  | .attempt a => ⟨a.apply env w.db, w.created ++ (a.routeRun env w.db).created⟩
  | .addRoute row =>
      if w.db.hasRoute row.routePrefix then w
      else { w with db := { w.db with routes := w.db.routes ++ [row] } }
  | .removeRoute routePrefix =>
      { db := { w.db with routes := w.db.routes.filter (·.routePrefix ≠ routePrefix) }
        created := w.created.filter (· ≠ routePrefix) }

/-- Each route that an attempt created is on the setup's record. -/
def Provenance.Listed (w : Provenance) : Prop :=
  ∀ routePrefix ∈ w.created, ∃ row summary, w.db.row = some row ∧ row.planSummary = some summary ∧
    routePrefix ∈ summary.createdRoutes

/-- An attempt that stops between its upsert and its record has nothing to record: no route that an attempt
    created is left, and the actions that it carried out created none. One that gets to its record could
    read the last one. -/
def Provenance.Sound (env : RouteEnv) (w : Provenance) : Provenance.Op → Prop
  | .attempt a =>
      match a.stop with
      | .beforeUpsert => True
      | .beforeRoutes | .inRoutes _ _ | .atRecord =>
          w.created = [] ∧ ∀ action ∈ a.done, ∀ row, action.creates env = some row →
            w.db.hasRoute row.routePrefix = true
      | .afterRecord | .never => a.priorReadable = true ∨ w.created = []
  | _ => True

def Provenance.Next (env : RouteEnv) (w w' : Provenance) : Prop := ∃ op, w' = w.step env op

def Provenance.NextSound (env : RouteEnv) (w w' : Provenance) : Prop :=
  ∃ op, w.Sound env op ∧ w' = w.step env op

/-! ## The parts of an attempt -/

variable {env : RouteEnv}

theorem mem_carryOver {xs ys : List Str} {p : Str} : p ∈ carryOver xs ys ↔ p ∈ xs ∨ p ∈ ys := by
  unfold carryOver
  induction ys generalizing xs with
  | nil => simp
  | cons y ys ih =>
      rw [List.foldl_cons, ih, List.mem_cons]
      split_ifs with hy
      · constructor
        · rintro (h | h)
          · exact Or.inl h
          · exact Or.inr (Or.inr h)
        · rintro (h | rfl | h)
          · exact Or.inl h
          · exact Or.inl hy
          · exact Or.inr h
      · rw [List.mem_append, List.mem_singleton, or_assoc]

theorem hasRoute_act (run : RouteRun) (action : RouteAction) {p : Str} (h : run.hasRoute p = true) :
    (run.act env action).hasRoute p = true := by
  have hinsert : ∀ row, (run.insert row).hasRoute p = true := by
    intro row
    unfold RouteRun.insert
    split_ifs
    · exact h
    · unfold RouteRun.hasRoute at h ⊢
      rw [List.any_append, h, Bool.true_or]
  cases action with
  | createManifestRoute routePrefix providerId => exact hinsert _
  | createCustomRoute routePrefix providerId origin => exact hinsert _
  | reuseRoute routePrefix providerId => exact h
  | reEnableRoute routePrefix providerId =>
      unfold RouteRun.hasRoute at h ⊢
      obtain ⟨r, hr, hname⟩ := List.any_eq_true.1 h
      refine List.any_eq_true.2 ⟨_, List.mem_map.2 ⟨r, hr, rfl⟩, ?_⟩
      split_ifs
      · exact hname
      · exact hname

/-- An action creates nothing where its route exists. -/
theorem created_act {run : RouteRun} {action : RouteAction}
    (h : ∀ row, action.creates env = some row → run.hasRoute row.routePrefix = true) :
    (run.act env action).created = run.created := by
  have hinsert : ∀ row, action.creates env = some row → (run.insert row).created = run.created := by
    intro row hrow
    unfold RouteRun.insert
    rw [if_pos (h row hrow)]
  cases action with
  | createManifestRoute routePrefix providerId => exact hinsert _ rfl
  | createCustomRoute routePrefix providerId origin => exact hinsert _ rfl
  | reuseRoute routePrefix providerId => rfl
  | reEnableRoute routePrefix providerId => rfl

theorem created_run {actions : List RouteAction} {run : RouteRun}
    (h : ∀ action ∈ actions, ∀ row, action.creates env = some row →
      run.hasRoute row.routePrefix = true) :
    (run.run env actions).created = run.created := by
  unfold RouteRun.run
  induction actions generalizing run with
  | nil => rfl
  | cons action actions ih =>
      rw [List.foldl_cons, ih, created_act (h action (List.mem_cons_self ..))]
      intro next hnext row hrow
      exact hasRoute_act run action (h next (List.mem_cons_of_mem _ hnext) row hrow)

theorem casWrite_self {db : TrackDb} {setup : TrackingSetup} (hrow : db.row = some setup)
    (write : TrackingSetup → TrackingSetup) :
    db.casWrite setup write = .ok ({ db with row := some (write setup) }, write setup) := by
  have held : db.holds setup = true := by
    unfold TrackDb.holds
    rw [hrow]
    simp
  unfold TrackDb.casWrite
  rw [if_pos held, hrow, Option.map_some]

/-- A row with this plan summary is stored. -/
def TrackDb.Records (db : TrackDb) (created : List Str) : Prop :=
  ∃ row summary, db.row = some row ∧ row.planSummary = some summary ∧ summary.createdRoutes = created

/-- Putting a failure on the row leaves its record. -/
theorem records_transition {db db' : TrackDb} {setup setup' : TrackingSetup} {next : TrackingState}
    {reason : Option Str} {now : Str} {created : List Str} (hrow : db.row = some setup)
    (h : db.Records created) (hok : transition db setup next reason now = .ok (db', setup')) :
    db'.Records created := by
  obtain ⟨row, summary, hrow', hsummary, hcreated⟩ := h
  obtain rfl := Option.some.inj (hrow.symm.trans hrow')
  unfold transition casWriteHealth at hok
  rw [casWrite_self hrow] at hok
  split_ifs at hok
  obtain ⟨rfl, -⟩ := Prod.mk.inj (Except.ok.inj hok)
  exact ⟨_, summary, rfl, hsummary, hcreated⟩

theorem records_failAttempt {db : TrackDb} {created : List Str} (h : db.Records created)
    (failure now : Str) : (failAttempt db failure now).Records created := by
  obtain ⟨row, summary, hrow, hsummary, hcreated⟩ := h
  have hrecords : db.Records created := ⟨row, summary, hrow, hsummary, hcreated⟩
  unfold failAttempt
  rw [hrow]
  dsimp only
  split
  · rename_i hok
    exact records_transition hrow hrecords hok
  · exact hrecords

/-- Once the row is opened and the routes exist, all that follows leaves them on the record. -/
theorem records_record {a : Attempt} {db : TrackDb} {setup : TrackingSetup} (hrow : db.row = some setup)
    (run : RouteRun) (prior : PlanSummary) :
    (a.record db setup run prior).Records (carryOver run.created prior.createdRoutes) := by
  unfold Attempt.record recordRoutesCreated casWriteSummary
  dsimp only
  rw [casWrite_self hrow]
  dsimp only
  split_ifs
  · unfold recordApplied casWriteSummary
    rw [casWrite_self rfl]
    dsimp only
    split
    · refine records_failAttempt ?_ _ _
      exact ⟨_, _, rfl, rfl, rfl⟩
    · rename_i hok
      refine records_transition rfl ?_ hok
      exact ⟨_, _, rfl, rfl, rfl⟩
  · refine records_failAttempt ?_ _ _
    exact ⟨_, _, rfl, rfl, rfl⟩

theorem row_upsertSetup (db : TrackDb) (projectId : Str) (state : TrackingState)
    (id session rowid : Nat) (now : Str) :
    ∃ row, (upsertSetup db projectId state id session rowid now).row = some row := by
  unfold upsertSetup
  split
  · exact ⟨_, rfl⟩
  · exact ⟨_, rfl⟩

/-! ## Every attempt -/

/-- An attempt that gets to its record leaves there what it created and what was there before. -/
theorem records_apply {a : Attempt} {db : TrackDb} (hstop : a.stop = .afterRecord ∨ a.stop = .never) :
    (a.apply env db).Records
      (carryOver (a.routeRun env db).created (a.prior db).createdRoutes) := by
  obtain ⟨setup, hrow⟩ := row_upsertSetup db a.projectId .applying a.id a.id a.rowid a.now
  have hopened : a.stop ≠ .beforeUpsert := by
    rintro heq
    rw [heq] at hstop
    rcases hstop with hstop | hstop <;> cases hstop
  unfold Attempt.apply
  rw [if_neg hopened]
  dsimp only
  rw [hrow]
  dsimp only
  rw [if_pos hstop]
  exact records_record rfl _ _

theorem mem_prior {a : Attempt} {w : Provenance} (h : w.Listed) (hreadable : a.priorReadable = true)
    {p : Str} (hp : p ∈ w.created) : p ∈ (a.prior w.db).createdRoutes := by
  obtain ⟨row, summary, hrow, hsummary, hlisted⟩ := h p hp
  unfold Attempt.prior planSummaryOf
  rw [if_pos hreadable, hrow, Option.map_some, Option.getD_some, hsummary]
  exact hlisted

theorem listed_attempt {w : Provenance} (h : w.Listed) {a : Attempt}
    (hsound : w.Sound env (.attempt a)) : (w.step env (.attempt a)).Listed := by
  -- nothing created before, nothing created now: there is nothing to list
  have hnothing : (w.created = [] ∧ ∀ action ∈ a.done, ∀ row, action.creates env = some row →
      w.db.hasRoute row.routePrefix = true) → (w.step env (.attempt a)).Listed := by
    rintro ⟨hnone, hexist⟩ p hp
    have hrun : (a.routeRun env w.db).created = [] := created_run hexist
    change p ∈ w.created ++ (a.routeRun env w.db).created at hp
    rw [hnone, hrun] at hp
    cases hp
  have hrecord : a.stop = .afterRecord ∨ a.stop = .never → (a.priorReadable = true ∨ w.created = []) →
      (w.step env (.attempt a)).Listed := by
    intro hstop hprior p hp
    obtain ⟨row, summary, hrow, hsummary, hcreated⟩ := @records_apply env a w.db hstop
    refine ⟨row, summary, hrow, hsummary, ?_⟩
    rw [hcreated, mem_carryOver]
    rcases List.mem_append.1 hp with hold | hnew
    · refine Or.inr ?_
      rcases hprior with hreadable | hnone
      · exact mem_prior h hreadable hold
      · rw [hnone] at hold
        cases hold
    · exact Or.inl hnew
  unfold Provenance.Sound at hsound
  dsimp only at hsound
  cases hstop : a.stop with
  | beforeUpsert =>
      intro p hp
      have hdone : a.done = [] := by
        unfold Attempt.done
        rw [hstop]
      change p ∈ w.created ++ (RouteRun.run env ⟨w.db.routes, [], [], []⟩ a.done).created at hp
      rw [hdone, RouteRun.run, List.foldl_nil, List.append_nil] at hp
      have hdb : a.apply env w.db = w.db := by
        unfold Attempt.apply
        rw [if_pos hstop]
      change ∃ row summary, (a.apply env w.db).row = some row ∧ _
      rw [hdb]
      exact h p hp
  | beforeRoutes =>
      rw [hstop] at hsound
      exact hnothing hsound
  | inRoutes done inserted =>
      rw [hstop] at hsound
      exact hnothing hsound
  | atRecord =>
      rw [hstop] at hsound
      exact hnothing hsound
  | afterRecord =>
      rw [hstop] at hsound
      exact hrecord (Or.inl hstop) hsound
  | never =>
      rw [hstop] at hsound
      exact hrecord (Or.inr hstop) hsound

theorem listed_step {w : Provenance} (h : w.Listed) {op : Provenance.Op} (hsound : w.Sound env op) :
    (w.step env op).Listed := by
  cases op with
  | attempt a => exact listed_attempt h hsound
  | addRoute row =>
      unfold Provenance.step
      dsimp only
      split_ifs
      · exact h
      · exact h
  | removeRoute routePrefix =>
      intro p hp
      exact h p (List.mem_filter.1 hp).1

/-- In every sequence of attempts, with changes of the routes by others in between: while no attempt stops
    between its upsert and its record with something to record, or goes on without a record that it
    could not read, each route that an attempt created and that still exists is on the record. -/
theorem attempts_listed {w w' : Provenance} (h : w.Listed)
    (hrun : Steps (Provenance.NextSound env) w w') : w'.Listed := by
  refine Steps.invariant (I := Provenance.Listed) ?_ h hrun
  rintro s t hs ⟨op, hsound, rfl⟩
  exact listed_step hs hsound

/-! ## A retry -/

def plainRoutes : RouteEnv := ⟨id, id⟩

def nothingYet : Provenance := ⟨⟨none, [], [], []⟩, []⟩

/-- An attempt at a plan that creates one route. -/
def createOpenai (stop : Stop) : Attempt where
  projectId := "p1".toList
  plan := [.createManifestRoute "openai".toList "openai".toList]
  details := .empty
  priorReadable := true
  stop
  failure := "apply_failed".toList
  id := 1
  rowid := 0
  appliedRowid := 0
  endState := .awaitingRestart
  now := "2026-07-24T11:00:00Z".toList

theorem nothingYet_listed : nothingYet.Listed := nofun

/-- A second attempt that fails after its record still lists the route of the first. -/
theorem attempts_listed_retry :
    ((nothingYet.step plainRoutes (.attempt (createOpenai .never))).step plainRoutes
      (.attempt (createOpenai .afterRecord))).Listed :=
  attempts_listed nothingYet_listed
    (.tail (.tail .refl ⟨.attempt (createOpenai .never), Or.inl rfl, rfl⟩)
      ⟨.attempt (createOpenai .afterRecord), Or.inl rfl, rfl⟩)

/-- A second attempt that fails at the service leaves the route of the first off the record. -/
theorem unlisted_after_retry :
    nothingYet.Listed ∧ ∃ w, Steps (Provenance.Next plainRoutes) nothingYet w ∧
      w.db.hasRoute "openai".toList = true ∧ ¬ w.Listed := by
  refine ⟨nothingYet_listed, (nothingYet.step plainRoutes (.attempt (createOpenai .never))).step
    plainRoutes (.attempt (createOpenai .beforeRoutes)), ?_, by decide, ?_⟩
  · exact .tail (.tail .refl ⟨.attempt (createOpenai .never), rfl⟩)
      ⟨.attempt (createOpenai .beforeRoutes), rfl⟩
  · intro h
    have hcreated : "openai".toList ∈ ((nothingYet.step plainRoutes
        (.attempt (createOpenai .never))).step plainRoutes
          (.attempt (createOpenai .beforeRoutes))).created := by decide
    obtain ⟨row, summary, hrow, hsummary, -⟩ := h _ hcreated
    have hnone : ((nothingYet.step plainRoutes (.attempt (createOpenai .never))).step plainRoutes
        (.attempt (createOpenai .beforeRoutes))).db.row.map TrackingSetup.planSummary
          = some none := by decide
    rw [hrow, Option.map_some, hsummary] at hnone
    cases hnone

end Tethra.Tracking
