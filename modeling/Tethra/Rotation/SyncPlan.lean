import Tethra.Rotation.Programs

set_option autoImplicit false

/-! # Synchronization plans (`core/src/syncplan.rs`, `core/src/vault.rs`)

The steps of a plan, how they are executed, and how they are rolled back, with the answers that the
destinations, the files and the statements of the database give at each step. Beside a step stands what
the plan last wrote at its destination. -/

namespace Tethra.SyncPlans

inductive Action where
  | write
  | reexport
  | none
  | manual
  deriving DecidableEq

inductive Status where
  | planned
  | executed
  | failed
  | skipped
  | rolledBack
  deriving DecidableEq

structure StoredStep where
  destinationId : Str
  secretName : Str
  action : Action
  status : Status
  detail : Str
  /-- The version of the value that the plan last wrote at the destination under a name. -/
  holds : Str → Option Int

inductive PlanStatus where
  | planned
  | executed
  | partiallyFailed
  | rolledBack
  | stale
  deriving DecidableEq

def PlanStatus.name : PlanStatus → Str
  | .planned => "planned".toList
  | .executed => "executed".toList
  | .partiallyFailed => "partially_failed".toList
  | .rolledBack => "rolled_back".toList
  | .stale => "stale".toList

structure StoredPlan where
  id : Str
  credentialId : Str
  /-- The retained version that a rollback restores. -/
  fromVersion : Option Int
  /-- The version that the plan deploys. -/
  toVersion : Int
  status : PlanStatus
  steps : List StoredStep

/-- A version of the value is written under names of the destination. -/
def StoredStep.put (s : StoredStep) (names : List Str) (v : Int) : StoredStep :=
  { s with holds := fun name => if name ∈ names then some v else s.holds name }

/-! ## Answers -/

/-- What a re-export finds at the recorded file. -/
structure RewriteAnswers where
  /-- The path of the export, unless its record is gone. -/
  exportRow : Except CoreError (Option Str)
  pathExists : Bool
  /-- The variables that the file sets, and whether its hash is the recorded one. -/
  content : Except CoreError (List Str × Bool)
  mappedVars : Except CoreError (List Str)
  atomicWrite : Except CoreError Unit
  updateHash : Except CoreError Unit

/-- What one step finds. -/
structure StepAnswers where
  getDestination : Except CoreError Unit
  destinationAdapter : Except CoreError Unit
  /-- The receipt of the write. -/
  write : Except CoreError Str
  /-- What is read back under the name. -/
  read : Except CoreError (Option Str)
  /-- Whether the fingerprint of what is read back is that of the credential. -/
  fingerprint : Except CoreError Bool
  existsName : Except CoreError (Option Bool)
  recordSync : Except CoreError Unit
  markStepVerified : Except CoreError Unit
  rewrite : RewriteAnswers
  updateStep : Except CoreError Unit

/-- How a step fails. -/
inductive StepError where
  | core (e : CoreError)
  | provider (message : Str)

def StepError.text (showError : CoreError → Str) : StepError → Str
  | .core e => showError e
  | .provider message => "provider request failed: ".toList ++ message

def exportId (s : StoredStep) : Option Str :=
  if "env_export:".toList <+: s.destinationId then some (s.destinationId.drop 11) else none

/-! ## Writing at a destination -/

/-- The variables that a re-export sets: the mapped ones that are in the file. -/
def RewriteAnswers.vars (a : RewriteAnswers) : List Str :=
  match a.content, a.mappedVars with
  | .ok (present, _), .ok mapped => mapped.filter fun v => v ∈ present
  | _, _ => []

/-- The checks of a re-export before it writes the file. -/
def RewriteAnswers.check (a : RewriteAnswers) (id : Str) : Except CoreError Str := do
  match ← a.exportRow with
  | .none => throw (.notFound "export" id)
  | some path =>
      if !a.pathExists then
        throw (.invalidInput (path ++ " no longer exists; clean up the export record".toList))
      else do
        let (_, unchanged) ← a.content
        if !unchanged then
          throw (.invalidInput (path ++ (" changed since it was exported; refusing to rewrite it — "
            ++ "re-export explicitly (`env export --overwrite`) if intended").toList))
        else do
          let _ ← a.mappedVars
          a.atomicWrite
          return path

/-- Write the value into the exported file; the file is written before its hash is recorded. -/
def rewriteExport (a : RewriteAnswers) (id : Str) (v : Int) (s : StoredStep) :
    Except CoreError Str × StoredStep :=
  match a.check id with
  | .error e => (.error e, s)
  | .ok path =>
      (a.updateHash.map fun _ =>
        "re-exported ".toList ++ Rotations.nat a.vars.length ++ " variable(s) into ".toList ++ path,
       s.put a.vars v)

/-- The write of a destination, from its lookup to the receipt. -/
def StepAnswers.receipt (a : StepAnswers) : Except CoreError Str := do
  a.getDestination
  a.destinationAdapter
  a.write

/-! ## Executing -/

inductive Drift where
  | inSync
  | drifted
  | presentUnverifiable
  | missing
  | unknown
  deriving DecidableEq

/-- What is known of the destination behind the write. -/
def StepAnswers.drift (a : StepAnswers) : Except CoreError Drift :=
  match a.read with
  | .ok (some (_ :: _)) => a.fingerprint.map fun same => if same then .inSync else .drifted
  | .ok _ =>
      match a.existsName with
      | .ok (some true) => .ok .presentUnverifiable
      | .ok (some false) => .ok .missing
      | _ => .ok .unknown
  | .error _ => .ok .unknown

/-- A step is verified only when the verification succeeded. -/
def verified (a : StepAnswers) (receipt name : Str) : Drift → Except StepError Str
  | .inSync => (a.markStepVerified.mapError StepError.core).map fun _ =>
      receipt ++ "; verification: in_sync".toList
  | .presentUnverifiable => (a.markStepVerified.mapError StepError.core).map fun _ =>
      receipt ++ "; verification: present_unverifiable".toList
  | .drifted => .error (.provider ("wrote '".toList ++ name
      ++ "' but the read-back value does not match".toList))
  | .missing => .error (.provider ("wrote '".toList ++ name
      ++ "' but the destination now reports it absent; the write did not verify".toList))
  | .unknown => .error (.provider ("wrote '".toList ++ name
      ++ ("' but verification could not be completed; the destination's state is UNKNOWN, "
        ++ "not verified").toList))

def executeStep (a : StepAnswers) (toVersion : Int) (s : StoredStep) :
    Except StepError Str × StoredStep :=
  match s.action with
  | .none => (.ok "no write needed; mappings resolve the current value".toList, s)
  | .manual =>
      (.error (.core (.unsupported s.destinationId "write"
        "this step must be performed by hand".toList)), s)
  | .reexport =>
      match exportId s with
      | .none => (.error (.core (.vaultCorrupted "malformed re-export step")), s)
      | some id =>
          let (r, s) := rewriteExport a.rewrite id toVersion s
          (r.mapError StepError.core, s)
  | .write =>
      match a.receipt with
      | .error e => (.error (.core e), s)
      | .ok receipt =>
          -- Whatever the verification says, the value was written.
          let s := s.put [s.secretName] toVersion
          let outcome : Except StepError Str := do
            let drift ← a.drift.mapError StepError.core
            a.recordSync.mapError StepError.core
            verified a receipt s.secretName drift
          (outcome, s)

/-- The status that a step is left with, unless the statement fails. -/
def updateStep (a : StepAnswers) (status : Status) (detail : Str) (s : StoredStep) :
    Except CoreError Unit × StoredStep :=
  match a.updateStep with
  | .ok _ => (.ok (), { s with status, detail })
  | .error e => (.error e, s)

/-- Execute a step that is planned or failed. -/
def runStep (showError : CoreError → Str) (a : StepAnswers) (toVersion : Int) (s : StoredStep) :
    Except CoreError Unit × StoredStep :=
  if s.status ≠ .planned ∧ s.status ≠ .failed then (.ok (), s)
  else if s.action = .manual then
    updateStep a .skipped
      "manual step — perform it by hand, then verify with `destination drift`".toList s
  else
    match executeStep a toVersion s with
    | (.ok detail, s) => updateStep a .executed detail s
    | (.error e, s) => updateStep a .failed (e.text showError) s

/-- The loop over the steps ends with the first error of a statement. -/
def forSteps {α : Type} (f : Nat → α → StoredStep → Except CoreError α × StoredStep) :
    Nat → α → List StoredStep → Except CoreError α × List StoredStep
  | _, x, [] => (.ok x, [])
  | i, x, s :: rest =>
      match f i x s with
      | (.error e, s') => (.error e, s' :: rest)
      | (.ok y, s') =>
          let (r, rest') := forSteps f (i + 1) y rest
          (r, s' :: rest')

/-- What an execution or a rollback finds. -/
structure PlanAnswers where
  verifyMasterPassword : Except CoreError Unit
  loadPlan : Except CoreError Unit
  valueVersionOf : Except CoreError Int
  decryptCredentialVersion : Except CoreError Unit
  credentialRow : Except CoreError Bool
  step : Nat → StepAnswers
  updatePlanStatus : Except CoreError Unit
  audit : Except CoreError Unit
  syncPlanGet : Except CoreError Unit

def credentialFound (a : PlanAnswers) (plan : StoredPlan) : Except CoreError Unit := do
  let found ← a.credentialRow
  if found then return () else throw (.notFound "credential" plan.credentialId)

def statusOf (steps : List StoredStep) : PlanStatus :=
  if steps.any fun s => s.status = .failed then .partiallyFailed
  else if steps.all fun s => s.status = .executed ∨ s.status = .skipped then .executed
  else .planned

/-- What follows the steps, with the status that the plan is left with. -/
def closePlan (a : PlanAnswers) (status : PlanStatus) (plan : StoredPlan) :
    Except CoreError PlanStatus × StoredPlan :=
  match a.updatePlanStatus with
  | .error e => (.error e, plan)
  | .ok _ => (do
      a.audit
      a.syncPlanGet
      return status, { plan with status })

def syncPlanExecute (showError : CoreError → Str) (a : PlanAnswers) (plan : StoredPlan) :
    Except CoreError PlanStatus × StoredPlan :=
  let start : Except CoreError Int := do
    a.verifyMasterPassword
    a.loadPlan
    a.valueVersionOf
  match start with
  | .error e => (.error e, plan)
  | .ok current =>
      if current ≠ plan.toVersion then
        match a.updatePlanStatus with
        | .error e => (.error e, plan)
        | .ok _ =>
            (.error (.invalidInput ("the credential changed since this plan was created (now v".toList
              ++ Rotations.version current ++ ", plan targets v".toList
              ++ Rotations.version plan.toVersion ++ "); generate a new plan".toList)),
             { plan with status := .stale })
      else
        match (a.decryptCredentialVersion >>= fun _ => credentialFound a plan) with
        | .error e => (.error e, plan)
        | .ok _ =>
            match forSteps (fun i _ s => runStep showError (a.step i) plan.toVersion s) 0 ()
                plan.steps with
            | (.error e, steps) => (.error e, { plan with steps })
            | (.ok _, steps) => closePlan a (statusOf steps) { plan with steps }

/-! ## Rolling back -/

/-- The step is marked; whether it counts as rolled back. -/
def markStep (a : StepAnswers) (status : Status) (detail : Str) (counts : Bool) (s : StoredStep) :
    Except CoreError Bool × StoredStep :=
  let (r, s) := updateStep a status detail s
  (r.map fun _ => counts, s)

def rollbackStep (showError : CoreError → Str) (a : StepAnswers) (fromVersion : Int) (any : Bool)
    (s : StoredStep) : Except CoreError Bool × StoredStep :=
  let back := fun detail => "rolled back to v".toList ++ Rotations.version fromVersion ++ ": ".toList
    ++ detail
  if s.status ≠ .executed then (.ok any, s)
  else
    match s.action with
    | .write =>
        -- An error of the write ends the loop.
        match a.receipt with
        | .error e => (.error e, s)
        | .ok receipt =>
            let s := s.put [s.secretName] fromVersion
            match a.recordSync with
            | .error e => (.error e, s)
            | .ok _ => markStep a .rolledBack (back receipt) true s
    | .reexport =>
        match exportId s with
        | .none => (.error (.vaultCorrupted "malformed re-export step"), s)
        | some id =>
            match rewriteExport a.rewrite id fromVersion s with
            | (.ok detail, s) => markStep a .rolledBack (back detail) true s
            | (.error e, s) => markStep a .failed ("rollback failed: ".toList ++ showError e) any s
    | _ => markStep a .rolledBack (back "nothing to roll back".toList) true s

def syncPlanRollback (showError : CoreError → Str) (a : PlanAnswers) (plan : StoredPlan) :
    Except CoreError PlanStatus × StoredPlan :=
  let start : Except CoreError Unit := do
    a.verifyMasterPassword
    a.loadPlan
  match start, plan.fromVersion with
  | .error e, _ => (.error e, plan)
  | .ok _, .none =>
      (.error (.invalidInput "this plan has no previous version to roll back to".toList), plan)
  | .ok _, some fromVersion =>
      match (a.decryptCredentialVersion >>= fun _ => credentialFound a plan) with
      | .error e => (.error e, plan)
      | .ok _ =>
          match forSteps (fun i any s => rollbackStep showError (a.step i) fromVersion any s) 0 false
              plan.steps with
          | (.error e, steps) => (.error e, { plan with steps })
          | (.ok any, steps) =>
              if !any then
                (.error (.invalidInput ("no executed step matched — nothing was rolled back (check "
                  ++ "the --destination filter and step statuses)").toList), { plan with steps })
              else closePlan a .rolledBack { plan with steps }

/-! ## What a rollback writes back -/

/-- What a step holds under a name of the new value is restored by its rollback. -/
def StoredStep.Restorable (a : StepAnswers) (fromVersion old : Int) (s : StoredStep) (name : Str) :
    Prop :=
  s.status = .executed ∧ fromVersion = old ∧
    match s.action with
    | .write => name = s.secretName
    | .reexport => ∃ id path, exportId s = some id ∧ a.rewrite.check id = .ok path ∧
        name ∈ a.rewrite.vars
    | _ => False

theorem updateStep_holds {a : StepAnswers} {status : Status} {detail : Str} {s : StoredStep} :
    (updateStep a status detail s).2.holds = s.holds := by
  unfold updateStep
  split
  · rfl
  · rfl

theorem markStep_holds {a : StepAnswers} {status : Status} {detail : Str} {counts : Bool}
    {s : StoredStep} : (markStep a status detail counts s).2.holds = s.holds :=
  updateStep_holds

theorem put_eq_some {s : StoredStep} {names : List Str} {new fromVersion old : Int} {name : Str}
    (hto : s.holds name = some new) (hne : new ≠ old) :
    (s.put names fromVersion).holds name = some old ↔ fromVersion = old ∧ name ∈ names := by
  show (if name ∈ names then some fromVersion else s.holds name) = some old ↔ _
  by_cases hmem : name ∈ names
  · rw [if_pos hmem]
    exact ⟨fun h => ⟨Option.some.inj h, hmem⟩, fun h => congrArg some h.1⟩
  · rw [if_neg hmem, hto]
    exact ⟨fun h => absurd (Option.some.inj h) hne, fun h => absurd h.2 hmem⟩

/-- A step that is gone through is restored under a name exactly when it is restorable. -/
theorem rollbackStep_holds {showError : CoreError → Str} {a : StepAnswers} {fromVersion old new : Int}
    {any any' : Bool} {s s' : StoredStep}
    (h : rollbackStep showError a fromVersion any s = (.ok any', s')) {name : Str}
    (hto : s.holds name = some new) (hne : new ≠ old) :
    s'.holds name = some old ↔ s.Restorable a fromVersion old name := by
  have hkept : s.holds name ≠ some old := by
    rw [hto]
    exact fun h => hne (Option.some.inj h)
  unfold rollbackStep at h
  dsimp only at h
  unfold StoredStep.Restorable
  by_cases hexecuted : s.status = .executed
  · rw [if_neg (not_not_intro hexecuted)] at h
    cases haction : s.action with
    | write =>
        simp only [haction] at h
        split at h
        · cases h
        · split at h
          · cases h
          · obtain rfl := (congrArg Prod.snd h : _ = s')
            rw [markStep_holds, put_eq_some hto hne, List.mem_singleton]
            exact ⟨fun h => ⟨hexecuted, h⟩, fun h => h.2⟩
    | reexport =>
        simp only [haction] at h
        split at h
        · cases h
        · rename_i id hid
          unfold rewriteExport at h
          cases hcheck : a.rewrite.check id with
          | error e =>
              simp only [hcheck] at h
              obtain rfl := (congrArg Prod.snd h : _ = s')
              rw [markStep_holds]
              refine ⟨fun h => absurd h hkept, ?_⟩
              rintro ⟨-, -, id', path, hid', hpath, -⟩
              obtain rfl := Option.some.inj (hid.symm.trans hid')
              rw [hcheck] at hpath
              cases hpath
          | ok path =>
              simp only [hcheck] at h
              have hholds : s'.holds = (s.put a.rewrite.vars fromVersion).holds := by
                split at h
                · rename_i detail s₁ heq
                  obtain ⟨-, rfl⟩ := Prod.mk.inj heq
                  obtain rfl := (congrArg Prod.snd h : _ = s')
                  exact markStep_holds
                · rename_i e s₁ heq
                  obtain ⟨-, rfl⟩ := Prod.mk.inj heq
                  obtain rfl := (congrArg Prod.snd h : _ = s')
                  exact markStep_holds
              rw [hholds, put_eq_some hto hne]
              constructor
              · rintro ⟨hfrom, hmem⟩
                exact ⟨hexecuted, hfrom, id, path, hid, hcheck, hmem⟩
              · rintro ⟨-, hfrom, id', path', -, -, hmem⟩
                exact ⟨hfrom, hmem⟩
    | none =>
        simp only [haction] at h
        obtain rfl := (congrArg Prod.snd h : _ = s')
        rw [markStep_holds]
        exact ⟨fun h => absurd h hkept, fun h => h.2.2.elim⟩
    | manual =>
        simp only [haction] at h
        obtain rfl := (congrArg Prod.snd h : _ = s')
        rw [markStep_holds]
        exact ⟨fun h => absurd h hkept, fun h => h.2.2.elim⟩
  · rw [if_pos hexecuted] at h
    obtain ⟨-, rfl⟩ := Prod.mk.inj h
    exact ⟨fun h => absurd h hkept, fun h => absurd h.1 hexecuted⟩

/-- A loop that comes to its end went through every step. -/
theorem forSteps_ok {α : Type} {f : Nat → α → StoredStep → Except CoreError α × StoredStep} {i : Nat}
    {x y : α} {steps steps' : List StoredStep} (h : forSteps f i x steps = (.ok y, steps')) {j : Nat}
    {s : StoredStep} (hs : steps[j]? = some s) :
    ∃ s' z z', steps'[j]? = some s' ∧ f (i + j) z s = (.ok z', s') := by
  induction steps generalizing i x j steps' with
  | nil => cases hs
  | cons t rest ih =>
      unfold forSteps at h
      cases hf : f i x t with
      | mk r t' =>
          cases r with
          | error e =>
              simp only [hf] at h
              cases h
          | ok z =>
              simp only [hf] at h
              cases hrest : forSteps f (i + 1) z rest with
              | mk r' rest' =>
                  simp only [hrest] at h
                  obtain ⟨rfl, rfl⟩ := Prod.mk.inj h
                  cases j with
                  | zero =>
                      obtain rfl := Option.some.inj hs
                      exact ⟨t', x, z, rfl, hf⟩
                  | succ j =>
                      obtain ⟨s', z₁, z₂, hs', hstep⟩ := ih hrest hs
                      refine ⟨s', z₁, z₂, hs', ?_⟩
                      rwa [show i + (j + 1) = i + 1 + j by omega]

/-- Every name that holds the plan's new value is written back to the old one. -/
def StoredPlan.Restored (old : Int) (plan plan' : StoredPlan) : Prop :=
  ∀ (i : Nat) (s s' : StoredStep), plan.steps[i]? = some s → plan'.steps[i]? = some s' →
    ∀ name, s.holds name = some plan.toVersion → plan.toVersion ≠ old → s'.holds name = some old

/-- Every step that holds the new value is executed, and its rollback writes the old one there. -/
def StoredPlan.Restorable (a : PlanAnswers) (old : Int) (plan : StoredPlan) : Prop :=
  ∀ (i : Nat) (s : StoredStep), plan.steps[i]? = some s →
    ∀ name, s.holds name = some plan.toVersion → plan.toVersion ≠ old →
      ∃ fromVersion, plan.fromVersion = some fromVersion ∧
        s.Restorable (a.step i) fromVersion old name

/-- A rollback that reports success restored what is restorable, and nothing else. -/
theorem syncPlanRollback_restores {showError : CoreError → Str} {a : PlanAnswers}
    {plan plan' : StoredPlan} {status : PlanStatus}
    (h : syncPlanRollback showError a plan = (.ok status, plan')) (old : Int) :
    plan.Restored old plan' ↔ plan.Restorable a old := by
  unfold syncPlanRollback at h
  dsimp only at h
  split at h
  · cases h
  · cases h
  · rename_i u fromVersion _ hfrom
    split at h
    · cases h
    · cases hloop : forSteps (fun i any s => rollbackStep showError (a.step i) fromVersion any s) 0
          false plan.steps with
      | mk r steps =>
          simp only [hloop] at h
          cases r with
          | error e => cases h
          | ok any =>
              cases any with
              | false => cases h
              | true =>
                  simp only [Bool.not_true, Bool.false_eq_true, if_false] at h
                  have hsteps : plan'.steps = steps := by
                    unfold closePlan at h
                    split at h
                    · cases h
                    · obtain rfl := (congrArg Prod.snd h : _ = plan')
                      rfl
                  constructor
                  · intro hrestored i s hs name hto hne
                    obtain ⟨s', z, z', hs', hstep⟩ := forSteps_ok hloop hs
                    have hback := hrestored i s s' hs (hsteps ▸ hs') name hto hne
                    rw [Nat.zero_add] at hstep
                    exact ⟨fromVersion, hfrom, (rollbackStep_holds hstep hto hne).1 hback⟩
                  · intro hrestorable i s s' hs hs' name hto hne
                    obtain ⟨s₁, z, z', hs₁, hstep⟩ := forSteps_ok hloop hs
                    obtain rfl := Option.some.inj (hs₁.symm.trans (hsteps ▸ hs'))
                    obtain ⟨v, hv, hstepRestorable⟩ := hrestorable i s hs name hto hne
                    obtain rfl := Option.some.inj (hfrom.symm.trans hv)
                    rw [Nat.zero_add] at hstep
                    exact (rollbackStep_holds hstep hto hne).2 hstepRestorable

end Tethra.SyncPlans
