import Tethra.Rotation.SyncPlan

set_option autoImplicit false

/-! # What the status of a plan says

Executions and rollbacks of a plan, with a filter on the destinations, call after call. Beside a step
stands its last successful write, with what its verification said. An execution computes the status of
the plan from its steps; a rollback sets it outright, whatever was filtered out, failed or left behind. -/

namespace Tethra.SyncPlans

open Runs

/-! ## Filters -/

def sameIgnoringAsciiCase (a b : Str) : Bool := a.map Char.toLower = b.map Char.toLower

/-- The step is at the destination that is asked for, by its id or its name. -/
def StoredStep.selected (only : Option Str) (destinationName : Except CoreError Str) (s : StoredStep) :
    Bool :=
  match only with
  | .none => true
  | some only => s.destinationId = only || match destinationName with
      | .ok name => sameIgnoringAsciiCase name only
      | .error _ => false

/-! ## The last write -/

/-- A step with its last successful write: the version, and whether it was verified. -/
structure Tracked where
  step : StoredStep
  last : Option (Int × Bool)

/-- The step reaches its write, and the write succeeds. -/
def StoredStep.writes (a : StepAnswers) (s : StoredStep) : Bool :=
  match s.action with
  | .write => a.receipt.isOk
  | .reexport => match exportId s with
      | some id => (a.rewrite.check id).isOk
      | .none => false
  | _ => false

/-- The verification behind a write is `in_sync` or `present_unverifiable`; a re-exported file is
    recorded with its hash. -/
def StoredStep.verifies (a : StepAnswers) (s : StoredStep) : Bool :=
  match s.action with
  | .write => match a.drift with
      | .ok .inSync | .ok .presentUnverifiable => true
      | _ => false
  | _ => a.rewrite.updateHash.isOk

def StoredStep.runs (s : StoredStep) : Bool := s.status = .planned || s.status = .failed

/-- The last write behind one that may be made. -/
def Tracked.lastAfter (t : Tracked) (a : StepAnswers) (reached : Bool) (v : Int) :
    Option (Int × Bool) :=
  if reached && t.step.writes a then some (v, t.step.verifies a) else t.last

def Tracked.run (showError : CoreError → Str) (only : Option Str)
    (destinationName : Except CoreError Str) (a : StepAnswers) (toVersion : Int) (t : Tracked) :
    Except CoreError Unit × Tracked :=
  if t.step.selected only destinationName then
    let (r, step) := runStep showError a toVersion t.step
    (r, ⟨step, t.lastAfter a t.step.runs toVersion⟩)
  else (.ok (), t)

def Tracked.rollBack (showError : CoreError → Str) (only : Option Str)
    (destinationName : Except CoreError Str) (a : StepAnswers) (fromVersion : Int) (any : Bool)
    (t : Tracked) : Except CoreError Bool × Tracked :=
  if t.step.selected only destinationName then
    let (r, step) := rollbackStep showError a fromVersion any t.step
    (r, ⟨step, t.lastAfter a (t.step.status = .executed) fromVersion⟩)
  else (.ok any, t)

/-- The loop over the steps; an error ends it. -/
def forEach {α σ : Type} (f : Nat → α → σ → Except CoreError α × σ) :
    Nat → α → List σ → Except CoreError α × List σ
  | _, x, [] => (.ok x, [])
  | i, x, s :: rest =>
      match f i x s with
      | (.error e, s') => (.error e, s' :: rest)
      | (.ok y, s') =>
          let (r, rest') := forEach f (i + 1) y rest
          (r, s' :: rest')

/-! ## The calls -/

structure TrackedPlan where
  id : Str
  credentialId : Str
  fromVersion : Option Int
  toVersion : Int
  status : PlanStatus
  steps : List Tracked

def TrackedPlan.stored (p : TrackedPlan) : StoredPlan :=
  ⟨p.id, p.credentialId, p.fromVersion, p.toVersion, p.status, p.steps.map Tracked.step⟩

/-- What one call finds, with the names of the steps' destinations. -/
structure CallAnswers where
  plan : PlanAnswers
  destinationName : Nat → Except CoreError Str

/-- The status that is left behind the steps, unless the statement fails. -/
def TrackedPlan.close (a : PlanAnswers) (status : PlanStatus) (p : TrackedPlan) : TrackedPlan :=
  match a.updatePlanStatus with
  | .error _ => p
  | .ok _ => { p with status }

/-- `sync_plan_execute` with a filter, as to what it leaves of the plan. -/
def TrackedPlan.execute (showError : CoreError → Str) (only : Option Str) (a : CallAnswers)
    (p : TrackedPlan) : TrackedPlan :=
  let start : Except CoreError Int := do
    a.plan.verifyMasterPassword
    a.plan.loadPlan
    a.plan.valueVersionOf
  match start with
  | .error _ => p
  | .ok current =>
      if current ≠ p.toVersion then p.close a.plan .stale
      else
        match (a.plan.decryptCredentialVersion >>= fun _ => credentialFound a.plan p.stored) with
        | .error _ => p
        | .ok _ =>
            match forEach (fun i (_ : Unit) t =>
                t.run showError only (a.destinationName i) (a.plan.step i) p.toVersion) 0 () p.steps with
            | (.error _, steps) => { p with steps }
            | (.ok _, steps) =>
                { p with steps }.close a.plan (statusOf (steps.map Tracked.step))

/-- `sync_plan_rollback` with a filter, as to what it leaves of the plan. -/
def TrackedPlan.rollback (showError : CoreError → Str) (only : Option Str) (a : CallAnswers)
    (p : TrackedPlan) : TrackedPlan :=
  let start : Except CoreError Unit := do
    a.plan.verifyMasterPassword
    a.plan.loadPlan
  match start, p.fromVersion with
  | .error _, _ => p
  | .ok _, .none => p
  | .ok _, some fromVersion =>
      match (a.plan.decryptCredentialVersion >>= fun _ => credentialFound a.plan p.stored) with
      | .error _ => p
      | .ok _ =>
          match forEach (fun i any t =>
              t.rollBack showError only (a.destinationName i) (a.plan.step i) fromVersion any) 0 false
              p.steps with
          | (.error _, steps) => { p with steps }
          | (.ok any, steps) =>
              if !any then { p with steps } else { p with steps }.close a.plan .rolledBack

/-! ## Without a filter -/

/-- A loop over tracked steps is the loop over the steps. -/
theorem forEach_step {α : Type} {f : Nat → α → StoredStep → Except CoreError α × StoredStep}
    {g : Nat → α → Tracked → Except CoreError α × Tracked}
    (hstep : ∀ i x t, f i x t.step = ((g i x t).1, (g i x t).2.step)) (i : Nat) (x : α) (ts : List Tracked) :
    forSteps f i x (ts.map Tracked.step) = ((forEach g i x ts).1, (forEach g i x ts).2.map Tracked.step) := by
  induction ts generalizing i x with
  | nil => rfl
  | cons t rest ih =>
      rw [List.map_cons, forSteps, forEach, hstep]
      obtain ⟨r, t'⟩ := g i x t
      cases r with
      | error e => rfl
      | ok y =>
          dsimp only
          rw [ih]
          rfl

theorem TrackedPlan.stored_close (a : PlanAnswers) (status : PlanStatus) (p : TrackedPlan) :
    (p.close a status).stored = (closePlan a status p.stored).2 := by
  unfold close closePlan
  cases a.updatePlanStatus with
  | ok _ => rfl
  | error _ => rfl

/-- Without a filter an execution is the one that a rotation asks for. -/
theorem TrackedPlan.stored_execute (showError : CoreError → Str) (a : CallAnswers) (p : TrackedPlan) :
    (p.execute showError .none a).stored = (syncPlanExecute showError a.plan p.stored).2 := by
  unfold execute syncPlanExecute
  dsimp only
  generalize (do
    a.plan.verifyMasterPassword
    a.plan.loadPlan
    a.plan.valueVersionOf : Except CoreError Int) = start
  generalize (a.plan.decryptCredentialVersion >>= fun _ => credentialFound a.plan p.stored) = found
  cases start with
  | error e => rfl
  | ok current =>
  dsimp only
  by_cases hcurrent : current ≠ p.toVersion
  · rw [if_pos hcurrent, if_pos (show current ≠ p.stored.toVersion from hcurrent)]
    unfold close
    cases a.plan.updatePlanStatus with
    | ok _ => rfl
    | error _ => rfl
  · rw [if_neg hcurrent, if_neg (show ¬current ≠ p.stored.toVersion from hcurrent)]
    cases found with
    | error e => rfl
    | ok _ =>
    dsimp only
    rw [show p.stored.steps = p.steps.map Tracked.step from rfl,
      forEach_step (g := fun i (_ : Unit) t => t.run showError .none (a.destinationName i) (a.plan.step i) p.toVersion)
        (fun _ _ _ => rfl)]
    generalize forEach (fun i (_ : Unit) t =>
      t.run showError .none (a.destinationName i) (a.plan.step i) p.toVersion) 0 () p.steps = tracked
    obtain ⟨r, steps⟩ := tracked
    cases r with
    | error e => rfl
    | ok _ => exact stored_close _ _ _

/-! ## The truth of a status -/

/-- The last write of the step was the target version, and it was verified. -/
def Tracked.Deployed (toVersion : Int) (t : Tracked) : Prop :=
  t.step.action = .write ∨ t.step.action = .reexport → t.last = some (toVersion, true)

/-- No name of the step's destination holds the target version that the plan wrote there. -/
def Tracked.Returned (toVersion : Int) (t : Tracked) : Prop :=
  ∀ name, t.step.holds name ≠ some toVersion

structure Truthful (p : TrackedPlan) : Prop where
  executed : p.status = .executed → ∀ t ∈ p.steps, t.Deployed p.toVersion
  rolledBack : p.status = .rolledBack → ∀ t ∈ p.steps, t.Returned p.toVersion

/-- A plan as `sync_plan_create` makes it: its previous version is a retained one. -/
structure Fresh (p : TrackedPlan) : Prop where
  status : p.status = .planned
  steps : ∀ t ∈ p.steps, t.step.status = .planned
  fromVersion : p.fromVersion ≠ some p.toVersion

/-- What a step's status says of its last write. -/
structure Tracked.Sound (toVersion : Int) (t : Tracked) : Prop where
  executed : t.step.status = .executed → t.Deployed toVersion
  skipped : t.step.status = .skipped → t.step.action = .manual

theorem updateStep_ok {a : StepAnswers} (h : a.updateStep = .ok ()) (status : Status) (detail : Str)
    (s : StoredStep) : updateStep a status detail s = (.ok (), { s with status, detail }) := by
  unfold updateStep
  rw [h]

theorem rewriteExport_stored (a : RewriteAnswers) (id : Str) (v : Int) (s : StoredStep) :
    (rewriteExport a id v s).2.status = s.status ∧ (rewriteExport a id v s).2.action = s.action := by
  unfold rewriteExport
  split
  · exact ⟨rfl, rfl⟩
  · exact ⟨rfl, rfl⟩

/-- A write changes what the destination holds, and nothing that is stored of the step. -/
theorem executeStep_stored (a : StepAnswers) (toVersion : Int) (s : StoredStep) :
    (executeStep a toVersion s).2.status = s.status ∧ (executeStep a toVersion s).2.action = s.action := by
  unfold executeStep
  split
  · exact ⟨rfl, rfl⟩
  · exact ⟨rfl, rfl⟩
  · split
    · exact ⟨rfl, rfl⟩
    · exact rewriteExport_stored a.rewrite _ toVersion s
  · split
    · exact ⟨rfl, rfl⟩
    · exact ⟨rfl, rfl⟩

/-- A step that was executed has made its write, and verified it. -/
theorem executeStep_ok {a : StepAnswers} {toVersion : Int} {s : StoredStep} {detail : Str}
    (h : (executeStep a toVersion s).1 = .ok detail) (haction : s.action = .write ∨ s.action = .reexport) :
    s.writes a = true ∧ s.verifies a = true := by
  unfold executeStep at h
  unfold StoredStep.writes StoredStep.verifies
  rcases haction with haction | haction
  · simp only [haction] at h ⊢
    cases hreceipt : a.receipt with
    | error e =>
        rw [hreceipt] at h
        cases h
    | ok receipt =>
        rw [hreceipt] at h
        refine ⟨rfl, ?_⟩
        cases hdrift : a.drift with
        | error e =>
            simp only [hdrift] at h
            cases h
        | ok drift =>
            simp only [hdrift] at h
            cases hrecord : a.recordSync with
            | error e =>
                simp only [hrecord] at h
                cases h
            | ok _ =>
                simp only [hrecord] at h
                cases drift with
                | inSync => rfl
                | presentUnverifiable => rfl
                | drifted => cases h
                | missing => cases h
                | unknown => cases h
  · simp only [haction] at h ⊢
    cases hid : exportId s with
    | none =>
        rw [hid] at h
        cases h
    | some id =>
        simp only [hid, rewriteExport] at h ⊢
        cases hcheck : a.rewrite.check id with
        | error e =>
            rw [hcheck] at h
            cases h
        | ok path =>
            rw [hcheck] at h
            refine ⟨rfl, ?_⟩
            cases hhash : a.rewrite.updateHash with
            | error e =>
                simp only [hhash] at h
                cases h
            | ok _ => rfl

/-- What an execution makes of a step that it runs. -/
theorem runStep_cases (showError : CoreError → Str) (a : StepAnswers) (toVersion : Int) (s : StoredStep) :
    (s.runs = false ∧ runStep showError a toVersion s = (.ok (), s)) ∨
    (s.runs = true ∧ (runStep showError a toVersion s).2.action = s.action ∧
      ((runStep showError a toVersion s).2.status = s.status ∨
        (runStep showError a toVersion s).2.status = .failed ∨
        ((runStep showError a toVersion s).2.status = .skipped ∧ s.action = .manual) ∨
        ((runStep showError a toVersion s).2.status = .executed ∧
          ∃ detail, (executeStep a toVersion s).1 = .ok detail))) := by
  obtain ⟨hstatus, haction⟩ := executeStep_stored a toVersion s
  unfold runStep
  split_ifs with hruns hmanual
  · exact .inl ⟨by simpa [StoredStep.runs] using hruns, rfl⟩
  · refine .inr ⟨by simpa [StoredStep.runs, or_iff_not_imp_left] using hruns, ?_⟩
    unfold updateStep
    split
    · exact ⟨rfl, .inr (.inr (.inl ⟨rfl, hmanual⟩))⟩
    · exact ⟨rfl, .inl rfl⟩
  · refine .inr ⟨by simpa [StoredStep.runs, or_iff_not_imp_left] using hruns, ?_⟩
    split
    · rename_i detail s' heq
      rw [heq] at hstatus haction
      unfold updateStep
      split
      · exact ⟨haction, .inr (.inr (.inr ⟨rfl, detail, congrArg Prod.fst heq⟩))⟩
      · exact ⟨haction, .inl hstatus⟩
    · rename_i e s' heq
      rw [heq] at hstatus haction
      unfold updateStep
      split
      · exact ⟨haction, .inr (.inl rfl)⟩
      · exact ⟨haction, .inl hstatus⟩

/-- An execution keeps every step sound. -/
theorem Tracked.Sound.run {toVersion : Int} {t : Tracked} (h : t.Sound toVersion)
    (showError : CoreError → Str) (only : Option Str) (name : Except CoreError Str) (a : StepAnswers) :
    (t.run showError only name a toVersion).2.Sound toVersion := by
  unfold Tracked.run
  split_ifs
  · rcases runStep_cases showError a toVersion t.step with ⟨hruns, hsame⟩ | ⟨hruns, haction, hstatus⟩
    · have hleft : (⟨(runStep showError a toVersion t.step).2,
          t.lastAfter a t.step.runs toVersion⟩ : Tracked) = t := by
        rw [hsame, hruns]
        rfl
      show Tracked.Sound toVersion ⟨(runStep showError a toVersion t.step).2, _⟩
      rw [hleft]
      exact h
    · have hnot : t.step.status ≠ .executed ∧ t.step.status ≠ .skipped := by
        unfold StoredStep.runs at hruns
        constructor <;> intro hs <;> rw [hs] at hruns <;> revert hruns <;> decide
      constructor
      · intro hexecuted hwrites
        change (runStep showError a toVersion t.step).2.status = .executed at hexecuted
        change (runStep showError a toVersion t.step).2.action = .write ∨
          (runStep showError a toVersion t.step).2.action = .reexport at hwrites
        rw [haction] at hwrites
        rw [hexecuted] at hstatus
        rcases hstatus with hs | hs | ⟨hs, -⟩ | ⟨-, detail, hok⟩
        · exact absurd hs.symm hnot.1
        · cases hs
        · cases hs
        · obtain ⟨hwrote, hverified⟩ := executeStep_ok hok hwrites
          show t.lastAfter a t.step.runs toVersion = some (toVersion, true)
          unfold Tracked.lastAfter
          rw [hruns, hwrote, hverified]
          rfl
      · intro hskipped
        change (runStep showError a toVersion t.step).2.status = .skipped at hskipped
        rw [hskipped] at hstatus
        rcases hstatus with hs | hs | ⟨-, hmanual⟩ | ⟨hs, -⟩
        · exact absurd hs.symm hnot.2
        · cases hs
        · exact haction.trans hmanual
        · cases hs
  · exact h

/-! ## Loops -/

section Loops

variable {α : Type} {f : Nat → α → Tracked → Except CoreError α × Tracked}

theorem forEach_keeps {P : Tracked → Prop} (h : ∀ i x t, P t → P (f i x t).2) (i : Nat) (x : α)
    {ts : List Tracked} (hts : ∀ t ∈ ts, P t) : ∀ t ∈ (forEach f i x ts).2, P t := by
  induction ts generalizing i x with
  | nil => exact hts
  | cons s rest ih =>
      have hhead := h i x s (hts s (List.mem_cons_self ..))
      have hrest : ∀ t ∈ rest, P t := fun t ht => hts t (List.mem_cons_of_mem _ ht)
      unfold forEach
      cases hf : f i x s with
      | mk r s' =>
          rw [hf] at hhead
          cases r with
          | error e => exact List.forall_mem_cons.2 ⟨hhead, hrest⟩
          | ok y => exact List.forall_mem_cons.2 ⟨hhead, ih (i + 1) y hrest⟩

/-- Steps that are passed over are left as they are. -/
theorem forEach_passes {ts : List Tracked} {i : Nat} {x : α}
    (h : ∀ t ∈ ts, ∀ i, f i x t = (.ok x, t)) : forEach f i x ts = (.ok x, ts) := by
  induction ts generalizing i with
  | nil => rfl
  | cons s rest ih =>
      unfold forEach
      rw [h s (List.mem_cons_self ..) i]
      show (let (r, rest') := forEach f (i + 1) x rest; (r, s :: rest')) = _
      rw [ih fun t ht => h t (List.mem_cons_of_mem _ ht)]

theorem forEach_total (h : ∀ i x t, ∃ y, (f i x t).1 = .ok y) (i : Nat) (x : α) (ts : List Tracked) :
    ∃ y, (forEach f i x ts).1 = .ok y := by
  induction ts generalizing i x with
  | nil => exact ⟨x, rfl⟩
  | cons s rest ih =>
      obtain ⟨y, hy⟩ := h i x s
      unfold forEach
      cases hf : f i x s with
      | mk r s' =>
          rw [hf] at hy
          dsimp only at hy
          subst hy
          exact ih (i + 1) y

/-- The first step that is not passed over fails and is left as it is: so are all of them. -/
theorem forEach_fails {G : Nat → Tracked → Prop} (ts : List Tracked) {i : Nat} {x : α}
    (hpass : ∀ i t, ¬G i t → f i x t = (.ok x, t))
    (hfirst : ∀ j t, ts[j]? = some t → G (i + j) t →
      (∀ k u, k < j → ts[k]? = some u → ¬G (i + k) u) → ∃ e, f (i + j) x t = (.error e, t)) :
    (forEach f i x ts).2 = ts ∧
      ((forEach f i x ts).1 = .ok x ∨ ∃ e, (forEach f i x ts).1 = .error e) := by
  induction ts generalizing i with
  | nil => exact ⟨rfl, .inl rfl⟩
  | cons s rest ih =>
      by_cases hgoes : G i s
      · obtain ⟨e, he⟩ := hfirst 0 s rfl hgoes fun k u hk => absurd hk (Nat.not_lt_zero k)
        rw [Nat.add_zero] at he
        unfold forEach
        rw [he]
        exact ⟨rfl, .inr ⟨e, rfl⟩⟩
      · unfold forEach
        rw [hpass i s hgoes]
        have hrest := ih (i := i + 1) fun j t ht hg hbefore => by
          have hshift : i + 1 + j = i + (j + 1) := by omega
          rw [hshift] at hg ⊢
          refine hfirst (j + 1) t ht hg fun k u hk hu => ?_
          cases k with
          | zero =>
              obtain rfl := Option.some.inj hu
              exact hgoes
          | succ k =>
              have hnot := hbefore k u (Nat.lt_of_succ_lt_succ hk) hu
              rwa [show i + 1 + k = i + (k + 1) by omega] at hnot
        exact ⟨congrArg (s :: ·) hrest.1, hrest.2⟩

end Loops

/-- A loop whose steps all go through meets `P` in every step, and counts or leaves all as they are. -/
theorem forEach_counts {f : Nat → Bool → Tracked → Except CoreError Bool × Tracked} {P : Tracked → Prop}
    (ts : List Tracked) {i : Nat} {x : Bool} (h : ∀ j t, ts[j]? = some t → ∀ x, ∃ y t',
      f (i + j) x t = (.ok y, t') ∧ P t' ∧ (y = true ∨ y = x ∧ t' = t)) :
    ∃ y ts', forEach f i x ts = (.ok y, ts') ∧ (∀ t ∈ ts', P t) ∧ (y = true ∨ y = x ∧ ts' = ts) := by
  induction ts generalizing i x with
  | nil => exact ⟨x, [], rfl, fun t ht => (by cases ht), .inr ⟨rfl, rfl⟩⟩
  | cons s rest ih =>
      obtain ⟨y, s', hs, hP, hy⟩ := h 0 s rfl x
      have htail := ih (i := i + 1) (x := y) fun j t ht x => by
        have hnext := h (j + 1) t ht x
        rwa [show i + (j + 1) = i + 1 + j by omega] at hnext
      obtain ⟨z, rest', hrest, hPs, hz⟩ := htail
      rw [Nat.add_zero] at hs
      refine ⟨z, s' :: rest', ?_, List.forall_mem_cons.2 ⟨hP, hPs⟩, ?_⟩
      · unfold forEach
        rw [hs]
        show (let (r, rest') := forEach f (i + 1) y rest; (r, s' :: rest')) = _
        rw [hrest]
      · rcases hz with hz | ⟨rfl, rfl⟩
        · exact .inl hz
        · rcases hy with hy | ⟨rfl, rfl⟩
          · exact .inl hy
          · exact .inr ⟨rfl, rfl⟩

/-! ## Rollbacks that go all the way -/

/-- The rollback comes to the step. -/
def Tracked.goesFor (only : Option Str) (a : CallAnswers) (i : Nat) (t : Tracked) : Prop :=
  t.step.selected only (a.destinationName i) = true ∧ t.step.status = .executed

/-- The old value is written back, and every statement behind it succeeds. -/
def StoredStep.GoesBack (a : StepAnswers) (s : StoredStep) : Prop :=
  a.updateStep = .ok () ∧ match s.action with
    | .write => (∃ receipt, a.receipt = .ok receipt) ∧ a.recordSync = .ok ()
    | .reexport => ∃ id path, exportId s = some id ∧ a.rewrite.check id = .ok path ∧
        a.rewrite.updateHash = .ok ()
    | _ => True

/-- The name is one that the write-back sets. -/
def StoredStep.covers (a : StepAnswers) (s : StoredStep) (name : Str) : Prop :=
  match s.action with
  | .write => name = s.secretName
  | .reexport => name ∈ a.rewrite.vars
  | _ => False

/-- The rollback is given up before its steps. -/
def TrackedPlan.Refuses (a : PlanAnswers) (p : TrackedPlan) : Prop :=
  (∃ e, (do a.verifyMasterPassword; a.loadPlan : Except CoreError Unit) = .error e) ∨
    p.fromVersion = none ∨
    ∃ e, (a.decryptCredentialVersion >>= fun _ => credentialFound a p.stored) = .error e

/-- The first step that the rollback comes to, if there is one, is a write that fails. -/
def TrackedPlan.FailsFirst (only : Option Str) (a : CallAnswers) (p : TrackedPlan) : Prop :=
  ∀ (i : Nat) (t : Tracked), p.steps[i]? = some t → t.goesFor only a i →
    (∀ (k : Nat) (u : Tracked), k < i → p.steps[k]? = some u → ¬u.goesFor only a k) →
      t.step.action = .write ∧ ∃ e, (a.plan.step i).receipt = .error e

/-- The rollback comes to every step that holds the target version, and goes through to its end. -/
structure TrackedPlan.GoesBack (only : Option Str) (a : CallAnswers) (p : TrackedPlan) : Prop where
  steps : ∀ (i : Nat) (t : Tracked), p.steps[i]? = some t → t.goesFor only a i → t.step.GoesBack (a.plan.step i)
  covers : ∀ (i : Nat) (t : Tracked), p.steps[i]? = some t → ∀ name, t.step.holds name = some p.toVersion →
    t.goesFor only a i ∧ t.step.covers (a.plan.step i) name
  closes : a.plan.updatePlanStatus = .ok ()

/-- A step that goes back is marked, and holds the old version under the names that are set. -/
theorem rollbackStep_goesBack (showError : CoreError → Str) (fromVersion : Int) {a : StepAnswers}
    {s : StoredStep} (hexecuted : s.status = .executed) (h : s.GoesBack a) (any : Bool) :
    ∃ s', rollbackStep showError a fromVersion any s = (.ok true, s') ∧ s'.status = .rolledBack ∧
      ∀ name, s'.holds name = s.holds name ∧ ¬s.covers a name ∨ s'.holds name = some fromVersion := by
  obtain ⟨hupdate, hback⟩ := h
  have hmark : ∀ (status : Status) (detail : Str) (s : StoredStep),
      markStep a status detail true s = (.ok true, { s with status, detail }) := by
    intro status detail s
    unfold markStep
    rw [updateStep_ok hupdate]
    rfl
  have hput : ∀ (names : List Str) (name : Str),
      (s.put names fromVersion).holds name = s.holds name ∧ ¬name ∈ names ∨
        (s.put names fromVersion).holds name = some fromVersion := by
    intro names name
    by_cases hmem : name ∈ names
    · exact .inr (if_pos hmem)
    · exact .inl ⟨if_neg hmem, hmem⟩
  unfold rollbackStep
  dsimp only
  rw [if_neg (not_not_intro hexecuted)]
  cases haction : s.action with
  | write =>
      simp only [haction] at hback
      obtain ⟨⟨receipt, hreceipt⟩, hrecord⟩ := hback
      simp only [hreceipt, hrecord, hmark]
      refine ⟨_, rfl, rfl, fun name => (hput [s.secretName] name).imp ?_ fun h => h⟩
      rintro ⟨hsame, hnot⟩
      refine ⟨hsame, fun hcovers => hnot ?_⟩
      unfold StoredStep.covers at hcovers
      rw [haction] at hcovers
      exact List.mem_singleton.2 hcovers
  | reexport =>
      simp only [haction] at hback
      obtain ⟨id, path, hid, hcheck, hhash⟩ := hback
      simp only [hid, rewriteExport, hcheck, hhash, Except.map, hmark]
      refine ⟨_, rfl, rfl, fun name => (hput a.rewrite.vars name).imp ?_ fun h => h⟩
      rintro ⟨hsame, hnot⟩
      refine ⟨hsame, fun hcovers => hnot ?_⟩
      unfold StoredStep.covers at hcovers
      rw [haction] at hcovers
      exact hcovers
  | none =>
      simp only [hmark]
      refine ⟨_, rfl, rfl, fun name => .inl ⟨rfl, fun hcovers => ?_⟩⟩
      unfold StoredStep.covers at hcovers
      rw [haction] at hcovers
      exact hcovers
  | manual =>
      simp only [hmark]
      refine ⟨_, rfl, rfl, fun name => .inl ⟨rfl, fun hcovers => ?_⟩⟩
      unfold StoredStep.covers at hcovers
      rw [haction] at hcovers
      exact hcovers

/-- A step that the rollback does not come to is passed over. -/
theorem rollBack_passes {showError : CoreError → Str} {only : Option Str} {a : CallAnswers} {i : Nat}
    {fromVersion : Int} {t : Tracked} (h : ¬t.goesFor only a i) (any : Bool) :
    t.rollBack showError only (a.destinationName i) (a.plan.step i) fromVersion any = (.ok any, t) := by
  unfold Tracked.rollBack
  split_ifs with hselected
  · have hstatus : t.step.status ≠ .executed := fun hexecuted => h ⟨hselected, hexecuted⟩
    unfold rollbackStep
    dsimp only
    rw [if_pos hstatus]
    unfold Tracked.lastAfter
    simp [hstatus]
  · rfl

/-- A rollback whose write fails leaves the step as it is. -/
theorem rollBack_fails {showError : CoreError → Str} {only : Option Str} {a : CallAnswers} {i : Nat}
    {fromVersion : Int} {t : Tracked} (h : t.goesFor only a i)
    (hfails : t.step.action = .write ∧ ∃ e, (a.plan.step i).receipt = .error e) (any : Bool) :
    ∃ e, t.rollBack showError only (a.destinationName i) (a.plan.step i) fromVersion any
      = (.error e, t) := by
  obtain ⟨hselected, hexecuted⟩ := h
  obtain ⟨hwrite, e, he⟩ := hfails
  refine ⟨e, ?_⟩
  have hwrites : t.step.writes (a.plan.step i) = false := by
    unfold StoredStep.writes
    rw [hwrite, he]
    rfl
  unfold Tracked.rollBack
  rw [if_pos hselected]
  unfold rollbackStep
  dsimp only
  rw [if_neg (not_not_intro hexecuted), hwrite]
  dsimp only
  rw [he]
  unfold Tracked.lastAfter
  rw [hwrites, Bool.and_false]
  rfl

/-- A step of a rollback that goes all the way holds the target version no more. -/
theorem rollBack_returns {showError : CoreError → Str} {only : Option Str} {a : CallAnswers} {i : Nat}
    {fromVersion toVersion : Int} {t : Tracked} (hsound : t.Sound toVersion) (hne : fromVersion ≠ toVersion)
    (hback : t.goesFor only a i → t.step.GoesBack (a.plan.step i))
    (hcovers : ∀ name, t.step.holds name = some toVersion →
      t.goesFor only a i ∧ t.step.covers (a.plan.step i) name) (any : Bool) :
    ∃ y t', t.rollBack showError only (a.destinationName i) (a.plan.step i) fromVersion any = (.ok y, t') ∧
      (t'.Sound toVersion ∧ t'.Returned toVersion) ∧ (y = true ∨ y = any ∧ t' = t) := by
  by_cases hgoes : t.goesFor only a i
  · obtain ⟨s', hrun, hstatus, hholds⟩ := rollbackStep_goesBack showError fromVersion
      hgoes.2 (hback hgoes) any
    refine ⟨true, ⟨s', t.lastAfter (a.plan.step i) (t.step.status = .executed) fromVersion⟩, ?_, ⟨?_, ?_⟩,
      .inl rfl⟩
    · unfold Tracked.rollBack
      rw [if_pos hgoes.1, hrun]
    · constructor
      · intro hs
        rw [hstatus] at hs
        cases hs
      · intro hs
        rw [hstatus] at hs
        cases hs
    · intro name hto
      change s'.holds name = some toVersion at hto
      rcases hholds name with ⟨hsame, hnot⟩ | hold
      · exact hnot (hcovers name (hsame ▸ hto)).2
      · rw [hold] at hto
        exact hne (Option.some.inj hto)
  · exact ⟨any, t, rollBack_passes hgoes any, ⟨hsound, fun name hto => hgoes (hcovers name hto).1⟩,
      .inr ⟨rfl, rfl⟩⟩

theorem run_passes {showError : CoreError → Str} {only : Option Str} {a : CallAnswers} {i : Nat}
    {toVersion : Int} {t : Tracked} (h : t.step.runs = false) :
    t.run showError only (a.destinationName i) (a.plan.step i) toVersion = (.ok (), t) := by
  unfold Tracked.run
  split_ifs
  · rcases runStep_cases showError (a.plan.step i) toVersion t.step with ⟨-, hsame⟩ | ⟨hruns, -⟩
    · rw [hsame, h]
      rfl
    · rw [h] at hruns
      cases hruns
  · rfl

/-- Only the statement that marks a step can fail an execution's loop. -/
theorem run_total {showError : CoreError → Str} {only : Option Str} {name : Except CoreError Str}
    {a : StepAnswers} {toVersion : Int} {t : Tracked} (h : a.updateStep = .ok ()) :
    ∃ y, (t.run showError only name a toVersion).1 = .ok y := by
  refine ⟨(), ?_⟩
  unfold Tracked.run
  split_ifs
  · show (runStep showError a toVersion t.step).1 = .ok ()
    unfold runStep
    split_ifs
    · rfl
    · rw [updateStep_ok h]
    · split
      · rw [updateStep_ok h]
      · rw [updateStep_ok h]
  · rfl

/-! ## Every sequence of calls -/

inductive Call where
  | execute (only : Option Str) (answers : CallAnswers)
  | rollback (only : Option Str) (answers : CallAnswers)

def Call.apply (showError : CoreError → Str) : Call → TrackedPlan → TrackedPlan
  | .execute only a, p => p.execute showError only a
  | .rollback only a, p => p.rollback showError only a

/-- A rollback leaves everything as it is or goes back as a whole, and an execution of a plan that is
    rolled back has its statements succeed. -/
def Call.Whole (p : TrackedPlan) : Call → Prop
  | .execute _ a => p.status = .rolledBack →
      (∀ i, (a.plan.step i).updateStep = .ok ()) ∧ a.plan.updatePlanStatus = .ok ()
  | .rollback only a => p.Refuses a.plan ∨ p.FailsFirst only a ∨ p.GoesBack only a

/-- One call on the plan. -/
def CallStep (showError : CoreError → Str) (cond : TrackedPlan → Call → Prop) (p q : TrackedPlan) :
    Prop :=
  ∃ c : Call, cond p c ∧ q = c.apply showError p

/-- What holds of a plan between two calls. -/
structure Inv (p : TrackedPlan) : Prop where
  sound : ∀ t ∈ p.steps, t.Sound p.toVersion
  done : p.status = .executed → ∀ t ∈ p.steps, t.step.status = .executed ∨ t.step.status = .skipped
  returned : p.status = .rolledBack → ∀ t ∈ p.steps, t.Returned p.toVersion
  fromVersion : p.fromVersion ≠ some p.toVersion

theorem Fresh.inv {p : TrackedPlan} (h : Fresh p) : Inv p := by
  refine ⟨fun t ht => ⟨fun hs => ?_, fun hs => ?_⟩, fun hs => ?_, fun hs => ?_, h.fromVersion⟩
  · rw [h.steps t ht] at hs
    cases hs
  · rw [h.steps t ht] at hs
    cases hs
  · rw [h.status] at hs
    cases hs
  · rw [h.status] at hs
    cases hs

theorem Inv.truthful {p : TrackedPlan} (h : Inv p) : Truthful p := by
  refine ⟨fun hs t ht hwrites => ?_, h.returned⟩
  rcases h.done hs t ht with hexecuted | hskipped
  · exact (h.sound t ht).executed hexecuted hwrites
  · rw [(h.sound t ht).skipped hskipped] at hwrites
    rcases hwrites with h | h <;> cases h

theorem done_of_statusOf {steps : List Tracked} (h : statusOf (steps.map Tracked.step) = .executed) :
    ∀ t ∈ steps, t.step.status = .executed ∨ t.step.status = .skipped := by
  unfold statusOf at h
  split_ifs at h with hfailed hdone
  intro t ht
  have hall := List.all_eq_true.1 hdone t.step (List.mem_map_of_mem ht)
  exact of_decide_eq_true hall

theorem statusOf_ne_rolledBack (steps : List StoredStep) : statusOf steps ≠ .rolledBack := by
  unfold statusOf
  split_ifs <;> decide

/-- A plan that is left with a status that says nothing about its steps. -/
theorem Inv.of_silent {p : TrackedPlan} (hsound : ∀ t ∈ p.steps, t.Sound p.toVersion)
    (hfrom : p.fromVersion ≠ some p.toVersion) (hexecuted : p.status ≠ .executed)
    (hback : p.status ≠ .rolledBack) : Inv p :=
  ⟨hsound, fun h => absurd h hexecuted, fun h => absurd h hback, hfrom⟩

/-- An execution keeps the invariant. -/
theorem Inv.execute {p : TrackedPlan} (h : Inv p) (showError : CoreError → Str) (only : Option Str)
    (a : CallAnswers) (hcond : (Call.execute only a).Whole p) : Inv (p.execute showError only a) := by
  unfold TrackedPlan.execute
  dsimp only
  split
  · exact h
  · split_ifs with hcurrent
    · unfold TrackedPlan.close
      split
      · exact h
      · exact .of_silent h.sound h.fromVersion (by simp) (by simp)
    · split
      · exact h
      · -- The steps stay sound; a plan that is executed has none left to run.
        have hsound := forEach_keeps (P := fun t => t.Sound p.toVersion)
          (f := fun i (_ : Unit) t =>
            t.run showError only (a.destinationName i) (a.plan.step i) p.toVersion)
          (fun i x t ht => ht.run showError only _ _) 0 () h.sound
        have hpasses : p.status = .executed → forEach (fun i (_ : Unit) t =>
            t.run showError only (a.destinationName i) (a.plan.step i) p.toVersion) 0 () p.steps
            = (.ok (), p.steps) := by
          intro hexecuted
          refine forEach_passes fun t ht i => run_passes (a := a) ?_
          rcases h.done hexecuted t ht with hs | hs <;> simp [StoredStep.runs, hs]
        split
        · rename_i e steps heq
          rw [heq] at hsound
          by_cases hexecuted : p.status = .executed
          · rw [hpasses hexecuted] at heq
            cases heq
          · by_cases hback : p.status = .rolledBack
            · obtain ⟨y, hy⟩ := forEach_total (f := fun i (_ : Unit) t =>
                t.run showError only (a.destinationName i) (a.plan.step i) p.toVersion)
                (fun i x t => run_total ((hcond hback).1 i)) 0 () p.steps
              rw [heq] at hy
              cases hy
            · exact .of_silent hsound h.fromVersion hexecuted hback
        · rename_i u steps heq
          rw [heq] at hsound
          unfold TrackedPlan.close
          split
          · rename_i e hclose
            by_cases hexecuted : p.status = .executed
            · rw [hpasses hexecuted] at heq
              obtain ⟨-, rfl⟩ := Prod.mk.inj heq
              exact h
            · by_cases hback : p.status = .rolledBack
              · rw [(hcond hback).2] at hclose
                cases hclose
              · exact .of_silent hsound h.fromVersion hexecuted hback
          · exact ⟨hsound, fun hs => done_of_statusOf hs, fun hs => absurd hs (statusOf_ne_rolledBack _),
              h.fromVersion⟩

/-- A rollback that goes all the way keeps the invariant. -/
theorem Inv.rollback {p : TrackedPlan} (h : Inv p) (showError : CoreError → Str) (only : Option Str)
    (a : CallAnswers) (hcond : (Call.rollback only a).Whole p) :
    Inv (p.rollback showError only a) := by
  unfold TrackedPlan.rollback
  dsimp only
  split
  · exact h
  · exact h
  · rename_i u fromVersion hstart hfrom
    split
    · exact h
    · rename_i v hfound
      rcases hcond with hrefuses | hfails | hwhole
      · exfalso
        rcases hrefuses with ⟨e, he⟩ | hnone | ⟨e, he⟩
        · rw [hstart] at he
          cases he
        · rw [hfrom] at hnone
          cases hnone
        · rw [hfound] at he
          cases he
      · -- No step is changed, and none counts.
        obtain ⟨hsteps, hresult⟩ := forEach_fails (f := fun i any t =>
            t.rollBack showError only (a.destinationName i) (a.plan.step i) fromVersion any)
          (G := fun i t => t.goesFor only a i) p.steps (i := 0) (x := false)
          (fun i t hnot => rollBack_passes hnot _) (fun j t ht hgoes hfirst => by
            rw [Nat.zero_add] at hgoes ⊢
            refine rollBack_fails hgoes (hfails j t ht hgoes fun k u hk hu => ?_) false
            have hnot := hfirst k u hk hu
            rwa [Nat.zero_add] at hnot)
        split
        · rename_i e steps heq
          rw [heq] at hsteps
          obtain rfl : steps = p.steps := hsteps
          exact h
        · rename_i any steps heq
          rw [heq] at hsteps hresult
          obtain rfl : steps = p.steps := hsteps
          rcases hresult with hany | ⟨e, he⟩
          · obtain rfl := Except.ok.inj hany
            exact h
          · cases he
      · have hne : fromVersion ≠ p.toVersion := fun heq => h.fromVersion (hfrom.trans (congrArg some heq))
        obtain ⟨any, steps, hloop, hP, hany⟩ := forEach_counts (f := fun i any t =>
            t.rollBack showError only (a.destinationName i) (a.plan.step i) fromVersion any)
          (P := fun t => t.Sound p.toVersion ∧ t.Returned p.toVersion) p.steps (i := 0) (x := false)
          (fun j t ht any => by
            rw [Nat.zero_add]
            exact rollBack_returns (h.sound t (List.mem_of_getElem? ht)) hne
              (hwhole.steps j t ht) (hwhole.covers j t ht) any)
        rw [hloop]
        dsimp only
        cases any with
        | false =>
            obtain ⟨-, rfl⟩ := hany.resolve_left (by decide)
            exact h
        | true =>
            unfold TrackedPlan.close
            rw [hwhole.closes]
            exact ⟨fun t ht => (hP t ht).1, fun hs => (by cases hs), fun _ t ht => (hP t ht).2,
              h.fromVersion⟩

/-- In every sequence of executions and rollbacks of a fresh plan whose rollbacks leave everything or go
    back as a whole, its status tells the truth about its steps. -/
theorem status_truthful (showError : CoreError → Str) {p q : TrackedPlan} (hfresh : Fresh p)
    (hrun : Steps (CallStep showError fun p c => c.Whole p) p q) : Truthful q := by
  refine (Steps.invariant (I := Inv) ?_ hfresh.inv hrun).truthful
  rintro u v hu ⟨c, hcond, rfl⟩
  cases c with
  | execute only a => exact hu.execute showError only a hcond
  | rollback only a => exact hu.rollback showError only a hcond

/-! ## A rollback of one destination -/

/-- Every write succeeds and is read back. -/
def plainStep : StepAnswers where
  getDestination := .ok ()
  destinationAdapter := .ok ()
  write := .ok "written".toList
  read := .ok (some "value".toList)
  fingerprint := .ok true
  existsName := .ok (some true)
  recordSync := .ok ()
  markStepVerified := .ok ()
  rewrite := ⟨.ok (some []), true, .ok ([], true), .ok [], .ok (), .ok ()⟩
  updateStep := .ok ()

/-- The credential is at version 2, and every destination is named by nothing. -/
def plainCall : CallAnswers where
  plan := ⟨.ok (), .ok (), .ok 2, .ok (), .ok true, fun _ => plainStep, .ok (), .ok (), .ok ()⟩
  destinationName := fun _ => .ok []

def plannedWrite (destination : String) : Tracked :=
  ⟨⟨destination.toList, "KEY".toList, .write, .planned, [], fun _ => .none⟩, .none⟩

/-- A plan for two destinations. -/
def twoDestinations : TrackedPlan :=
  ⟨"plan".toList, "c1".toList, some 1, 2, .planned, [plannedWrite "d1", plannedWrite "d2"]⟩

theorem fresh_twoDestinations : Fresh twoDestinations where
  status := rfl
  steps := by
    intro t ht
    rcases List.mem_cons.1 ht with rfl | ht
    · rfl
    · rw [List.mem_singleton.1 ht]
      rfl
  fromVersion := by decide

/-- Both destinations are written, and the first one is rolled back. -/
def rolledBackFirst : TrackedPlan :=
  (Call.rollback (some "d1".toList) plainCall).apply (fun _ => [])
    ((Call.execute .none plainCall).apply (fun _ => []) twoDestinations)

theorem filtered_rollback_leaves_target :
    Fresh twoDestinations ∧
      Steps (CallStep (fun _ => []) fun _ _ => True) twoDestinations rolledBackFirst ∧
        ¬Truthful rolledBackFirst := by
  refine ⟨fresh_twoDestinations,
    .tail (.single ⟨.execute .none plainCall, trivial, rfl⟩) ⟨.rollback _ plainCall, trivial, rfl⟩, ?_⟩
  intro h
  have hstatus : rolledBackFirst.status = .rolledBack := by decide
  have hheld : rolledBackFirst.steps.map (fun t => t.step.holds "KEY".toList) = [some 1, some 2] := by
    decide
  have hmem : some 2 ∈ rolledBackFirst.steps.map (fun t => t.step.holds "KEY".toList) := by
    rw [hheld]
    decide
  obtain ⟨t, ht, hholds⟩ := List.mem_map.1 hmem
  exact h.rolledBack hstatus t ht _ hholds

/-- The plan is executed. -/
theorem status_truthful_two :
    Truthful ((Call.execute .none plainCall).apply (fun _ => []) twoDestinations) :=
  status_truthful (fun _ => []) fresh_twoDestinations
    (.single ⟨.execute .none plainCall, fun h => (by cases h), rfl⟩)

end Tethra.SyncPlans
