import Tethra.Rotation.SyncPlan
import Tethra.Rotation.OneActive

set_option autoImplicit false

/-! # What a rolled back rotation has restored

A rollback is rolled back when none of its parts failed. The plan rollback among them goes through the
executed steps only, and fails when none of them was rolled back: a step whose write landed without
being verified, or whose file could not be rewritten, does not count as a failure. -/

namespace Tethra.Rotations

open Interleave SyncPlans

/-- The rotations and the plans of a vault. -/
structure Vault where
  db : Db
  plans : Str → Option StoredPlan

def Vault.setPlan (v : Vault) (planId : Str) (plan : StoredPlan) : Vault :=
  { v with plans := Function.update v.plans planId (some plan) }

/-- A plan that was created: its steps are planned, and hold nothing. -/
def FreshPlan (plan : StoredPlan) : Prop :=
  ∀ s ∈ plan.steps, s.status = .planned ∧ ∀ name, s.holds name = none

/-- The actions of one process alone, with the plans; `rollback` is what a plan rollback finds. -/
def Vault.exec (env : Env) (rollback : PlanAnswers) (v : Vault) :
    (a : Action) → Except CoreError (Answer a) → Vault → Prop
  | .request (.syncPlanCreate credentialId), r, v' => v'.db = v.db ∧
      match r with
      | .error _ => v'.plans = v.plans
      | .ok planId => v.plans planId = none ∧ ∃ plan : StoredPlan, plan.id = planId ∧
          plan.credentialId = credentialId ∧ FreshPlan plan ∧ v' = v.setPlan planId plan
  | .request (.syncPlanExecute planId), r, v' =>
      match v.plans planId with
      | none => (∃ e, r = .error e) ∧ v' = v
      | some plan => ∃ execute : PlanAnswers,
          r = (syncPlanExecute env.showError execute plan).1.map (fun s => ⟨s = .executed, s.name⟩) ∧
            v' = v.setPlan planId (syncPlanExecute env.showError execute plan).2
  | .request (.syncPlanRollback planId), r, v' =>
      match v.plans planId with
      | none => (∃ e, r = .error e) ∧ v' = v
      | some plan =>
          r = (syncPlanRollback env.showError rollback plan).1.map (fun _ => ()) ∧
            v' = v.setPlan planId (syncPlanRollback env.showError rollback plan).2
  | a, r, v' => Exec v.db a r v'.db ∧ v'.plans = v.plans

/-- What the rotation's plan wrote is written back. -/
def DestinationsRestored (row : Rotation) (v v' : Vault) : Prop :=
  ∀ planId plan plan' old, row.syncPlanId = some planId → row.oldVersion = some old →
    v.plans planId = some plan → v'.plans planId = some plan' → plan.Restored old plan'

/-- What the rotation's plan wrote is at executed steps that can be written back. -/
def DestinationsRestorable (row : Rotation) (v : Vault) (rollback : PlanAnswers) : Prop :=
  ∀ planId plan old, row.syncPlanId = some planId → row.oldVersion = some old →
    v.plans planId = some plan → plan.Restorable rollback old

/-! ## Statements and requests -/

/-- A request of a rollback other than that of the plan. -/
def Request.outside : Request → Bool
  | .syncPlanCreate _ | .syncPlanExecute _ | .syncPlanRollback _ => false
  | _ => true

variable {env : Env} {rollback : PlanAnswers} {v : Vault}

theorem ensures_ask {r : Request} (h : r.outside = true) :
    Ensures (Vault.exec env rollback) (ask r) v fun _ v' => v' = v := by
  refine Ensures.call fun out v' hexec => ?_
  have hsame : Exec v.db (.request r) out v'.db ∧ v'.plans = v.plans := by
    cases r <;> first | exact hexec | cases h
  obtain ⟨hdb, hplans⟩ := hsame
  have hdb' : v'.db = v.db := by
    cases out with
    | error e => exact hdb
    | ok x => exact hdb.2
  cases v'
  cases v
  simp only at hdb' hplans
  rw [hdb', hplans]

/-- A statement that reads. -/
theorem ensures_load (reader : Reader) (id : Str) :
    Ensures (Vault.exec env rollback) (load reader id) v fun out v' => v' = v ∧
      ∀ rot, out = .ok rot → v.db.find id = some rot := by
  have hread : ∀ (r : Except CoreError (Option Rotation)) (v' : Vault),
      Vault.exec env rollback v (.load reader id) r v' →
        v' = v ∧ ∀ row, r = .ok row → row = v.db.find id := by
    rintro r ⟨db', plans'⟩ ⟨hexec, hplans⟩
    cases r with
    | error e =>
        obtain rfl : db' = v.db := hexec
        obtain rfl : plans' = v.plans := hplans
        exact ⟨rfl, fun _ h => by cases h⟩
    | ok x =>
        obtain ⟨hx, hdb⟩ := hexec
        obtain rfl : db' = v.db := hdb
        obtain rfl : plans' = v.plans := hplans
        exact ⟨rfl, fun row h => Except.ok.inj h ▸ hx⟩
  refine (Ensures.call hread).bind (fun row v' h => ?_) fun e v' h => ⟨h.1, fun _ h => by cases h⟩
  obtain ⟨rfl, hrow⟩ := h
  cases row with
  | none => exact ⟨rfl, fun _ h => by cases h⟩
  | some row => exact ⟨rfl, fun rot h => Except.ok.inj h ▸ (hrow _ rfl).symm⟩

/-- The rotation's row is in a state, and the plans are these. -/
def InState (id : Str) (state : RotationState) (plans : Str → Option StoredPlan) (v : Vault) : Prop :=
  v.plans = plans ∧ ∃ row, v.db.find id = some row ∧ row.state = state

theorem find_update {db : Db} {id : Str} {f : Rotation → Rotation} (hf : ∀ r, (f r).id = r.id)
    {row : Rotation} (h : db.find id = some row) : (db.update id f).find id = some (f row) := by
  have hlist : ∀ rows : List Rotation, rows.find? (fun r => decide (r.id = id)) = some row →
      (rows.map fun r => if r.id = id then f r else r).find? (fun r => decide (r.id = id))
        = some (f row) := by
    intro rows
    induction rows with
    | nil => exact fun h => by cases h
    | cons r rest ih =>
        intro h
        rw [List.map_cons]
        by_cases hr : r.id = id
        · rw [List.find?_cons_of_pos (by simpa using hr)] at h
          obtain rfl := Option.some.inj h
          rw [if_pos hr, List.find?_cons_of_pos (by simpa [hf] using hr)]
        · rw [List.find?_cons_of_neg (by simpa using hr)] at h
          rw [if_neg hr, List.find?_cons_of_neg (by simpa using hr)]
          exact ih h
  exact hlist db.rotations h

/-- The end of a swap with its event: the state is swapped, or the swap failed and nothing changed. -/
theorem ensures_setState {id : Str} {fromState toState : RotationState}
    {plans : Str → Option StoredPlan} (h : InState id fromState plans v) (detail : Str) :
    Ensures (Vault.exec env rollback) (setState id fromState toState detail) v fun out v' =>
      InState id toState plans v' ∨ (∃ e, out = .error e) ∧ v' = v := by
  obtain ⟨hplans, row, hrow, hstate⟩ := h
  have hswap : ∀ (r : Except CoreError Bool) (v' : Vault),
      Vault.exec env rollback v (.swapState id fromState toState) r v' →
        (r = .ok true ∧ InState id toState plans v') ∨ (∃ e, r = .error e) ∧ v' = v := by
    rintro r ⟨db', plans'⟩ ⟨hexec, hplans'⟩
    obtain rfl : plans' = v.plans := hplans'
    cases r with
    | error e =>
        obtain rfl : db' = v.db := hexec
        exact .inr ⟨⟨e, rfl⟩, rfl⟩
    | ok swapped =>
        obtain ⟨hany, hdb⟩ := hexec
        obtain rfl : db' = _ := hdb
        refine .inl ⟨?_, hplans, _, find_update (fun r => by split <;> rfl) hrow, ?_⟩
        · have htrue : swapped = true := by
            refine hany.trans (List.any_eq_true.2 ⟨row, List.mem_of_find?_eq_some hrow, ?_⟩)
            have hid : row.id = id := by simpa using List.find?_some hrow
            simp [hid, hstate]
          rw [htrue]
        · rw [if_pos hstate]
  refine (Ensures.call hswap).bind (fun swapped v' h => ?_) fun e v' h => ?_
  · rcases h with ⟨hok, hin⟩ | ⟨⟨e, he⟩, -⟩
    · obtain rfl := Except.ok.inj hok
      refine Ensures.call fun r v'' hexec => .inl ?_
      obtain ⟨hexec, hplans''⟩ := hexec
      obtain ⟨hplans', row', hrow', hstate'⟩ := hin
      refine ⟨hplans''.trans hplans', row', ?_, hstate'⟩
      cases r with
      | error e =>
          have hdb : v''.db = v'.db := hexec
          rw [hdb]
          exact hrow'
      | ok x =>
          rw [hexec.2]
          exact hrow'
    · cases he
  · rcases h with ⟨hok, -⟩ | h
    · cases hok
    · exact .inr ⟨⟨e, rfl⟩, h.2⟩

/-- A recorded error stands in the row. -/
theorem ensures_recordError {id : Str} {state : RotationState} {plans : Str → Option StoredPlan}
    (h : InState id state plans v) (error : Str) :
    Ensures (Vault.exec env rollback) (recordError id error) v fun out v' =>
      InState id state plans v' ∧
        ((∃ u, out = .ok u) → ∃ row, v'.db.find id = some row ∧ row.lastError = error) := by
  refine (ensures_load .helper id).bind (fun current v₁ h₁ => ?_) fun e v₁ h₁ => ?_
  · obtain ⟨rfl, -⟩ := h₁
    obtain ⟨hplans, row, hrow, hstate⟩ := h
    have hset : Ensures (Vault.exec env rollback) (call (.setError id error)) v₁ fun out v' =>
        InState id state plans v' ∧
          ((∃ u, out = .ok u) → ∃ row, v'.db.find id = some row ∧ row.lastError = error) := by
      refine Ensures.call fun r v' hexec => ?_
      obtain ⟨hexec, hplans'⟩ := hexec
      cases r with
      | error e =>
          have hdb : v'.db = v₁.db := hexec
          refine ⟨⟨hplans'.trans hplans, row, hdb ▸ hrow, hstate⟩, ?_⟩
          rintro ⟨u, hu⟩
          cases hu
      | ok x =>
          have hfind : v'.db.find id = some { row with lastError := error } := by
            rw [hexec.2]
            exact find_update (f := fun r => { r with lastError := error }) (fun _ => rfl) hrow
          exact ⟨⟨hplans'.trans hplans, _, hfind, hstate⟩, fun _ => ⟨_, hfind, rfl⟩⟩
    refine hset.bind (fun _ v₂ h₂ => ?_) fun e v₂ h₂ => ⟨h₂.1, ?_⟩
    · obtain ⟨⟨hplans₂, row₂, hrow₂, hstate₂⟩, hrecorded⟩ := h₂
      refine Ensures.call fun r v' hexec => ?_
      obtain ⟨hexec, hplans'⟩ := hexec
      have hfind : v'.db.find id = v₂.db.find id := by
        cases r with
        | error e =>
            have hdb : v'.db = v₂.db := hexec
            rw [hdb]
        | ok x =>
            rw [hexec.2]
            rfl
      refine ⟨⟨hplans'.trans hplans₂, row₂, hfind.trans hrow₂, hstate₂⟩, fun _ => ?_⟩
      rw [hfind]
      exact hrecorded ⟨_, rfl⟩
    · rintro ⟨u, hu⟩
      cases hu
  · obtain ⟨rfl, -⟩ := h₁
    refine ⟨h, ?_⟩
    rintro ⟨u, hu⟩
    cases hu

/-! ## The parts of a rollback -/

theorem ensures_ask_bind {r : Request} {β : Type} {f : r.Answer → Prog β}
    {post : Except CoreError β → Vault → Prop} (h : r.outside = true)
    (hok : ∀ x, Ensures (Vault.exec env rollback) (f x) v post)
    (herr : ∀ e, post (.error e) v) : Ensures (Vault.exec env rollback) (ask r >>= f) v post :=
  (ensures_ask h).bind (fun x _ hv => hv ▸ hok x) fun e _ hv => hv ▸ herr e

theorem ensures_attempt_bind {r : Request} {β : Type} {f : Except CoreError r.Answer → Prog β}
    {post : Except CoreError β → Vault → Prop} (h : r.outside = true)
    (hok : ∀ x, Ensures (Vault.exec env rollback) (f x) v post) :
    Ensures (Vault.exec env rollback) ((ask r).attempt >>= f) v post := by
  have hattempt : Ensures (Vault.exec env rollback) (ask r).attempt v fun out v' =>
      v' = v ∧ ∃ x, out = .ok x :=
    Ensures.attempt ((ensures_ask h).mono fun x _ hv => ⟨hv, x, rfl⟩)
  refine hattempt.bind (fun x _ hv => hv.1 ▸ hok x) fun e _ hv => ?_
  obtain ⟨-, x, hx⟩ := hv
  cases hx

/-- A part that leaves the vault alone and forgets no failure. -/
def Counts (n : Notes) (v : Vault) (out : Except CoreError Notes) (v' : Vault) : Prop :=
  v' = v ∧ ∀ n', out = .ok n' → n'.failures = 0 → n.failures = 0

theorem counts_note (n : Notes) (text : Str) : Counts n v (.ok (n.note text)) v := by
  refine ⟨rfl, fun n' h hzero => ?_⟩
  obtain rfl := Except.ok.inj h
  exact hzero

theorem counts_failed (n : Notes) (text : Str) : Counts n v (.ok (n.failed text)) v := by
  refine ⟨rfl, fun n' h hzero => ?_⟩
  obtain rfl := Except.ok.inj h
  exact absurd hzero (Nat.succ_ne_zero _)

theorem counts_same (n : Notes) : Counts n v (.ok n) v :=
  ⟨rfl, fun _ h hzero => Except.ok.inj h ▸ hzero⟩

theorem counts_error (n : Notes) (e : CoreError) : Counts n v (.error e) v :=
  ⟨rfl, fun _ h => by cases h⟩

theorem ensures_reenableOld (rot : Rotation) (n : Notes) :
    Ensures (Vault.exec env rollback) (reenableOld env rot n) v (Counts n v) := by
  unfold reenableOld
  split
  · refine ensures_ask_bind rfl (fun _ => ?_) fun e => counts_error n e
    split_ifs
    · refine ensures_attempt_bind rfl fun done => ?_
      cases done with
      | ok d => exact counts_note n _
      | error e => exact counts_failed n _
    · exact counts_same n
  · exact counts_same n

theorem ensures_restoreValue (rot : Rotation) (oldVersion current : Int) (decrypted : Bool)
    (n : Notes) :
    Ensures (Vault.exec env rollback) (restoreValue rot oldVersion current decrypted n) v
      (Counts n v) := by
  unfold restoreValue
  split_ifs
  · exact ensures_ask_bind rfl (fun _ => counts_note n _) fun e => counts_error n e
  · exact counts_note n _

theorem ensures_revokeNew (rot : Rotation) (revokeNewKey : Bool) (n : Notes) :
    Ensures (Vault.exec env rollback) (revokeNew env rot revokeNewKey n) v (Counts n v) := by
  unfold revokeNew
  split
  · refine ensures_ask_bind rfl (fun _ => ?_) fun e => counts_error n e
    refine ensures_ask_bind rfl (fun _ => ?_) fun e => counts_error n e
    refine ensures_attempt_bind rfl fun done => ?_
    cases done with
    | ok d => exact ensures_attempt_bind rfl fun _ => counts_note n _
    | error e => exact counts_failed n _
  · exact counts_same n

/-- The rotation's plan, if it has one, was rolled back with success. -/
def PlanRolledBack (env : Env) (rollback : PlanAnswers) (rot : Rotation)
    (plans plans' : Str → Option StoredPlan) : Prop :=
  ∀ planId, rot.syncPlanId = some planId → ∃ plan plan' status, plans planId = some plan ∧
    plans' planId = some plan' ∧ syncPlanRollback env.showError rollback plan = (.ok status, plan')

theorem ensures_restoreDestinations (rot : Rotation) (n : Notes) :
    Ensures (Vault.exec env rollback) (restoreDestinations env rot n) v fun out v' =>
      v'.db = v.db ∧ ∀ n', out = .ok n' → n'.failures = 0 →
        n.failures = 0 ∧ PlanRolledBack env rollback rot v.plans v'.plans := by
  unfold restoreDestinations
  split
  · rename_i hnone
    refine ⟨rfl, fun n' h hzero => ⟨Except.ok.inj h ▸ hzero, fun planId hplan => ?_⟩⟩
    rw [hnone] at hplan
    cases hplan
  · rename_i planId hsome
    have hrun : Ensures (Vault.exec env rollback) (ask (.syncPlanRollback planId)).attempt v
        fun out v' => v'.db = v.db ∧ ∃ r, out = .ok r ∧
          (r = .ok () → PlanRolledBack env rollback rot v.plans v'.plans) := by
      refine Ensures.attempt (Ensures.call fun r v' hexec => ?_)
      unfold Vault.exec at hexec
      cases hplan : v.plans planId with
      | none =>
          simp only [hplan] at hexec
          obtain ⟨⟨e, rfl⟩, rfl⟩ := hexec
          exact ⟨rfl, _, rfl, fun h => by cases h⟩
      | some plan =>
          simp only [hplan] at hexec
          obtain ⟨rfl, rfl⟩ := hexec
          refine ⟨rfl, _, rfl, fun h planId' hplan' => ?_⟩
          obtain rfl := Option.some.inj (hsome.symm.trans hplan')
          cases hout : syncPlanRollback env.showError rollback plan with
          | mk out plan' =>
              rw [hout] at h
              cases out with
              | error e => cases h
              | ok status =>
                  refine ⟨plan, plan', status, hplan, ?_, hout⟩
                  show Function.update v.plans planId _ planId = _
                  rw [Function.update_self]
    refine hrun.bind (fun done v' h => ?_) fun e v' h => ?_
    · obtain ⟨hdb, r, hr, hdone⟩ := h
      obtain rfl := Except.ok.inj hr
      cases done with
      | ok u =>
          refine ⟨hdb, fun n' h hzero => ?_⟩
          obtain rfl := Except.ok.inj h
          exact ⟨hzero, hdone rfl⟩
      | error e =>
          refine ⟨hdb, fun n' h hzero => ?_⟩
          obtain rfl := Except.ok.inj h
          exact absurd hzero (Nat.succ_ne_zero _)
    · obtain ⟨-, r, hr, -⟩ := h
      cases hr

/-- Where the end of a rollback leaves the rotation. -/
inductive Finished (id : Str) (n : Notes) (plans : Str → Option StoredPlan)
    (out : Except CoreError Unit) (v' : Vault) : Prop where
  | rolledBack (hin : InState id .rolledBack plans v') (hzero : n.failures = 0)
  | manual (hin : InState id .manualRequired plans v')
      (hrecorded : (∃ u, out = .ok u) → ∃ row, v'.db.find id = some row ∧ row.lastError ≠ [])
  | rolling (hin : InState id .rollingBack plans v') (herr : ∃ e, out = .error e)

theorem ensures_finishRollback {id : Str} {plans : Str → Option StoredPlan}
    (h : InState id .rollingBack plans v) (n : Notes) :
    Ensures (Vault.exec env rollback) (finishRollback id n) v (Finished id n plans) := by
  unfold finishRollback
  split_ifs with hfailures
  · refine (ensures_setState h _).bind (fun _ v₁ h₁ => ?_) fun e v₁ h₁ => ?_
    · rcases h₁ with h₁ | ⟨⟨e, he⟩, -⟩
      · refine (ensures_recordError h₁ _).mono fun out v' h' => .manual h'.1 fun hout => ?_
        obtain ⟨row, hrow, herror⟩ := h'.2 hout
        refine ⟨row, hrow, ?_⟩
        rw [herror]
        simp
      · cases he
    · rcases h₁ with h₁ | ⟨-, rfl⟩
      · refine .manual h₁ ?_
        rintro ⟨u, hu⟩
        cases hu
      · exact .rolling h ⟨e, rfl⟩
  · refine (ensures_setState h _).mono fun out v' h' => ?_
    rcases h' with h' | ⟨herr, rfl⟩
    · exact .rolledBack h' (Nat.eq_zero_of_not_pos hfailures)
    · exact .rolling h herr

/-- A rotation that is not rolled back ends with its failures recorded, or with an error from which the
    rollback can be called again. -/
def Recorded (out : Except CoreError Rotation) (row : Rotation) : Prop :=
  match out with
  | .ok _ => row.state = .manualRequired ∧ row.lastError ≠ []
  | .error _ => row.state ≠ .completed

/-- The end of a rollback. -/
def Ended (env : Env) (rollback : PlanAnswers) (rot : Rotation) (plans : Str → Option StoredPlan)
    (out : Except CoreError Rotation) (v' : Vault) : Prop :=
  ∃ row, v'.db.find rot.id = some row ∧
    (row.state = .rolledBack → PlanRolledBack env rollback rot plans v'.plans) ∧
    (row.state ≠ .rolledBack → Recorded out row)

theorem ended_of_rolling {rot : Rotation} {plans plans' : Str → Option StoredPlan}
    (h : InState rot.id .rollingBack plans' v) (e : CoreError) :
    Ended env rollback rot plans (.error e) v := by
  obtain ⟨-, row, hrow, hstate⟩ := h
  refine ⟨row, hrow, fun hback => ?_, fun _ => ?_⟩
  · rw [hstate] at hback
    cases hback
  · show row.state ≠ .completed
    rw [hstate]
    exact fun h => by cases h

theorem ensures_rolledBackFrom {rot : Rotation} (h : InState rot.id .rollingBack v.plans v)
    (oldVersion current : Int) (decrypted revokeNewKey : Bool) :
    Ensures (Vault.exec env rollback) (rolledBackFrom env rot oldVersion current decrypted revokeNewKey)
      v (Ended env rollback rot v.plans) := by
  refine (ensures_reenableOld rot _).bind (fun n v₁ h₁ => ?_) fun e v₁ h₁ => ?_
  rotate_left
  · obtain ⟨rfl, -⟩ := h₁
    exact ended_of_rolling h e
  obtain ⟨rfl, -⟩ := h₁
  refine (ensures_restoreValue rot oldVersion current decrypted n).bind (fun n₂ v₂ h₂ => ?_)
    fun e v₂ h₂ => ?_
  rotate_left
  · obtain ⟨rfl, -⟩ := h₂
    exact ended_of_rolling h e
  obtain ⟨rfl, -⟩ := h₂
  refine (ensures_restoreDestinations rot n₂).bind (fun n₃ v₃ h₃ => ?_) fun e v₃ h₃ => ?_
  rotate_left
  · obtain ⟨-, row, hrow, hstate⟩ := h
    exact ended_of_rolling ⟨rfl, row, h₃.1 ▸ hrow, hstate⟩ e
  obtain ⟨hdb, hdone⟩ := h₃
  have hrolling : InState rot.id .rollingBack v₃.plans v₃ := by
    obtain ⟨-, row, hrow, hstate⟩ := h
    exact ⟨rfl, row, hdb ▸ hrow, hstate⟩
  refine (ensures_revokeNew rot revokeNewKey n₃).bind (fun n₄ v₄ h₄ => ?_) fun e v₄ h₄ => ?_
  rotate_left
  · obtain ⟨rfl, -⟩ := h₄
    exact ended_of_rolling hrolling e
  obtain ⟨rfl, hcount⟩ := h₄
  -- With no failure counted, the plan was rolled back.
  have hrolled : n₄.failures = 0 → PlanRolledBack env rollback rot v₂.plans v₄.plans := fun hzero =>
    (hdone n₃ rfl (hcount n₄ rfl hzero)).2
  have hmanual : ∀ (out : Except CoreError Rotation) (v' : Vault) (row : Rotation),
      v'.db.find rot.id = some row → row.state = .manualRequired → row.lastError ≠ [] →
        Ended env rollback rot v₂.plans out v' := by
    intro out v' row hrow hstate herror
    refine ⟨row, hrow, fun hback => ?_, fun _ => ?_⟩
    · rw [hstate] at hback
      cases hback
    · cases out with
      | ok view => exact ⟨hstate, herror⟩
      | error e =>
          show row.state ≠ .completed
          rw [hstate]
          exact fun h => by cases h
  have hback : ∀ (out : Except CoreError Rotation) (v' : Vault),
      InState rot.id .rolledBack v₄.plans v' → n₄.failures = 0 →
        Ended env rollback rot v₂.plans out v' := by
    rintro out v' ⟨hplans, row, hrow, hstate⟩ hzero
    exact ⟨row, hrow, fun _ => hplans ▸ hrolled hzero, fun hne => absurd hstate hne⟩
  refine (ensures_finishRollback hrolling n₄).bind (fun u v₅ h₅ => ?_) fun e v₅ h₅ => ?_
  · have hend : ∀ out, Ended env rollback rot v₂.plans out v₅ := by
      intro out
      cases h₅ with
      | rolledBack hin hzero => exact hback out v₅ hin hzero
      | manual hin hrecorded =>
          obtain ⟨-, row, hrow, hstate⟩ := hin
          obtain ⟨row', hrow', herror⟩ := hrecorded ⟨u, rfl⟩
          obtain rfl := Option.some.inj (hrow.symm.trans hrow')
          exact hmanual out v₅ row hrow hstate herror
      | rolling hin herr =>
          obtain ⟨e, he⟩ := herr
          cases he
    refine ensures_ask_bind rfl (fun _ => ?_) fun e => hend _
    refine ensures_ask_bind rfl (fun _ => ?_) fun e => hend _
    exact (ensures_load .helper rot.id).mono fun out v' h' => h'.1 ▸ hend out
  · cases h₅ with
    | rolledBack hin hzero => exact hback _ v₅ hin hzero
    | manual hin hrecorded =>
        obtain ⟨-, row, hrow, hstate⟩ := hin
        refine ⟨row, hrow, fun hback => ?_, fun _ => ?_⟩
        · rw [hstate] at hback
          cases hback
        · show row.state ≠ .completed
          rw [hstate]
          exact fun h => by cases h
    | rolling hin herr => exact ended_of_rolling hin e

/-- The refusal and the decryption only look. -/
theorem ensures_refuseAttempted (rot : Rotation) :
    Ensures (Vault.exec env rollback) (refuseAttempted rot) v fun _ v' => v' = v := by
  unfold refuseAttempted
  split
  · split_ifs
    · rfl
    · have hread : Ensures (Vault.exec env rollback) (call (.events rot.id)) v fun _ v' => v' = v := by
        refine Ensures.call fun r v' hexec => ?_
        obtain ⟨db', plans'⟩ := v'
        obtain ⟨hexec, hplans⟩ := hexec
        obtain rfl : plans' = v.plans := hplans
        cases r with
        | error e =>
            obtain rfl : db' = v.db := hexec
            rfl
        | ok x =>
            obtain rfl : db' = v.db := hexec.2
            rfl
      have hattempted : ∀ key, Ensures (Vault.exec env rollback) (revokeWasAttempted rot.id key) v
          fun _ v' => v' = v := fun key =>
        hread.bind (fun log v' hv => hv) fun e v' hv => hv
      refine (hattempted _).bind (fun attempted v' hv => ?_) fun e v' hv => hv
      split_ifs
      · exact hv
      · exact hv
  · rfl

theorem ensures_decryptOld (rot : Rotation) (oldVersion current : Int) :
    Ensures (Vault.exec env rollback) (decryptOld rot oldVersion current) v fun _ v' => v' = v := by
  unfold decryptOld
  split_ifs
  · exact ensures_ask_bind rfl (fun _ => rfl) fun _ => rfl
  · rfl

/-- A rotation that a rollback leaves rolled back has its destinations restored exactly when every step
    that holds the new value is executed and can be written back; any other end is recorded or can be
    retried, and a finished rotation is refused. -/
theorem rolled_back_restores (env : Env) (rollback : PlanAnswers) {v : Vault} {id : Str}
    {row : Rotation} (hrow : v.db.find id = some row) (revokeNewKey : Bool) :
    Ensures (Vault.exec env rollback) (rotationRollback env id revokeNewKey) v fun out v' =>
      (row.state = .completed ∨ row.state = .rolledBack → (∃ e, out = .error e) ∧ v' = v) ∧
      (row.state ≠ .completed → row.state ≠ .rolledBack → ∃ row', v'.db.find id = some row' ∧
        (row'.state = .rolledBack →
          (DestinationsRestored row v v' ↔ DestinationsRestorable row v rollback)) ∧
        (row'.state ≠ .rolledBack → Recorded out row')) := by
  have hid : row.id = id := by simpa using List.find?_some hrow
  have hrefused : ∀ e : CoreError,
      (row.state = .completed ∨ row.state = .rolledBack →
        (∃ e', (.error e : Except CoreError Rotation) = .error e') ∧ v = v) ∧
      (row.state ≠ .completed → row.state ≠ .rolledBack → ∃ row', v.db.find id = some row' ∧
        (row'.state = .rolledBack →
          (DestinationsRestored row v v ↔ DestinationsRestorable row v rollback)) ∧
        (row'.state ≠ .rolledBack → Recorded (.error e) row')) := by
    intro e
    refine ⟨fun _ => ⟨⟨e, rfl⟩, rfl⟩, fun hopen hback => ⟨row, hrow, fun h => absurd h hback, fun _ => ?_⟩⟩
    exact hopen
  refine ensures_ask_bind rfl (fun _ => ?_) hrefused
  refine (ensures_load .operation id).bind (fun rot v₁ h₁ => ?_) fun e v₁ h₁ => ?_
  rotate_left
  · obtain ⟨rfl, -⟩ := h₁
    exact hrefused e
  obtain ⟨rfl, hrot⟩ := h₁
  obtain rfl := Option.some.inj (hrow.symm.trans (hrot rot rfl))
  split
  · exact hrefused _
  refine (ensures_refuseAttempted row).bind (fun _ v₂ h₂ => ?_) fun e v₂ h₂ => ?_
  rotate_left
  · obtain rfl := h₂
    exact hrefused e
  obtain rfl := h₂
  split_ifs with hfinished
  · exact hrefused _
  · split
    · exact hrefused _
    · rename_i oldVersion hold
      refine ensures_ask_bind rfl (fun current => ?_) hrefused
      refine (ensures_decryptOld row oldVersion current).bind (fun decrypted v₃ h₃ => ?_)
        fun e v₃ h₃ => ?_
      rotate_left
      · obtain rfl := h₃
        exact hrefused e
      obtain rfl := h₃
      have hin : InState row.id row.state v₃.plans v₃ := ⟨rfl, row, hid ▸ hrow, rfl⟩
      have hend : ∀ out v', Ended env rollback row v₃.plans out v' →
          (row.state = .completed ∨ row.state = .rolledBack → (∃ e, out = .error e) ∧ v' = v₃) ∧
          (row.state ≠ .completed → row.state ≠ .rolledBack → ∃ row', v'.db.find id = some row' ∧
            (row'.state = .rolledBack →
              (DestinationsRestored row v₃ v' ↔ DestinationsRestorable row v₃ rollback)) ∧
            (row'.state ≠ .rolledBack → Recorded out row')) := by
        rintro out v' ⟨row', hrow', hrolled, hrecorded⟩
        refine ⟨fun h => absurd h hfinished, fun _ _ => ⟨row', hid ▸ hrow', fun hback => ?_, hrecorded⟩⟩
        have hdone := hrolled hback
        constructor
        · intro hrestored planId plan old hplanId hold' hplan
          obtain ⟨plan₁, plan', status, hplan₁, hplan', hrun⟩ := hdone planId hplanId
          obtain rfl := Option.some.inj (hplan₁.symm.trans hplan)
          exact (syncPlanRollback_restores hrun old).1
            (hrestored planId plan₁ plan' old hplanId hold' hplan hplan')
        · intro hrestorable planId plan plan' old hplanId hold' hplan hplan'
          obtain ⟨plan₁, plan₂, status, hplan₁, hplan₂, hrun⟩ := hdone planId hplanId
          obtain rfl := Option.some.inj (hplan₁.symm.trans hplan)
          obtain rfl := Option.some.inj (hplan₂.symm.trans hplan')
          exact (syncPlanRollback_restores hrun old).2 (hrestorable planId plan₁ old hplanId hold' hplan)
      refine (ensures_setState hin _).bind (fun _ v₄ h₄ => ?_) fun e v₄ h₄ => ?_
      · rcases h₄ with ⟨hplans, row', hrow', hstate'⟩ | ⟨⟨e, he⟩, -⟩
        · have hrolling : InState row.id .rollingBack v₄.plans v₄ := ⟨rfl, row', hrow', hstate'⟩
          refine (ensures_rolledBackFrom hrolling oldVersion current decrypted revokeNewKey).mono
            fun out v' h => hend out v' ?_
          rwa [hplans] at h
        · cases he
      · rcases h₄ with h₄ | ⟨-, rfl⟩
        · exact hend _ _ (ended_of_rolling h₄ e)
        · exact hrefused e

/-! ## A write that was not verified -/

/-- The replies of a process alone, where a plan finds the given answers. -/
def alone (env : Env) (answers : (r : Request) → r.Answer) (execute rollback : PlanAnswers)
    (v : Vault) : (a : Action) → Except CoreError (Answer a) × Vault
  | .request (.syncPlanCreate _) => (.error .busy, v)
  | .request (.syncPlanExecute planId) =>
      match v.plans planId with
      | none => (.error (.notFound "sync plan" planId), v)
      | some plan =>
          ((syncPlanExecute env.showError execute plan).1.map fun s => ⟨s = .executed, s.name⟩,
           v.setPlan planId (syncPlanExecute env.showError execute plan).2)
  | .request (.syncPlanRollback planId) =>
      match v.plans planId with
      | none => (.error (.notFound "sync plan" planId), v)
      | some plan =>
          ((syncPlanRollback env.showError rollback plan).1.map fun _ => (),
           v.setPlan planId (syncPlanRollback env.showError rollback plan).2)
  | a =>
      match a.reply answers v.db with
      | some (x, db) => (.ok x, { v with db })
      | none => (.error .busy, v)

theorem exec_alone (env : Env) (answers : (r : Request) → r.Answer) (execute rollback : PlanAnswers)
    (v : Vault) (a : Action) :
    Vault.exec env rollback v a (alone env answers execute rollback v a).1
      (alone env answers execute rollback v a).2 := by
  have hother : ∀ a : Action, Exec v.db a
      (match a.reply answers v.db with
        | some (x, db) => ((.ok x, { v with db }) : Except CoreError (Answer a) × Vault)
        | none => (.error .busy, v)).1
      (match a.reply answers v.db with
        | some (x, db) => ((.ok x, { v with db }) : Except CoreError (Answer a) × Vault)
        | none => (.error .busy, v)).2.db ∧
      (match a.reply answers v.db with
        | some (x, db) => ((.ok x, { v with db }) : Except CoreError (Answer a) × Vault)
        | none => (.error .busy, v)).2.plans = v.plans := by
    intro a
    cases h : a.reply answers v.db with
    | none => exact ⟨rfl, rfl⟩
    | some x => exact ⟨@exec_reply env answers v.db a x h, rfl⟩
  cases a with
  | request r =>
      cases r with
      | syncPlanCreate credentialId => exact ⟨rfl, rfl⟩
      | syncPlanExecute planId =>
          dsimp only [Vault.exec, alone]
          cases hplan : v.plans planId with
          | none => exact ⟨⟨_, rfl⟩, rfl⟩
          | some plan => exact ⟨execute, rfl, rfl⟩
      | syncPlanRollback planId =>
          dsimp only [Vault.exec, alone]
          cases hplan : v.plans planId with
          | none => exact ⟨⟨_, rfl⟩, rfl⟩
          | some plan => exact ⟨rfl, rfl⟩
      | _ => exact hother _
  | _ => exact hother _

/-- Destinations that take every write and return it, but for what a step reads back. -/
def destinations (readsBack : Nat → Bool) : PlanAnswers where
  verifyMasterPassword := .ok ()
  loadPlan := .ok ()
  valueVersionOf := .ok 2
  decryptCredentialVersion := .ok ()
  credentialRow := .ok true
  step i :=
    { getDestination := .ok (), destinationAdapter := .ok (), write := .ok "written".toList,
      read := .ok (some "value".toList), fingerprint := .ok (readsBack i), existsName := .ok (some true),
      recordSync := .ok (), markStepVerified := .ok (),
      rewrite := ⟨.ok none, true, .ok ([], true), .ok [], .ok (), .ok ()⟩, updateStep := .ok () }
  updatePlanStatus := .ok ()
  audit := .ok ()
  syncPlanGet := .ok ()

/-- The credential is at the version that the rotation stored. -/
def storedAnswers : (r : Request) → r.Answer
  | .valueVersionOf _ => (2 : Int)
  | r => plainAnswers r

/-- A rotation that has created its plan, of two destinations. -/
def updating : Vault where
  db := ⟨[{ id := "r1".toList, credentialId := "c1".toList, provider := "openai".toList,
            state := .updatingDestinations, mode := .apiCreate, createdAt := 0, approvedAt := some 0,
            oldVersion := some 1, newVersion := some 2, syncPlanId := some "plan-1".toList,
            graceMinutes := 0, graceEndsAt := none, oldProviderKeyId := none,
            newProviderKeyId := some "new-key".toList, newValueValidated := false,
            oldDisabledAt := none, oldRevokedAt := none, lastError := [] }], []⟩
  plans planId :=
    if planId = "plan-1".toList then
      some ⟨"plan-1".toList, "c1".toList, some 1, 2, .planned,
        [⟨"d1".toList, "KEY".toList, .write, .planned, [], fun _ => none⟩,
         ⟨"d2".toList, "KEY".toList, .write, .planned, [], fun _ => none⟩]⟩
    else none

/-- An advance executes the plan; what the second destination reads back is something else. -/
def drifted : Vault :=
  ((rotationAdvance revokeOnly "r1".toList none false).run
    (alone revokeOnly storedAnswers (destinations fun i => i = 0) (destinations fun _ => true))
    updating).2

/-- Then the rotation is rolled back. -/
def rolledBack : Vault :=
  ((rotationRollback revokeOnly "r1".toList false).run
    (alone revokeOnly storedAnswers (destinations fun _ => true) (destinations fun _ => true))
    drifted).2

/-- A plan that was executed: its destination holds the new value. -/
def verifiedPlan : StoredPlan :=
  ⟨"plan-1".toList, "c1".toList, some 1, 2, .executed,
    [⟨"d1".toList, "KEY".toList, .write, .executed, [],
      fun name => if name = "KEY".toList then some 2 else none⟩]⟩

def verified : Vault :=
  { updating with plans := fun planId => if planId = "plan-1".toList then some verifiedPlan else none }

/-- What the second step of a vault's plan holds under its name, and the version it deploys. -/
def secondStep (v : Vault) : Option (Option Int × Int) :=
  (v.plans "plan-1".toList).bind fun plan => plan.steps[1]?.map fun s =>
    (s.holds "KEY".toList, plan.toVersion)

theorem plan_of_secondStep {v : Vault} {held : Option Int} {new : Int}
    (h : secondStep v = some (held, new)) : ∃ plan s, v.plans "plan-1".toList = some plan ∧
      plan.steps[1]? = some s ∧ s.holds "KEY".toList = held ∧ plan.toVersion = new := by
  obtain ⟨plan, hplan, hstep⟩ := Option.bind_eq_some_iff.1 h
  obtain ⟨s, hs, hheld⟩ := Option.map_eq_some_iff.1 hstep
  obtain ⟨hheld, hnew⟩ := Prod.mk.inj hheld
  exact ⟨plan, s, hplan, hs, hheld, hnew⟩

/-- The rotation ends rolled back, and the second destination keeps the new value. -/
theorem drifted_write_kept :
    ∃ row row', drifted.db.find "r1".toList = some row ∧ rolledBack.db.find "r1".toList = some row' ∧
      row'.state = .rolledBack ∧ ¬DestinationsRestored row drifted rolledBack := by
  obtain ⟨row, hrow, hfields⟩ := Option.map_eq_some_iff.1 (by decide :
    (drifted.db.find "r1".toList).map (fun row => (row.syncPlanId, row.oldVersion))
      = some (some "plan-1".toList, some 1))
  obtain ⟨row', hrow', hstate⟩ := Option.map_eq_some_iff.1 (by decide :
    (rolledBack.db.find "r1".toList).map Rotation.state = some .rolledBack)
  obtain ⟨hplanId, hold⟩ := Prod.mk.inj hfields
  obtain ⟨plan, s, hplan, hs, hheld, hnew⟩ := plan_of_secondStep (by decide :
    secondStep drifted = some (some 2, 2))
  obtain ⟨plan', s', hplan', hs', hheld', -⟩ := plan_of_secondStep (by decide :
    secondStep rolledBack = some (some 2, 2))
  refine ⟨row, row', hrow, hrow', hstate, fun hrestored => ?_⟩
  have hback := hrestored _ _ _ _ hplanId hold hplan hplan' 1 s s' hs hs' "KEY".toList
    (hheld.trans (congrArg some hnew.symm)) (by rw [hnew]; decide)
  rw [hheld'] at hback
  cases hback

/-- When the write was verified, the rotation ends rolled back and its destination is restored. -/
theorem rolled_back_restores_one :
    ∃ row row' v', verified.db.find "r1".toList = some row ∧ v'.db.find "r1".toList = some row' ∧
      row'.state = .rolledBack ∧ DestinationsRestored row verified v' := by
  let handler := alone revokeOnly storedAnswers (destinations fun _ => true) (destinations fun _ => true)
  let v' := ((rotationRollback revokeOnly "r1".toList false).run handler verified).2
  obtain ⟨row, hrow, hfields⟩ := Option.map_eq_some_iff.1 (by decide :
    (verified.db.find "r1".toList).map (fun row => (row.syncPlanId, row.oldVersion, row.state))
      = some (some "plan-1".toList, some 1, .updatingDestinations))
  obtain ⟨row', hrow', hstate⟩ := Option.map_eq_some_iff.1 (by decide :
    (v'.db.find "r1".toList).map Rotation.state = some .rolledBack)
  simp only [Prod.mk.injEq] at hfields
  obtain ⟨hplanId, hold, hupdating⟩ := hfields
  have hend := (rolled_back_restores revokeOnly (destinations fun _ => true) hrow false).run
    (exec_alone revokeOnly storedAnswers (destinations fun _ => true) (destinations fun _ => true))
  obtain ⟨row'', hrow'', hiff, -⟩ := hend.2 (by rw [hupdating]; decide) (by rw [hupdating]; decide)
  obtain rfl : row' = row'' := Option.some.inj (hrow'.symm.trans hrow'')
  refine ⟨row, row', v', hrow, hrow', hstate, (hiff hstate).2 ?_⟩
  intro planId plan old hplanId' hold' hplan
  obtain rfl := Option.some.inj (hplanId.symm.trans hplanId')
  obtain rfl := Option.some.inj (hold.symm.trans hold')
  obtain rfl : verifiedPlan = plan := Option.some.inj hplan
  intro i s hs name hname hne
  refine ⟨1, rfl, ?_⟩
  cases i with
  | zero =>
      obtain rfl := Option.some.inj hs
      have hname' : (if name = "KEY".toList then some (2 : Int) else none) = some 2 := hname
      split_ifs at hname' with hkey
      exact ⟨rfl, rfl, hkey⟩
  | succ i => cases hs

end Tethra.Rotations
