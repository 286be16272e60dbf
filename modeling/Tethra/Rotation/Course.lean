import Tethra.Rotation.Discipline

set_option autoImplicit false

/-! # What the operations do to the value and to the end of a rotation

A second discipline of the same operations: which row a completion, a cancel, a validation or a store
rests on, in which order a store reads and records the versions, and that only a rollback that was
entered writes the old value back. -/

namespace Tethra.Rotations

open Interleave

/-- The rotation is past its way forward: it ends, or goes backward. -/
def RotationState.turned : RotationState → Bool
  | .completed | .failed | .rollingBack | .rolledBack | .manualRequired => true
  | _ => false

/-- The states from which an advance stores a replacement. -/
def RotationState.stores : RotationState → Bool
  | .approved | .creatingInProgress | .awaitingManualKey => true
  | _ => false

/-- The states in flight behind the store of a replacement. -/
def RotationState.afterStore : RotationState → Bool
  | .replacementStored | .updatingDestinations | .destinationsVerified | .gracePeriod | .oldDisabled
  | .rollingBack | .manualRequired => true
  | _ => false

/-- The statements of a store that a process has behind it. -/
inductive Storing where
  | idle
  /-- No replacement is recorded in the row. -/
  | checked
  | read (old : Int)
  | replaced (old : Int)
  | reread (old new : Int)
  deriving DecidableEq

def Storing.check (unrecorded : Bool) : Storing → Storing
  | .idle | .checked => if unrecorded then .checked else .idle
  | s => s

/-- The version was read, or the read failed. -/
def Storing.readVersion : Option Int → Storing → Storing
  | some v, .checked | some v, .read _ => .read v
  | some v, .replaced old | some v, .reread old _ => .reread old v
  | _, _ => .idle

def Storing.replace (done : Bool) : Storing → Storing
  | .read old => if done then .replaced old else .idle
  | _ => .idle

/-- What a process has decided on, and what it did to the value since. -/
structure Course where
  /-- The id that was asked for. -/
  asked : Str
  /-- The row that the operation decides on. -/
  row : Option Rotation
  /-- The row was loaded by the loop of an advance. -/
  advancing : Bool
  /-- The rollback of the row was entered. -/
  entered : Bool
  storing : Storing
  /-- The row was found with its replacement recorded, or the process has recorded it. -/
  recorded : Bool
  /-- The rotations for which the vault value was asked to be replaced. -/
  changed : List Str
  /-- The rotations whose rollback wrote to the vault or to the destinations. -/
  restored : List Str

def Course.start : Course := ⟨[], none, false, false, .idle, false, [], []⟩

/-- The id of the row that the operation decides on. -/
def Course.rowIds (k : Course) : List Str := k.row.toList.map Rotation.id

def Course.next (k : Course) : (a : Action) → Except CoreError (Answer a) → Course
  | .load .advance id, .ok (some row) =>
      { k with asked := id, row := some row, advancing := true, entered := false, storing := .idle,
               recorded := row.newVersion.isSome }
  | .load .operation id, .ok row =>
      { k with asked := id, row, advancing := false, entered := false, storing := .idle,
               recorded := row.any fun row => row.newVersion.isSome }
  | .load .helper id, .ok (some fresh) =>
      { k with storing := k.storing.check (fresh.newVersion.isNone && k.rowIds.contains id),
               recorded := k.recorded || (fresh.newVersion.isSome && k.rowIds.contains id) }
  | .swapState _ _ .rollingBack, .ok true => { k with entered := true }
  | .setVersions id _ _, x =>
      { k with storing := .idle, recorded := k.recorded || (x.isOk && k.rowIds.contains id) }
  | .request (.valueVersionOf _), v => { k with storing := k.storing.readVersion v.toOption }
  -- The value may have changed behind an error too.
  | .request (.replaceCredentialValue _), x =>
      { k with storing := k.storing.replace (k.advancing && x.isOk), changed := k.changed ++ k.rowIds,
               restored := k.restored ++ if k.advancing then [] else k.rowIds }
  | .request (.syncPlanRollback _), _ => { k with restored := k.restored ++ k.rowIds }
  | _, _ => k

/-- The row is the one that was decided on, under its id or the one that was asked for. -/
def Course.Decided (k : Course) (id : Str) (row : Rotation) : Prop :=
  k.row = some row ∧ (row.id = id ∨ k.asked = id)

/-- What a swap rests on. -/
structure Course.MaySwap (k : Course) (id : Str) (fromState toState : RotationState) : Prop where
  turned : fromState.turned = true → toState.turned = true
  completed : toState = .completed → completesManually fromState = true ∧
    ∃ row, k.Decided id row ∧ row.newValueValidated = true
  failed : toState = .failed → ∃ row, k.Decided id row ∧ k.advancing = false ∧
    row.newVersion = none
  rollingBack : toState = .rollingBack → ∃ row, k.Decided id row ∧
    k.advancing = false ∧ row.oldVersion.isSome = true
  planned : toState ≠ .planned
  /-- A rotation that has ended is taken up by a rollback alone. -/
  ended : fromState.inFlight = false →
    fromState = .planned ∨ toState.inFlight = false ∨ toState = .rollingBack
  stored : toState.afterStore = true → fromState.afterStore = true ∨
    ∃ row, k.Decided id row ∧ (k.recorded = true ∨ row.oldVersion.isSome = true)

def Course.allowed (k : Course) : Action → Prop
  | .swapState id fromState toState => k.MaySwap id fromState toState
  | .insertRow row => row.state = .planned ∧ row.oldVersion = none ∧ row.newVersion = none ∧
      row.newValueValidated = false
  | .markValidated id => ∃ row, k.Decided id row ∧ row.newVersion.isSome = true
  | .setVersions id old new => ∃ row v, k.Decided id row ∧ k.advancing = true ∧
      row.state.stores = true ∧ k.storing = .reread v new ∧ old = some v ∧ id ∈ k.changed
  | .request (.valueVersionOf credentialId) => ∃ row, k.row = some row ∧
      row.credentialId = credentialId
  | .request (.replaceCredentialValue credentialId) => ∃ row, k.row = some row ∧
      row.credentialId = credentialId ∧ if k.advancing then
        row.state.stores = true ∧ ∃ old, k.storing = .read old
      else k.entered = true
  | .request (.syncPlanRollback _) => k.advancing = false ∧ k.entered = true
  | _ => True

def course : Discipline Answer CoreError Course where
  allowed := Course.allowed
  next := Course.next

/-- The process decides on the row, in an advance or not, with its rollback entered or not. -/
structure Course.At (row : Option Rotation) (advancing entered : Bool) (k : Course) : Prop where
  row : k.row = row
  advancing : k.advancing = advancing
  entered : k.entered = entered

/-- The program does nothing that a particular decision is needed for. -/
abbrev Ordinary {β : Type} (p : Prog β) : Prop :=
  ∀ row advancing entered, Keeps course (Course.At row advancing entered) p

/-! ## Ordinary programs -/

section Ordinary

variable {β γ : Type}

theorem Ordinary.ret (b : β) : Ordinary (.ret b) := fun _ _ _ => Keeps.ret b

theorem Ordinary.throw (e : CoreError) : Ordinary (.throw e : Prog β) := fun _ _ _ => Keeps.throw e

theorem Ordinary.bind {p : Prog β} {f : β → Prog γ} (h : Ordinary p) (hf : ∀ b, Ordinary (f b)) :
    Ordinary (p >>= f) :=
  fun row advancing entered => Keeps.bind (h row advancing entered) fun b => hf b row advancing entered

theorem Ordinary.attempt {p : Prog β} (h : Ordinary p) : Ordinary p.attempt :=
  fun row advancing entered => Keeps.attempt (h row advancing entered)

end Ordinary

/-- The actions that need no particular decision. -/
def Action.ordinary : Action → Bool
  | .load .helper _ => true
  | .load .. => false
  | .swapState _ fromState toState => (!fromState.turned || toState.turned) && toState ≠ .completed &&
      toState ≠ .failed && toState ≠ .rollingBack && toState ≠ .planned &&
      (fromState.inFlight || fromState = .planned) && (!toState.afterStore || fromState.afterStore)
  | .insertRow row => row.state = .planned && row.oldVersion.isNone && row.newVersion.isNone &&
      !row.newValueValidated
  | .markValidated _ | .setVersions .. => false
  | .request (.valueVersionOf _) | .request (.replaceCredentialValue _)
  | .request (.syncPlanRollback _) => false
  | _ => true

theorem ordinary_call {a : Action} (h : a.ordinary = true) : Ordinary (call a) := by
  intro row advancing entered
  refine Keeps.call fun k hk => ⟨?_, fun r => ?_⟩
  · cases a with
    | swapState id fromState toState =>
        simp only [Action.ordinary, Bool.and_eq_true, Bool.or_eq_true, Bool.not_eq_true',
          decide_eq_true_eq] at h
        obtain ⟨⟨⟨⟨⟨⟨hturn, hcompleted⟩, hfailed⟩, hback⟩, hplanned⟩, hfrom⟩, hstored⟩ := h
        refine ⟨fun hturned => ?_, fun h' => absurd h' hcompleted, fun h' => absurd h' hfailed,
          fun h' => absurd h' hback, hplanned, fun hended => .inl ?_, fun hafter => .inl ?_⟩
        · rcases hturn with hfrom | hto
          · rw [hfrom] at hturned
            cases hturned
          · exact hto
        · rcases hfrom with hflight | hfrom
          · rw [hflight] at hended
            cases hended
          · exact hfrom
        · rcases hstored with hnot | hfrom
          · rw [hnot] at hafter
            cases hafter
          · exact hfrom
    | insertRow row =>
        show row.state = .planned ∧ row.oldVersion = none ∧ row.newVersion = none ∧
          row.newValueValidated = false
        simpa [Action.ordinary, and_assoc] using h
    | markValidated id => cases h
    | setVersions id old new => cases h
    | request r => cases r <;> first | trivial | cases h
    | _ => trivial
  · show Course.At row advancing entered (k.next a r)
    unfold Course.next
    split
    all_goals first
      | exact hk
      | exact ⟨hk.row, hk.advancing, hk.entered⟩
      | cases h
      | simp [Action.ordinary] at h

theorem ordinary_ask {r : Request} (h : (Action.request r).ordinary = true) : Ordinary (ask r) :=
  ordinary_call h

theorem ordinary_loadHelper (id : Str) : Ordinary (load .helper id) := by
  refine (ordinary_call rfl).bind fun row => ?_
  cases row with
  | none => exact .throw _
  | some row => exact .ret _

theorem ordinary_rotationGet (id : Str) : Ordinary (rotationGet id) := ordinary_loadHelper id

theorem ordinary_setState {id : Str} {fromState toState : RotationState}
    (h : (Action.swapState id fromState toState).ordinary = true) (detail : Str) :
    Ordinary (setState id fromState toState detail) := by
  refine (ordinary_call h).bind fun swapped => ?_
  cases swapped with
  | false => exact (ordinary_loadHelper id).bind fun _ => .throw _
  | true => exact ordinary_call rfl

theorem ordinary_recordEventNote (id note : Str) : Ordinary (recordEventNote id note) :=
  (ordinary_loadHelper id).bind fun _ => ordinary_call rfl

theorem ordinary_recordError (id error : Str) : Ordinary (recordError id error) :=
  (ordinary_loadHelper id).bind fun _ => (ordinary_call rfl).bind fun _ => ordinary_call rfl

theorem ordinary_stop (id : Str) : Ordinary (stop id) := (ordinary_rotationGet id).bind fun _ => .ret _

theorem ordinary_stopWith (id error : Str) : Ordinary (stopWith id error) :=
  (ordinary_recordError id error).bind fun _ => ordinary_stop id

/-! ## The store -/

/-- The row of an advance, at the statement that its step begins with. -/
def Course.Advances (rot : Rotation) (k : Course) : Prop :=
  k.At (some rot) true false ∧ k.storing = .idle ∧
    (rot.newVersion.isSome = true → k.recorded = true)

/-- The store of the row's rotation has ended; behind a success its replacement is recorded. -/
def Course.HasStored {β : Type} (rot : Rotation) (k : Course) (r : Except CoreError β) : Prop :=
  k.At (some rot) true false ∧ ∀ detail, r = .ok detail → k.recorded = true

theorem Course.At.hasStored_error {β : Type} {k : Course} {rot : Rotation} {e : CoreError}
    (h : k.At (some rot) true false) : k.HasStored rot (.error e : Except CoreError β) :=
  ⟨h, fun _ h => (by cases h)⟩

theorem obeys_storeReplacement {k : Course} {rot : Rotation} (h : k.Advances rot)
    (hstores : rot.state.stores = true) (value : Str) :
    Obeys course (storeReplacement rot value) k fun k' r => k'.HasStored rot r := by
  obtain ⟨hk, hidle, -⟩ := h
  have hids : k.rowIds.contains rot.id = true := by simp [Course.rowIds, hk.row]
  have hcheck : Obeys course (load .helper rot.id) k fun k' r => k'.At (some rot) true false ∧
      ∀ fresh, r = .ok fresh → (fresh.newVersion = none → k'.storing = .checked) ∧
        (fresh.newVersion.isSome = true → k'.recorded = true) := by
    refine Obeys.call_bind trivial (fun row => ?_) fun e => ⟨hk, fun _ h => (by cases h)⟩
    cases row with
    | none => exact ⟨hk, fun _ h => (by cases h)⟩
    | some row =>
        refine ⟨⟨hk.row, hk.advancing, hk.entered⟩, ?_⟩
        rintro fresh ⟨rfl⟩
        refine ⟨fun hnone => ?_, fun hsome => ?_⟩
        · show k.storing.check (row.newVersion.isNone && k.rowIds.contains rot.id) = .checked
          rw [hnone, hids, hidle]
          rfl
        · show (k.recorded || (row.newVersion.isSome && k.rowIds.contains rot.id)) = true
          rw [hsome, hids]
          exact Bool.or_true _
  refine hcheck.bind (fun k₁ fresh h₁ => ?_) fun _ _ h => h.1.hasStored_error
  obtain ⟨hk₁, hchecked⟩ := h₁
  obtain ⟨hchecked, hfound⟩ := hchecked fresh rfl
  split_ifs with hstored hempty
  · exact ⟨hk₁, fun _ _ => hfound hstored⟩
  · exact hk₁.hasStored_error
  · have hchecked := hchecked (by simpa using hstored)
    refine Obeys.call_bind ⟨rot, hk₁.row, rfl⟩ (fun (old : Int) => ?_) fun _ =>
      Course.At.hasStored_error ⟨hk₁.row, hk₁.advancing, hk₁.entered⟩
    -- The version is read, and the value replaced behind it.
    have hread : (course.next k₁ (.request (.valueVersionOf rot.credentialId)) (.ok old)).storing
        = .read old := by
      show k₁.storing.readVersion (some old) = .read old
      rw [hchecked]
      rfl
    refine Obeys.call_bind ⟨rot, hk₁.row, rfl, ?_⟩ (fun _ => ?_) fun _ =>
      Course.At.hasStored_error ⟨hk₁.row, hk₁.advancing, hk₁.entered⟩
    · show if k₁.advancing then _ else _
      rw [hk₁.advancing]
      exact ⟨hstores, old, hread⟩
    refine Obeys.call_bind ⟨rot, hk₁.row, rfl⟩ (fun (new : Int) => ?_) fun _ =>
      Course.At.hasStored_error ⟨hk₁.row, hk₁.advancing, hk₁.entered⟩
    refine Obeys.call_bind ⟨rot, old, ⟨hk₁.row, .inl rfl⟩, hk₁.advancing, hstores, ?_, rfl, ?_⟩
      (fun _ => ⟨⟨hk₁.row, hk₁.advancing, hk₁.entered⟩, fun _ _ => ?_⟩) fun _ =>
      Course.At.hasStored_error ⟨hk₁.row, hk₁.advancing, hk₁.entered⟩
    · show ((k₁.storing.readVersion (some old)).replace (k₁.advancing && true)).readVersion (some new)
        = .reread old new
      rw [hchecked, hk₁.advancing]
      rfl
    · show rot.id ∈ k₁.changed ++ k₁.rowIds
      simp [Course.rowIds, hk₁.row]
    · show (k₁.recorded || (true && k₁.rowIds.contains rot.id)) = true
      simp [Course.rowIds, hk₁.row]

/-- A program whose first statement is at the beginning of an advance's step, with what holds at its
    end. -/
abbrev AdvancingTo {β : Type} (rot : Rotation) (post : Course → Except CoreError β → Prop)
    (p : Prog β) : Prop :=
  ∀ k : Course, k.Advances rot → Obeys course p k post

abbrev Advancing {β : Type} (rot : Rotation) (p : Prog β) : Prop :=
  AdvancingTo rot (fun k' _ => k'.At (some rot) true false) p

theorem Ordinary.advancing {β : Type} {p : Prog β} (h : Ordinary p) (rot : Rotation) :
    Advancing rot p := fun k hk => h _ _ _ k hk.1

/-! ## The steps of an advance -/

/-- The process is still where the step begins, or a step of its own has begun. -/
theorem advancing_call {rot : Rotation} {a : Action} {β : Type} {f : Answer a → Prog β}
    (ha : a.ordinary = true)
    (hnext : ∀ (k : Course) r, (k.next a r).storing = k.storing ∧ (k.next a r).recorded = k.recorded)
    (hf : ∀ x, AdvancingTo rot (fun k' r => k'.HasStored rot r) (f x)) :
    AdvancingTo rot (fun k' r => k'.HasStored rot r) (call a >>= f) := by
  intro k hk
  have hcall : Obeys course (call a) k fun k' _ => k'.Advances rot := by
    refine Obeys.call ((ordinary_call ha _ _ _ k hk.1).1) fun r => ?_
    have hkeeps := (ordinary_call ha _ _ _ k hk.1).2 r
    refine ⟨?_, (hnext k r).1.trans hk.2.1, fun h => (hnext k r).2.trans (hk.2.2 h)⟩
    cases r with
    | ok x => exact hkeeps
    | error e => exact hkeeps
  exact hcall.bind (fun k' x hk' => hf x k' hk') fun _ _ hk' => hk'.1.hasStored_error

theorem advancing_recordCreated {rot : Rotation} (created : CreatedKey) {β : Type}
    {f : Unit → Prog β} (hf : AdvancingTo rot (fun k' r => k'.HasStored rot r) (f ())) :
    AdvancingTo rot (fun k' r => k'.HasStored rot r) (recordCreated rot created >>= f) := by
  unfold recordCreated
  split
  · rename_i key _
    intro k hk
    have hrecord : Obeys course (call (.setField rot.id (.newProviderKeyId key)) >>=
        fun _ => ask (.cacheCreatedKey key)) k fun k' _ => k'.Advances rot :=
      Obeys.call_bind trivial (fun _ => Obeys.call trivial fun _ => hk) fun _ => hk
    exact hrecord.bind (fun k' _ hk' => hf k' hk') fun _ _ hk' => hk'.1.hasStored_error
  · exact hf

theorem advancing_createReplacement {rot : Rotation} (hstores : rot.state.stores = true) :
    AdvancingTo rot (fun k' r => k'.HasStored rot r) (createReplacement rot) := by
  unfold createReplacement
  split_ifs with hrecorded
  · exact fun k hk => ⟨hk.1, fun _ _ => hk.2.2 hrecorded⟩
  · refine advancing_call rfl (fun _ _ => ⟨rfl, rfl⟩) fun _ => ?_
    refine advancing_call rfl (fun _ _ => ⟨rfl, rfl⟩) fun found => ?_
    cases found with
    | false => exact fun k hk => hk.1.hasStored_error
    | true =>
        refine advancing_call rfl (fun _ _ => ⟨rfl, rfl⟩) fun _ => ?_
        refine advancing_call rfl (fun _ _ => ⟨rfl, rfl⟩) fun created => ?_
        refine advancing_recordCreated created fun k hk => ?_
        refine (obeys_storeReplacement hk hstores _).bind (fun k' stored hk' => ?_)
          fun _ _ hk' => hk'.1.hasStored_error
        have hlink : Keeps course (fun k => k.At (some rot) true false ∧ k.recorded = true)
            (linkCreated created) := by
          unfold linkCreated
          split
          · exact Keeps.bind (Keeps.attempt (Keeps.call fun _ hk => ⟨trivial, fun _ => hk⟩))
              fun _ => Keeps.ret _
          · exact Keeps.ret _
        exact (hlink k' ⟨hk'.1, hk'.2 stored rfl⟩).bind (fun _ _ h => ⟨h.1, fun _ _ => h.2⟩)
          fun _ _ h => h.1.hasStored_error

theorem advancing_storeAnd {rot : Rotation} (hstores : rot.state.stores = true) (value : Str)
    {β : Type} {f : Str → Prog β}
    (hf : ∀ detail (k : Course), k.At (some rot) true false → k.recorded = true →
      Obeys course (f detail) k fun k' _ => k'.At (some rot) true false) :
    Advancing rot (storeReplacement rot value >>= f) :=
  fun _ hk => (obeys_storeReplacement hk hstores value).bind
    (fun k' detail hk' => hf detail k' hk'.1 (hk'.2 detail rfl)) fun _ _ hk' => hk'.1

theorem ordinary_disableOld (env : Env) (rot : Rotation) : Ordinary (disableOld env rot) := by
  unfold disableOld
  split
  · refine (ordinary_ask rfl).bind fun _ => (ordinary_ask rfl).bind fun _ => ?_
    refine (ordinary_ask rfl).attempt.bind fun done => ?_
    cases done with
    | ok detail =>
        refine (ordinary_ask rfl).bind fun now => (ordinary_call rfl).bind fun _ => ?_
        exact (ordinary_setState rfl _).bind fun _ => .ret _
    | error e => exact (ordinary_recordError _ _).bind fun _ => .ret _
  · exact (ordinary_setState rfl _).bind fun _ => .ret _

theorem ordinary_revokeWasAttempted (id key : Str) : Ordinary (revokeWasAttempted id key) :=
  (ordinary_call rfl).bind fun _ => .ret _

theorem ordinary_recordRevoked (id detail : Str) : Ordinary (recordRevoked id detail) := by
  refine (ordinary_ask rfl).bind fun now => (ordinary_call rfl).bind fun _ => ?_
  exact (ordinary_call rfl).bind fun _ => (ordinary_recordEventNote _ _).bind fun _ => .ret _

theorem ordinary_revokeOld (env : Env) (rot : Rotation) : Ordinary (revokeOld env rot) := by
  unfold revokeOld
  split_ifs
  · exact (ordinary_recordEventNote _ _).bind fun _ => .ret _
  · split
    · refine (ordinary_ask rfl).bind fun _ => (ordinary_ask rfl).bind fun _ => ?_
      refine (ordinary_revokeWasAttempted _ _).bind fun attemptedBefore => ?_
      refine (ordinary_recordEventNote _ _).bind fun _ => (ordinary_ask rfl).attempt.bind fun done => ?_
      split
      · exact ordinary_recordRevoked _ _
      · split_ifs
        · exact ordinary_recordRevoked _ _
        · exact (ordinary_setState rfl _).bind fun _ => .ret _
      · exact .throw _
    · exact (ordinary_setState rfl _).bind fun _ => .ret _

theorem ordinary_auditCompleted (rot : Rotation) : Ordinary (auditCompleted rot) :=
  (ordinary_ask rfl).bind fun _ => (ordinary_ask rfl).bind fun _ => ordinary_ask rfl

/-- A swap that is allowed, with its event. -/
theorem Course.At.obeys_setState {k : Course} {row : Option Rotation} {advancing entered : Bool}
    (hk : k.At row advancing entered) {id : Str} {fromState toState : RotationState}
    (h : k.MaySwap id fromState toState) (hto : toState ≠ .rollingBack) (detail : Str) :
    Obeys course (setState id fromState toState detail) k fun k' _ =>
      k'.At row advancing entered := by
  have hnext : ∀ r, course.next k (.swapState id fromState toState) r = k := by
    intro r
    cases toState with
    | rollingBack => exact absurd rfl hto
    | _ => cases r <;> rfl
  refine Obeys.call_bind h (fun swapped => ?_) fun e => (hnext (.error e)).symm ▸ hk
  rw [hnext]
  cases swapped with
  | true => exact ordinary_call rfl _ _ _ k hk
  | false => exact ((ordinary_loadHelper id).bind fun _ => .throw _) _ _ _ k hk

/-- The swap behind a store. -/
theorem Course.At.obeys_stored {k : Course} {rot : Rotation} (hk : k.At (some rot) true false)
    (hrecorded : k.recorded = true) {fromState : RotationState} (hturned : fromState.turned = false)
    (hflight : fromState.inFlight = true) (detail : Str) {β : Type} (b : β) :
    Obeys course (setState rot.id fromState .replacementStored detail >>= fun _ => (.ret b : Prog β)) k
      fun k' _ => k'.At (some rot) true false := by
  have hswap : k.MaySwap rot.id fromState .replacementStored := by
    refine ⟨fun h => ?_, fun h => (by cases h), fun h => (by cases h), fun h => (by cases h), by decide,
      fun h => ?_, fun _ => .inr ⟨rot, ⟨hk.row, .inl rfl⟩, .inl hrecorded⟩⟩
    · rw [hturned] at h
      cases h
    · rw [hflight] at h
      cases h
  exact (hk.obeys_setState hswap (by decide) detail).bind (fun _ _ hk' => hk') fun _ _ hk' => hk'

theorem ordinary_advanceStored (rot : Rotation) (value : Option Str) :
    Ordinary (advanceStored rot value) :=
  (ordinary_ask rfl).bind fun _ => (ordinary_call rfl).bind fun _ =>
    (ordinary_setState rfl _).bind fun _ => .ret _

theorem ordinary_advanceUpdating (env : Env) (rot : Rotation) (value : Option Str) :
    Ordinary (advanceUpdating env rot value) := by
  unfold advanceUpdating
  split
  · exact .throw _
  · refine (ordinary_ask rfl).attempt.bind fun executed => ?_
    cases executed with
    | ok plan =>
        dsimp only
        split_ifs
        · exact (ordinary_setState rfl _).bind fun _ => .ret _
        · exact ordinary_stopWith _ _
    | error e => exact ordinary_stopWith _ _

/-- A validation is marked on a row that has its replacement recorded. -/
theorem advancing_advanceVerified (env : Env) (rot : Rotation) (value : Option Str) :
    Advancing rot (advanceVerified env rot value) := by
  rintro k ⟨hk, -⟩
  refine Obeys.call_bind ⟨rot, hk.row, rfl⟩ (fun (current : Int) => ?_) fun _ =>
    ⟨hk.row, hk.advancing, hk.entered⟩
  have hk₁ : Course.At (some rot) true false
      (course.next k (.request (.valueVersionOf rot.credentialId)) (.ok current)) :=
    ⟨hk.row, hk.advancing, hk.entered⟩
  split_ifs with hchanged
  · exact ordinary_stopWith _ _ _ _ _ _ hk₁
  · have hstored : rot.newVersion.isSome = true := by
      rw [← not_not.1 hchanged]
      rfl
    refine ((ordinary_ask rfl).attempt _ _ _ _ hk₁).bind (fun k₂ result hk₂ => ?_) fun _ _ h => h
    split
    · refine Obeys.call_bind ⟨rot, ⟨hk₂.row, .inl rfl⟩, hstored⟩ (fun _ => ?_) fun _ => hk₂
      refine ((ordinary_ask rfl).bind fun now => (ordinary_call ?_).bind fun _ =>
        (ordinary_setState rfl _).bind fun _ => .ret _) _ _ _ k₂ hk₂
      rfl
    · exact ordinary_stopWith _ _ _ _ _ _ hk₂
    · exact ordinary_stopWith _ _ _ _ _ _ hk₂

theorem ordinary_continuedUse (rot : Rotation) (acknowledged : Bool) :
    Ordinary (continuedUse rot acknowledged) := by
  unfold continuedUse
  split
  · refine (ordinary_ask rfl).bind fun usage => ?_
    split_ifs
    · exact .ret _
    · exact (ordinary_recordEventNote _ _).bind fun _ => .ret _
    · exact .ret _
  · exact .ret _

theorem ordinary_advanceGrace (env : Env) (rot : Rotation) (acknowledged : Bool)
    (value : Option Str) : Ordinary (advanceGrace env rot acknowledged value) := by
  refine (ordinary_ask rfl).bind fun now => ?_
  split_ifs
  · exact ordinary_stop _
  · refine (ordinary_continuedUse _ _).bind fun refusal => ?_
    split
    · exact ordinary_stopWith _ _
    · refine (ordinary_disableOld _ _).bind fun advanced => ?_
      split_ifs
      · exact .ret _
      · exact ordinary_stop _

/-- The completion rests on the validation of the loaded row. -/
theorem advancing_advanceDisabled (env : Env) (rot : Rotation) :
    Advancing rot (advanceDisabled env rot) := by
  unfold advanceDisabled
  split_ifs with hvalidated
  · exact (ordinary_stopWith _ _).advancing rot
  · rintro k ⟨hk, -⟩
    refine ((ordinary_revokeOld env rot).attempt _ _ _ k hk).bind (fun k₁ revoked hk₁ => ?_)
      fun _ _ h => h
    split
    · have hswap : k₁.MaySwap rot.id .oldDisabled .completed :=
        ⟨fun h => (by cases h), fun _ => ⟨rfl, rot, ⟨hk₁.row, .inl rfl⟩, by simpa using hvalidated⟩,
          fun h => (by cases h), fun h => (by cases h), by decide, fun _ => .inr (.inl rfl),
          fun h => (by cases h)⟩
      have hcomplete : Obeys course (rotationComplete rot) k₁ fun k' _ => k'.At (some rot) true false :=
        (hk₁.obeys_setState hswap (by decide) _).bind
          (fun k₂ _ hk₂ => ordinary_auditCompleted rot _ _ _ k₂ hk₂) fun _ _ h => h
      exact hcomplete.bind (fun k₂ _ hk₂ => ordinary_stop _ _ _ _ k₂ hk₂) fun _ _ h => h
    · exact ordinary_stop _ _ _ _ k₁ hk₁
    · exact ordinary_stopWith _ _ _ _ _ k₁ hk₁

theorem advancing_advanceStep (env : Env) (rot : Rotation) (acknowledged : Bool)
    (value : Option Str) : Advancing rot (advanceStep env rot acknowledged value) := by
  unfold advanceStep
  split
  · exact (Ordinary.throw _).advancing rot
  · rename_i hstate
    unfold advanceApproved
    split
    · exact (Ordinary.throw _).advancing rot
    · exact ((ordinary_setState rfl _).bind fun _ => .ret _).advancing rot
    · exact advancing_storeAnd (by rw [hstate]; rfl) _ fun detail _ hk hrecorded =>
        hk.obeys_stored hrecorded rfl rfl detail _
    · exact ((ordinary_setState rfl _).bind fun _ => ordinary_stop _).advancing rot
  · unfold advanceCreating
    split_ifs
    · exact (ordinary_stopWith _ _).advancing rot
    · exact ((ordinary_setState rfl _).bind fun _ => .ret _).advancing rot
  · rename_i hstate
    unfold advanceInProgress
    split_ifs
    · exact (ordinary_stopWith _ _).advancing rot
    · intro k hk
      have hcreate : Obeys course (createReplacement rot).attempt k fun k' r =>
          k'.At (some rot) true false ∧ ∀ detail, r = .ok (.ok detail) → k'.recorded = true :=
        Obeys.attempt ((advancing_createReplacement (by rw [hstate]; rfl) k hk).mono
          fun _ _ h => ⟨h.1, fun detail hr => h.2 detail (Except.ok.inj hr)⟩)
      refine hcreate.bind (fun k' done hk' => ?_) fun _ _ h => h.1
      cases done with
      | ok detail => exact hk'.1.obeys_stored (hk'.2 detail rfl) rfl rfl detail _
      | error e => exact ordinary_stopWith _ _ _ _ _ k' hk'.1
  · rename_i hstate
    unfold advanceAwaiting
    split
    · exact (ordinary_stop _).advancing rot
    · exact advancing_storeAnd (by rw [hstate]; rfl) _ fun detail _ hk hrecorded =>
        hk.obeys_stored hrecorded rfl rfl detail _
  · exact (ordinary_advanceStored rot value).advancing rot
  · exact (ordinary_advanceUpdating env rot value).advancing rot
  · exact advancing_advanceVerified env rot value
  · exact (ordinary_advanceGrace env rot acknowledged value).advancing rot
  · exact advancing_advanceDisabled env rot
  · exact (ordinary_stop _).advancing rot

theorem obeysCourse_advanceLoop (env : Env) (id : Str) (acknowledged : Bool) (n : Nat)
    (value : Option Str) (k : Course) :
    Obeys course (advanceLoop env id acknowledged n value) k fun _ _ => True := by
  induction n generalizing value k with
  | zero => exact (ordinary_rotationGet id _ _ _ k ⟨rfl, rfl, rfl⟩).mono fun _ _ _ => trivial
  | succ n ih =>
      have hload : Obeys course (load .advance id) k fun k' r => ∀ rot, r = .ok rot → k'.Advances rot := by
        refine Obeys.call_bind trivial (fun row => ?_) fun e => fun _ h => (by cases h)
        cases row with
        | none => exact fun _ h => (by cases h)
        | some row =>
            rintro rot ⟨rfl⟩
            exact ⟨⟨rfl, rfl, rfl⟩, rfl, fun h => h⟩
      refine hload.bind (fun k' rot hk' => ?_) fun _ _ _ => trivial
      refine (advancing_advanceStep env rot acknowledged value k' (hk' rot rfl)).bind
        (fun k'' next _ => ?_) fun _ _ _ => trivial
      cases next with
      | done view => exact trivial
      | again value => exact ih value k''

/-! ## The other operations -/

theorem ordinary_rotationPlan (req : PlanRequest) : Ordinary (rotationPlan req) := by
  refine (ordinary_ask rfl).bind fun cred => ?_
  split_ifs
  · exact .throw _
  · exact .throw _
  · refine (ordinary_ask rfl).bind fun mode => Ordinary.bind ?_ fun oldKey => ?_
    · unfold oldKeyId
      split
      · exact .ret _
      · exact ordinary_ask rfl
    · refine (ordinary_ask rfl).bind fun now => (ordinary_call rfl).bind fun _ => ?_
      exact (ordinary_call rfl).bind fun _ => (ordinary_ask rfl).bind fun _ => ordinary_rotationGet _

/-- An operation that first loads the row it decides on. -/
theorem obeys_operation {id : Str} {β : Type} {f : Rotation → Prog β} {k : Course}
    (hf : ∀ rot k', k'.At (some rot) false false → k'.asked = id →
      Obeys course (f rot) k' fun _ _ => True) :
    Obeys course (load .operation id >>= f) k fun _ _ => True := by
  have hload : Obeys course (load .operation id) k fun k' r =>
      ∀ rot, r = .ok rot → k'.At (some rot) false false ∧ k'.asked = id := by
    refine Obeys.call_bind trivial (fun row => ?_) fun e => fun _ h => (by cases h)
    cases row with
    | none => exact fun _ h => (by cases h)
    | some row =>
        rintro rot ⟨rfl⟩
        exact ⟨⟨rfl, rfl, rfl⟩, rfl⟩
  exact hload.bind (fun k' rot hk' => hf rot k' (hk' rot rfl).1 (hk' rot rfl).2) fun _ _ _ => trivial

theorem Ordinary.obeys {β : Type} {p : Prog β} (h : Ordinary p) (k : Course) :
    Obeys course p k fun _ _ => True :=
  (h _ _ _ k ⟨rfl, rfl, rfl⟩).mono fun _ _ _ => trivial

/-- The master password is verified first. -/
theorem obeys_verified {β : Type} {p : Prog β} {k : Course}
    (h : ∀ k, Obeys course p k fun _ _ => True) :
    Obeys course (ask .verifyMasterPassword >>= fun _ => p) k fun _ _ => True :=
  Obeys.call_bind trivial (fun _ => h _) fun _ => trivial

theorem obeysCourse_rotationApprove (id : Str) (k : Course) :
    Obeys course (rotationApprove id) k fun _ _ => True := by
  refine obeys_verified fun k => obeys_operation fun rot k hk _ => ?_
  split_ifs
  · exact trivial
  · refine Ordinary.obeys (Ordinary.bind (ordinary_call rfl) fun otherActive => ?_) k
    split_ifs
    · exact .throw _
    · refine (ordinary_ask rfl).bind fun now => (ordinary_call rfl).bind fun _ => ?_
      refine (ordinary_setState rfl _).bind fun _ => (ordinary_ask rfl).bind fun found => ?_
      cases found with
      | false => exact .throw _
      | true => exact (ordinary_ask rfl).bind fun _ => ordinary_rotationGet id

theorem obeysCourse_rotationCompleteManual (id note : Str) (k : Course) :
    Obeys course (rotationCompleteManual id note) k fun _ _ => True := by
  refine obeys_verified fun k => obeys_operation fun rot k hk hasked => ?_
  split_ifs with hstate hvalidated
  · exact trivial
  · exact trivial
  · have hstate : completesManually rot.state = true := by simpa using hstate
    have hvalidated : rot.newValueValidated = true := by simpa using hvalidated
    have hswap : k.MaySwap id rot.state .completed :=
      ⟨fun _ => rfl, fun _ => ⟨hstate, rot, ⟨hk.row, .inr hasked⟩, hvalidated⟩,
        fun h => (by cases h), fun h => (by cases h), by decide, fun _ => .inr (.inl rfl),
        fun h => (by cases h)⟩
    refine (hk.obeys_setState hswap (by decide) _).bind (fun k₁ _ _ => ?_) fun _ _ _ => trivial
    exact Ordinary.obeys ((ordinary_auditCompleted rot).bind fun _ => ordinary_rotationGet id) k₁

theorem obeysCourse_rotationCancel (id : Str) (k : Course) :
    Obeys course (rotationCancel id) k fun _ _ => True := by
  refine obeys_verified fun k => obeys_operation fun rot k hk hasked => ?_
  split_ifs with hgone hstored
  · exact trivial
  · exact trivial
  · have hswap : k.MaySwap id rot.state .failed :=
      ⟨fun _ => rfl, fun h => (by cases h), fun _ => ⟨rot, ⟨hk.row, .inr hasked⟩, hk.advancing, by
        simpa using hstored⟩, fun h => (by cases h), by decide, fun _ => .inr (.inl rfl),
        fun h => (by cases h)⟩
    refine (hk.obeys_setState hswap (by decide) _).bind (fun k₁ _ _ => ?_) fun _ _ _ => trivial
    exact (ordinary_rotationGet id).obeys k₁

/-! ## The rollback -/

theorem ordinary_reenableOld (env : Env) (rot : Rotation) (n : Notes) :
    Ordinary (reenableOld env rot n) := by
  unfold reenableOld
  split
  · refine (ordinary_ask rfl).bind fun _ => ?_
    split_ifs
    · refine (ordinary_ask rfl).attempt.bind fun done => ?_
      cases done with
      | ok d => exact .ret _
      | error e => exact .ret _
    · exact .ret _
  · exact .ret _

theorem ordinary_revokeNew (env : Env) (rot : Rotation) (revokeNewKey : Bool) (n : Notes) :
    Ordinary (revokeNew env rot revokeNewKey n) := by
  unfold revokeNew
  split
  · refine (ordinary_ask rfl).bind fun _ => (ordinary_ask rfl).bind fun _ => ?_
    refine (ordinary_ask rfl).attempt.bind fun done => ?_
    cases done with
    | ok d => exact (ordinary_ask rfl).attempt.bind fun _ => .ret _
    | error e => exact .ret _
  · exact .ret _

theorem ordinary_finishRollback (id : Str) (n : Notes) : Ordinary (finishRollback id n) := by
  unfold finishRollback
  split_ifs
  · exact (ordinary_setState rfl _).bind fun _ => ordinary_recordError _ _
  · exact ordinary_setState rfl _

theorem ordinary_refuseAttempted (rot : Rotation) : Ordinary (refuseAttempted rot) := by
  unfold refuseAttempted
  split
  · split_ifs
    · exact .ret _
    · refine (ordinary_revokeWasAttempted _ _).bind fun attempted => ?_
      split_ifs
      · exact .throw _
      · exact .ret _
  · exact .ret _

theorem ordinary_decryptOld (rot : Rotation) (oldVersion current : Int) :
    Ordinary (decryptOld rot oldVersion current) := by
  unfold decryptOld
  split_ifs
  · exact (ordinary_ask rfl).bind fun _ => .ret _
  · exact .ret _

/-- A program of a rollback that was entered. -/
abbrev Restoring {β : Type} (rot : Rotation) (p : Prog β) : Prop :=
  Keeps course (Course.At (some rot) false true) p

theorem restoring_restoreValue (rot : Rotation) (oldVersion current : Int) (decrypted : Bool)
    (n : Notes) : Restoring rot (restoreValue rot oldVersion current decrypted n) := by
  unfold restoreValue
  split_ifs
  · refine Keeps.bind (Keeps.call fun k hk => ⟨⟨rot, hk.row, rfl, ?_⟩, fun _ =>
      ⟨hk.row, hk.advancing, hk.entered⟩⟩) fun _ => Keeps.ret _
    rw [if_neg (by simp [hk.advancing])]
    exact hk.entered
  · exact Keeps.ret _

theorem restoring_restoreDestinations (env : Env) (rot : Rotation) (n : Notes) :
    Restoring rot (restoreDestinations env rot n) := by
  unfold restoreDestinations
  split
  · exact Keeps.ret _
  · rename_i planId _
    have hrollback : Restoring rot (ask (.syncPlanRollback planId)) :=
      Keeps.call fun k hk => ⟨⟨hk.advancing, hk.entered⟩, fun _ => ⟨hk.row, hk.advancing, hk.entered⟩⟩
    refine Keeps.bind hrollback.attempt fun done => ?_
    cases done with
    | ok _ => exact Keeps.ret _
    | error e => exact Keeps.ret _

theorem obeysCourse_rotationRollback (env : Env) (id : Str) (revokeNewKey : Bool) (k : Course) :
    Obeys course (rotationRollback env id revokeNewKey) k fun _ _ => True := by
  refine obeys_verified fun k => obeys_operation fun rot k hk _ => ?_
  split
  · exact trivial
  refine (ordinary_refuseAttempted rot _ _ _ k hk).bind (fun k₁ _ hk₁ => ?_) fun _ _ _ => trivial
  split
  · exact trivial
  split
  · exact trivial
  · rename_i oldVersion hold
    refine Obeys.call_bind ⟨rot, hk₁.row, rfl⟩ (fun (current : Int) => ?_) fun _ => trivial
    have hk₂ : Course.At (some rot) false false
        (course.next k₁ (.request (.valueVersionOf rot.credentialId)) (.ok current)) :=
      ⟨hk₁.row, hk₁.advancing, hk₁.entered⟩
    refine (ordinary_decryptOld rot oldVersion current _ _ _ _ hk₂).bind (fun k₃ decrypted hk₃ => ?_)
      fun _ _ _ => trivial
    have hswap : k₃.MaySwap rot.id rot.state .rollingBack :=
      ⟨fun _ => rfl, fun h => (by cases h), fun h => (by cases h),
        fun _ => ⟨rot, ⟨hk₃.row, .inl rfl⟩, hk₃.advancing, by rw [hold]; rfl⟩, by decide,
        fun _ => .inr (.inr rfl), fun _ => .inr ⟨rot, ⟨hk₃.row, .inl rfl⟩, .inr (by rw [hold]; rfl)⟩⟩
    have henter : Obeys course (setState rot.id rot.state .rollingBack []) k₃ fun k' r =>
        ∀ u, r = .ok u → k'.At (some rot) false true := by
      refine Obeys.call_bind hswap (fun swapped => ?_) fun _ => fun _ h => (by cases h)
      cases swapped with
      | true => exact Obeys.call trivial fun r _ _ => by cases r <;> exact ⟨hk₃.row, hk₃.advancing, rfl⟩
      | false =>
          refine (ordinary_loadHelper rot.id _ _ _ _ ⟨rfl, rfl, rfl⟩).bind (fun _ _ _ => ?_)
            fun _ _ _ _ h => (by cases h)
          exact fun _ h => (by cases h)
    have hrest : Restoring rot (rolledBackFrom env rot oldVersion current decrypted revokeNewKey) := by
      refine Keeps.bind (ordinary_reenableOld env rot _ _ _ _) fun n => ?_
      refine Keeps.bind (restoring_restoreValue rot _ _ _ n) fun n => ?_
      refine Keeps.bind (restoring_restoreDestinations env rot n) fun n => ?_
      refine Keeps.bind (ordinary_revokeNew env rot _ n _ _ _) fun n => ?_
      refine Keeps.bind (ordinary_finishRollback rot.id n _ _ _) fun _ => ?_
      exact ((ordinary_ask rfl).bind fun _ => (ordinary_ask rfl).bind fun _ =>
        ordinary_rotationGet rot.id) _ _ _
    refine henter.bind (fun k₄ u hk₄ => ?_) fun _ _ _ => trivial
    exact (hrest k₄ (hk₄ u rfl)).mono fun _ _ _ => trivial

/-- Every operation keeps to the course. -/
theorem obeysCourse_program (env : Env) (op : Op) :
    Obeys course ((system env).program op) Course.start fun _ _ => True := by
  cases op with
  | plan req => exact (ordinary_rotationPlan req).obeys _
  | approve id => exact obeysCourse_rotationApprove id _
  | advance id value acknowledged =>
      exact obeys_verified fun k => obeysCourse_advanceLoop env id acknowledged 12 value k
  | completeManual id note => exact obeysCourse_rotationCompleteManual id note _
  | cancel id => exact obeysCourse_rotationCancel id _
  | rollback id revokeNewKey => exact obeysCourse_rotationRollback env id revokeNewKey _

end Tethra.Rotations
