import Tethra.Rotation.Programs

set_option autoImplicit false

/-! # What the operations keep to

One discipline of all rotation operations: which states they swap, behind what they create a key, send a
revocation, or enter a rollback. It is shown once for each operation, and the invariants of the store
rest on it alone. -/

namespace Tethra.Rotations

open Interleave

/-- The creation of a key by one process. -/
inductive Creation where
  | idle
  /-- It has loaded a row that lets it create the key. -/
  | licensed (id : Str)
  /-- The provider created a key that the row does not know yet. -/
  | made (id : Str)
  deriving DecidableEq

/-- A row that lets an advance create the key. -/
def Rotation.licenses (row : Rotation) : Bool :=
  row.state = .creatingInProgress && row.newProviderKeyId.isNone && row.newVersion.isNone

/-- A lookup failed, or the row is past it: the creation is not gone on with. -/
def Creation.giveUp : Creation → Creation
  | .made id => .made id
  | _ => .idle

def Creation.reload (c : Creation) (row : Rotation) : Creation :=
  if row.licenses then .licensed row.id else c.giveUp

def Creation.recorded (id : Str) (c : Creation) : Creation := if c = .made id then .idle else c

/-- What a process knows behind its actions. -/
structure Knows where
  /-- The row that the operation decides on. -/
  row : Option Rotation
  count : Option Nat
  log : Option (Str × List RotationEvent)
  noted : Option (Str × Str)
  creation : Creation

def Knows.start : Knows := ⟨none, none, none, none, .idle⟩

def Knows.next (k : Knows) : (a : Action) → Except CoreError (Answer a) → Knows
  | .load .advance _, .ok (some row) => { k with row := some row, creation := k.creation.reload row }
  | .load .advance _, _ => { k with creation := k.creation.giveUp }
  | .load .operation _, .ok row => { k with row }
  | .countActive .., .ok n => { k with count := some n }
  | .events id, .ok log => { k with log := some (id, log) }
  | .recordNote id _ note, .ok _ => { k with noted := some (id, note) }
  | .setField id (.newProviderKeyId _), .ok _ => { k with creation := k.creation.recorded id }
  | .setVersions id _ _, .ok _ => { k with creation := k.creation.recorded id }
  | .request (.providerAdminSecret _), .error _ => { k with creation := k.creation.giveUp }
  | .request (.connectorFor _), .error _ => { k with creation := k.creation.giveUp }
  | .request (.credentialRow _), .ok false => { k with creation := k.creation.giveUp }
  | .request (.credentialRow _), .error _ => { k with creation := k.creation.giveUp }
  | .request (.createCredential id), .ok _ => { k with creation := .made id }
  | .request (.createCredential _), .error _ => { k with creation := .idle }
  | _, _ => k

/-- No revocation of the row's old key was recorded in the log, where it could not be brought back. -/
def Unattempted (row : Rotation) (log : List RotationEvent) : Prop :=
  ∀ key, row.oldProviderKeyId = some key → revokeIsReversible row.provider = false →
    ∀ e ∈ log, e.detail ≠ revokeAttemptMarker key

/-- The row has no old key that a revocation would destroy. -/
def Rotation.harmless (row : Rotation) : Prop :=
  row.oldProviderKeyId = none ∨ revokeIsReversible row.provider = true

structure Knows.MaySwap (k : Knows) (id : Str) (fromState toState : RotationState) : Prop where
  /-- A rotation comes into flight by its approval, behind a count of zero, or by a rollback. -/
  inFlight : toState.inFlight = true → fromState.inFlight = false →
    (fromState = .planned ∧ toState = .approved ∧ k.count = some 0) ∨ toState = .rollingBack
  rolledBack : toState = .rolledBack → fromState = .rollingBack
  rollingBack : toState = .rollingBack → ∃ row, k.row = some row ∧ row.id = id ∧
    row.state = fromState ∧ (row.harmless ∨ ∃ log, k.log = some (id, log) ∧ Unattempted row log)

def Knows.allowed (k : Knows) : Action → Prop
  | .swapState id fromState toState => k.MaySwap id fromState toState
  | .insertRow row => row.state = .planned
  | .request (.createCredential id) => k.creation = .licensed id
  | .request (.revokeOldKey id key) => k.noted = some (id, revokeAttemptMarker key)
  | _ => True

def discipline : Discipline Answer CoreError Knows where
  allowed := Knows.allowed
  next := Knows.next

def Knows.Unlicensed (k : Knows) : Prop := ∀ id, k.creation ≠ .licensed id

abbrev Calm {β : Type} (p : Prog β) : Prop := Keeps discipline Knows.Unlicensed p

/-! ## Actions that any operation may perform -/

/-- The actions that need no particular knowledge. -/
def Action.free : Action → Bool
  | .load .advance _ => false
  | .swapState _ fromState toState =>
      (!toState.inFlight || fromState.inFlight) && toState ≠ .rolledBack && toState ≠ .rollingBack
  | .insertRow row => row.state = .planned
  | .request (.createCredential _) => false
  | .request (.revokeOldKey ..) => false
  | _ => true

theorem unlicensed_giveUp (k : Knows) : ({ k with creation := k.creation.giveUp } : Knows).Unlicensed := by
  intro id h
  cases hc : k.creation with
  | idle => simp [hc, Creation.giveUp] at h
  | licensed id' => simp [hc, Creation.giveUp] at h
  | made id' => simp [hc, Creation.giveUp] at h

theorem Knows.Unlicensed.recorded {k : Knows} (h : k.Unlicensed) (id : Str) :
    ({ k with creation := k.creation.recorded id } : Knows).Unlicensed := by
  intro id' hid'
  simp only [Creation.recorded] at hid'
  split at hid'
  · cases hid'
  · exact h id' hid'

theorem calm_call {a : Action} (h : a.free = true) : Calm (call a) := by
  refine Keeps.call fun k hk => ⟨?_, fun r => ?_⟩
  · cases a with
    | swapState id fromState toState =>
        simp only [Action.free, Bool.and_eq_true, Bool.or_eq_true, Bool.not_eq_true',
          decide_eq_true_eq] at h
        refine ⟨fun hto hfrom => ?_, fun hto => absurd hto h.1.2, fun hto => absurd hto h.2⟩
        rcases h.1.1 with h | h
        · rw [h] at hto
          cases hto
        · rw [h] at hfrom
          cases hfrom
    | insertRow row => exact (of_decide_eq_true h : row.state = .planned)
    | request r => cases r <;> first | trivial | cases h
    | _ => trivial
  · show (k.next a r).Unlicensed
    unfold Knows.next
    split
    all_goals first
      | exact hk
      | exact unlicensed_giveUp k
      | exact hk.recorded _
      | cases h

theorem calm_ask {r : Request} (h : (Action.request r).free = true) : Calm (ask r) := calm_call h

/-! ## The helpers and the steps -/

theorem calm_load {reader : Reader} (h : reader ≠ .advance) (id : Str) : Calm (load reader id) := by
  refine Keeps.bind (calm_call ?_) fun row => ?_
  · cases reader with
    | advance => exact absurd rfl h
    | operation => rfl
    | helper => rfl
  · cases row with
    | none => exact Keeps.throw _
    | some row => exact Keeps.ret _

theorem calm_rotationGet (id : Str) : Calm (rotationGet id) := calm_load (by decide) id

theorem calm_setState {id : Str} {fromState toState : RotationState}
    (h : (Action.swapState id fromState toState).free = true) (detail : Str) :
    Calm (setState id fromState toState detail) := by
  refine Keeps.bind (calm_call h) fun swapped => ?_
  cases swapped with
  | false => exact Keeps.bind (calm_load (by decide) id) fun _ => Keeps.throw _
  | true => exact calm_call rfl

theorem calm_recordEventNote (id note : Str) : Calm (recordEventNote id note) :=
  Keeps.bind (calm_load (by decide) id) fun _ => calm_call rfl

theorem calm_recordError (id error : Str) : Calm (recordError id error) :=
  Keeps.bind (calm_load (by decide) id) fun _ => Keeps.bind (calm_call rfl) fun _ => calm_call rfl

theorem calm_stop (id : Str) : Calm (stop id) := Keeps.bind (calm_rotationGet id) fun _ => Keeps.ret _

theorem calm_stopWith (id error : Str) : Calm (stopWith id error) :=
  Keeps.bind (calm_recordError id error) fun _ => calm_stop id

theorem calm_rotationPlan (req : PlanRequest) : Calm (rotationPlan req) := by
  refine Keeps.bind (calm_ask rfl) fun cred => ?_
  split_ifs
  · exact Keeps.throw _
  · exact Keeps.throw _
  · refine Keeps.bind (calm_ask rfl) fun mode => ?_
    refine Keeps.bind ?_ fun oldKey => ?_
    · unfold oldKeyId
      split
      · exact Keeps.ret _
      · exact calm_ask rfl
    · refine Keeps.bind (calm_ask rfl) fun now => ?_
      refine Keeps.bind (calm_call rfl) fun _ => Keeps.bind (calm_call rfl) fun _ => ?_
      exact Keeps.bind (calm_ask rfl) fun _ => calm_rotationGet _

theorem calm_storeReplacement (rot : Rotation) (value : Str) : Calm (storeReplacement rot value) := by
  refine Keeps.bind (calm_load (by decide) _) fun fresh => ?_
  split_ifs
  · exact Keeps.ret _
  · exact Keeps.throw _
  · refine Keeps.bind (calm_ask rfl) fun old => Keeps.bind (calm_ask rfl) fun _ => ?_
    exact Keeps.bind (calm_ask rfl) fun new => Keeps.bind (calm_call rfl) fun _ => Keeps.ret _

theorem calm_disableOld (env : Env) (rot : Rotation) : Calm (disableOld env rot) := by
  unfold disableOld
  split
  · refine Keeps.bind (calm_ask rfl) fun _ => Keeps.bind (calm_ask rfl) fun _ => ?_
    refine Keeps.bind (Keeps.attempt (calm_ask rfl)) fun done => ?_
    cases done with
    | ok detail =>
        refine Keeps.bind (calm_ask rfl) fun now => Keeps.bind (calm_call rfl) fun _ => ?_
        exact Keeps.bind (calm_setState rfl _) fun _ => Keeps.ret _
    | error e => exact Keeps.bind (calm_recordError _ _) fun _ => Keeps.ret _
  · exact Keeps.bind (calm_setState rfl _) fun _ => Keeps.ret _

theorem calm_revokeWasAttempted (id key : Str) : Calm (revokeWasAttempted id key) :=
  Keeps.bind (calm_call rfl) fun _ => Keeps.ret _

theorem calm_recordRevoked (id detail : Str) : Calm (recordRevoked id detail) := by
  refine Keeps.bind (calm_ask rfl) fun now => Keeps.bind (calm_call rfl) fun _ => ?_
  exact Keeps.bind (calm_call rfl) fun _ =>
    Keeps.bind (calm_recordEventNote _ _) fun _ => Keeps.ret _

/-- The note of an attempt is known when the revocation is sent. -/
theorem obeys_recordEventNote {k : Knows} (hk : k.Unlicensed) (id note : Str) :
    Obeys discipline (recordEventNote id note) k fun k' r =>
      k'.Unlicensed ∧ ∀ u, r = .ok u → k'.noted = some (id, note) := by
  refine (calm_load (by decide) id k hk).bind (fun k' current hk' => ?_) fun k' e hk' => ?_
  · refine Obeys.call trivial fun r => ?_
    cases r with
    | ok u => exact ⟨hk', fun _ _ => rfl⟩
    | error e => exact ⟨hk', fun _ h => by cases h⟩
  · exact ⟨hk', fun _ h => by cases h⟩

theorem calm_revokeOld (env : Env) (rot : Rotation) : Calm (revokeOld env rot) := by
  unfold revokeOld
  split_ifs
  · exact Keeps.bind (calm_recordEventNote _ _) fun _ => Keeps.ret _
  · split
    · rename_i key _ _
      refine Keeps.bind (calm_ask rfl) fun _ => Keeps.bind (calm_ask rfl) fun _ => ?_
      refine Keeps.bind (calm_revokeWasAttempted _ _) fun attemptedBefore => fun k hk => ?_
      refine (obeys_recordEventNote hk _ _).bind (fun k' u h => ?_) fun k' e h => h.1
      have hsend : Obeys discipline (ask (.revokeOldKey rot.id key)).attempt k'
          fun k' _ => k'.Unlicensed :=
        Obeys.attempt (Obeys.call (h.2 u rfl) fun _ => h.1)
      refine hsend.bind (fun k' done hk' => ?_) fun _ _ hk' => hk'
      split
      · exact calm_recordRevoked _ _ k' hk'
      · split_ifs
        · exact calm_recordRevoked _ _ k' hk'
        · exact (Keeps.bind (calm_setState rfl _) fun _ => Keeps.ret _) k' hk'
      · exact Keeps.throw _ k' hk'
    · exact Keeps.bind (calm_setState rfl _) fun _ => Keeps.ret _

theorem calm_auditCompleted (rot : Rotation) : Calm (auditCompleted rot) :=
  Keeps.bind (calm_ask rfl) fun _ => Keeps.bind (calm_ask rfl) fun _ => calm_ask rfl

theorem calm_rotationComplete (rot : Rotation) : Calm (rotationComplete rot) :=
  Keeps.bind (calm_setState rfl _) fun _ => calm_auditCompleted rot

/-! ## Creating the key -/

/-- After its load an advance has the licence exactly when the row gives it. -/
def Knows.Ready (k : Knows) (rot : Rotation) : Prop :=
  if rot.licenses then k.creation = .licensed rot.id else k.Unlicensed

theorem Knows.Ready.unlicensed {k : Knows} {rot : Rotation} (h : k.Ready rot)
    (hrot : rot.licenses = false) : k.Unlicensed := by
  unfold Ready at h
  rw [hrot] at h
  exact h

/-- What is done with a key that was created. -/
theorem calm_keepCreated (rot : Rotation) (created : CreatedKey) : Calm (keepCreated rot created) := by
  unfold keepCreated
  refine Keeps.bind ?_ fun _ => Keeps.bind (calm_storeReplacement _ _) fun stored => ?_
  · unfold recordCreated
    split
    · exact Keeps.bind (calm_call rfl) fun _ => calm_ask rfl
    · exact Keeps.ret _
  · refine Keeps.bind ?_ fun _ => Keeps.ret _
    unfold linkCreated
    split
    · exact Keeps.bind (Keeps.attempt (calm_ask rfl)) fun _ => Keeps.ret _
    · exact Keeps.ret _

theorem obeys_createReplacement {k : Knows} {rot : Rotation} (h : k.Ready rot)
    (hrot : rot.orphaned = false) (hstate : rot.state = .creatingInProgress) :
    Obeys discipline (createReplacement rot) k fun k' _ => k'.Unlicensed := by
  unfold createReplacement
  split_ifs with hstored
  · refine Keeps.ret _ k (h.unlicensed ?_)
    obtain ⟨v, hv⟩ := Option.isSome_iff_exists.1 hstored
    simp [Rotation.licenses, hv]
  · have hlicensed : k.creation = .licensed rot.id := by
      have hnone : rot.newVersion = none := by simpa using hstored
      have hkey : rot.newProviderKeyId = none := by simpa [Rotation.orphaned, hnone] using hrot
      have hlicenses : rot.licenses = true := by simp [Rotation.licenses, hstate, hkey, hnone]
      unfold Knows.Ready at h
      rwa [hlicenses, if_pos rfl] at h
    refine Obeys.call_bind trivial (fun _ => ?_) fun _ => unlicensed_giveUp k
    refine Obeys.call_bind trivial (fun found => ?_) fun _ => unlicensed_giveUp k
    cases found with
    | false => exact Keeps.throw _ _ (unlicensed_giveUp k)
    | true =>
        refine Obeys.call_bind trivial (fun _ => ?_) fun _ => unlicensed_giveUp k
        -- The request that the licence is for.
        refine Obeys.call_bind hlicensed (fun created => ?_) fun _ => ?_
        · exact calm_keepCreated rot created _ fun id hid => by cases hid
        · exact fun id hid => by cases hid

theorem obeys_advanceInProgress (env : Env) {k : Knows} {rot : Rotation} (h : k.Ready rot)
    (hstate : rot.state = .creatingInProgress) (value : Option Str) :
    Obeys discipline (advanceInProgress env rot value) k fun k' _ => k'.Unlicensed := by
  unfold advanceInProgress
  split_ifs with horphan
  · refine calm_stopWith _ _ k (h.unlicensed ?_)
    obtain ⟨hkey, -⟩ := Bool.and_eq_true_iff.1 horphan
    obtain ⟨key, hkey⟩ := Option.isSome_iff_exists.1 hkey
    simp [Rotation.licenses, hkey]
  · have hcreate : Obeys discipline (createReplacement rot).attempt k fun k' _ => k'.Unlicensed :=
      Obeys.attempt (obeys_createReplacement h (Bool.eq_false_of_not_eq_true horphan) hstate)
    refine hcreate.bind (fun k' done hk' => ?_) fun _ _ hk' => hk'
    cases done with
    | ok detail => exact (Keeps.bind (calm_setState rfl _) fun _ => Keeps.ret _) k' hk'
    | error e => exact calm_stopWith _ _ k' hk'

/-! ## The loop -/

theorem calm_advanceApproved (rot : Rotation) (value : Option Str) :
    Calm (advanceApproved rot value) := by
  unfold advanceApproved
  split
  · exact Keeps.throw _
  · exact Keeps.bind (calm_setState rfl _) fun _ => Keeps.ret _
  · exact Keeps.bind (calm_storeReplacement _ _) fun _ =>
      Keeps.bind (calm_setState rfl _) fun _ => Keeps.ret _
  · exact Keeps.bind (calm_setState rfl _) fun _ => calm_stop _

theorem calm_advanceCreating (rot : Rotation) (value : Option Str) :
    Calm (advanceCreating rot value) := by
  unfold advanceCreating
  split_ifs
  · exact calm_stopWith _ _
  · exact Keeps.bind (calm_setState rfl _) fun _ => Keeps.ret _

theorem calm_advanceAwaiting (rot : Rotation) (value : Option Str) :
    Calm (advanceAwaiting rot value) := by
  unfold advanceAwaiting
  split
  · exact calm_stop _
  · exact Keeps.bind (calm_storeReplacement _ _) fun _ =>
      Keeps.bind (calm_setState rfl _) fun _ => Keeps.ret _

theorem calm_advanceStored (rot : Rotation) (value : Option Str) : Calm (advanceStored rot value) :=
  Keeps.bind (calm_ask rfl) fun _ => Keeps.bind (calm_call rfl) fun _ =>
    Keeps.bind (calm_setState rfl _) fun _ => Keeps.ret _

theorem calm_advanceUpdating (env : Env) (rot : Rotation) (value : Option Str) :
    Calm (advanceUpdating env rot value) := by
  unfold advanceUpdating
  split
  · exact Keeps.throw _
  · refine Keeps.bind (Keeps.attempt (calm_ask rfl)) fun executed => ?_
    cases executed with
    | ok plan =>
        dsimp only
        split_ifs
        · exact Keeps.bind (calm_setState rfl _) fun _ => Keeps.ret _
        · exact calm_stopWith _ _
    | error e => exact calm_stopWith _ _

theorem calm_advanceVerified (env : Env) (rot : Rotation) (value : Option Str) :
    Calm (advanceVerified env rot value) := by
  refine Keeps.bind (calm_ask rfl) fun current => ?_
  split_ifs
  · exact calm_stopWith _ _
  · refine Keeps.bind (Keeps.attempt (calm_ask rfl)) fun result => ?_
    split
    · refine Keeps.bind (calm_call rfl) fun _ => Keeps.bind (calm_ask rfl) fun now => ?_
      exact Keeps.bind (calm_call rfl) fun _ => Keeps.bind (calm_setState rfl _) fun _ => Keeps.ret _
    · exact calm_stopWith _ _
    · exact calm_stopWith _ _

theorem calm_continuedUse (rot : Rotation) (acknowledged : Bool) :
    Calm (continuedUse rot acknowledged) := by
  unfold continuedUse
  split
  · refine Keeps.bind (calm_ask rfl) fun usage => ?_
    split_ifs
    · exact Keeps.ret _
    · exact Keeps.bind (calm_recordEventNote _ _) fun _ => Keeps.ret _
    · exact Keeps.ret _
  · exact Keeps.ret _

theorem calm_advanceGrace (env : Env) (rot : Rotation) (acknowledged : Bool) (value : Option Str) :
    Calm (advanceGrace env rot acknowledged value) := by
  refine Keeps.bind (calm_ask rfl) fun now => ?_
  split_ifs
  · exact calm_stop _
  · refine Keeps.bind (calm_continuedUse _ _) fun refusal => ?_
    split
    · exact calm_stopWith _ _
    · refine Keeps.bind (calm_disableOld _ _) fun advanced => ?_
      split_ifs
      · exact Keeps.ret _
      · exact calm_stop _

theorem calm_advanceDisabled (env : Env) (rot : Rotation) : Calm (advanceDisabled env rot) := by
  unfold advanceDisabled
  split_ifs
  · exact calm_stopWith _ _
  · refine Keeps.bind (Keeps.attempt (calm_revokeOld _ _)) fun revoked => ?_
    split
    · exact Keeps.bind (calm_rotationComplete _) fun _ => calm_stop _
    · exact calm_stop _
    · exact calm_stopWith _ _

theorem obeys_advanceStep (env : Env) {k : Knows} {rot : Rotation} (h : k.Ready rot)
    (acknowledged : Bool) (value : Option Str) :
    Obeys discipline (advanceStep env rot acknowledged value) k fun k' _ => k'.Unlicensed := by
  by_cases hstate : rot.state = .creatingInProgress
  · unfold advanceStep
    rw [hstate]
    exact obeys_advanceInProgress env h hstate value
  · have hk : k.Unlicensed := h.unlicensed (by simp [Rotation.licenses, hstate])
    unfold advanceStep
    split
    · exact Keeps.throw _ k hk
    · exact calm_advanceApproved _ _ k hk
    · exact calm_advanceCreating _ _ k hk
    · rename_i hprogress
      exact absurd hprogress hstate
    · exact calm_advanceAwaiting _ _ k hk
    · exact calm_advanceStored _ _ k hk
    · exact calm_advanceUpdating _ _ _ k hk
    · exact calm_advanceVerified _ _ _ k hk
    · exact calm_advanceGrace _ _ _ _ k hk
    · exact calm_advanceDisabled _ _ k hk
    · exact calm_stop _ k hk

theorem calm_advanceLoop (env : Env) (id : Str) (acknowledged : Bool) (n : Nat)
    (value : Option Str) : Calm (advanceLoop env id acknowledged n value) := by
  induction n generalizing value with
  | zero => exact calm_rotationGet id
  | succ n ih =>
      intro k hk
      have hload : Obeys discipline (load .advance id) k fun k' r =>
          (∀ rot, r = .ok rot → k'.Ready rot) ∧ ∀ e, r = .error e → k'.Unlicensed := by
        refine Obeys.call_bind trivial (fun row => ?_) fun e =>
          ⟨fun rot hrot => (by cases hrot), fun _ _ => unlicensed_giveUp k⟩
        cases row with
        | none => exact ⟨fun rot hrot => (by cases hrot), fun _ _ => unlicensed_giveUp k⟩
        | some row =>
            refine ⟨?_, fun e he => by cases he⟩
            rintro rot ⟨rfl⟩
            show Knows.Ready { k with row := some row, creation := k.creation.reload row } row
            unfold Knows.Ready Creation.reload
            split_ifs
            · rfl
            · exact unlicensed_giveUp { k with row := some row }
      refine hload.bind (fun k' rot hk' => ?_) fun k' e hk' => hk'.2 e rfl
      refine (obeys_advanceStep env (hk'.1 rot rfl) acknowledged value).bind (fun k'' next hk'' => ?_)
        fun _ _ hk'' => hk''
      cases next with
      | done view => exact Keeps.ret view k'' hk''
      | again value => exact ih value k'' hk''

theorem calm_rotationAdvance (env : Env) (id : Str) (value : Option Str) (acknowledged : Bool) :
    Calm (rotationAdvance env id value acknowledged) :=
  Keeps.bind (calm_ask rfl) fun _ => calm_advanceLoop env id acknowledged 12 value

/-! ## The operations that enter and leave the flight -/

theorem obeys_loadHelper (k : Knows) (id : Str) :
    Obeys discipline (load .helper id) k fun k' _ => k' = k := by
  have herr : ∀ e : CoreError, discipline.next k (.load .helper id) (.error e) = k := fun _ => rfl
  refine Obeys.call_bind trivial (fun row => ?_) herr
  cases row with
  | none => exact rfl
  | some row => exact rfl

/-- A swap that is allowed, with its event. -/
theorem obeys_setState {k : Knows} {id : Str} {fromState toState : RotationState}
    (h : k.MaySwap id fromState toState) (detail : Str) :
    Obeys discipline (setState id fromState toState detail) k fun k' _ => k' = k := by
  refine Obeys.call_bind h (fun swapped => ?_) fun _ => rfl
  cases swapped with
  | true => exact Obeys.call trivial fun r => by cases r <;> rfl
  | false => exact (obeys_loadHelper k id).bind (fun _ _ hk => hk) fun _ _ hk => hk

/-- A row is read to decide on it. -/
theorem obeys_loadOperation {k : Knows} (hk : k.Unlicensed) (id : Str) :
    Obeys discipline (load .operation id) k fun k' r =>
      k'.Unlicensed ∧ ∀ rot, r = .ok rot → k'.row = some rot := by
  refine Obeys.call_bind trivial (fun row => ?_) fun e => ⟨hk, fun rot hrot => (by cases hrot)⟩
  cases row with
  | none => exact ⟨hk, fun rot hrot => (by cases hrot)⟩
  | some row => exact ⟨hk, fun rot hrot => congrArg some (Except.ok.inj hrot)⟩

theorem calm_rotationApprove (id : Str) : Calm (rotationApprove id) := by
  refine Keeps.bind (calm_ask rfl) fun _ => Keeps.bind (calm_load (by decide) id) fun rot => ?_
  split_ifs
  · exact Keeps.throw _
  · intro k hk
    refine Obeys.call_bind trivial (fun (otherActive : Nat) => ?_) fun _ => hk
    by_cases hothers : 0 < otherActive
    · rw [if_pos hothers]
      exact Keeps.throw _ _ hk
    · rw [if_neg hothers]
      obtain rfl : otherActive = 0 := Nat.eq_zero_of_not_pos hothers
      refine Obeys.call_bind trivial (fun now => ?_) fun _ => hk
      refine Obeys.call_bind trivial (fun _ => ?_) fun _ => hk
      have hswap : Knows.MaySwap { k with count := some 0 } id .planned .approved :=
        ⟨fun _ _ => .inl ⟨rfl, rfl, rfl⟩, fun h => (by cases h), fun h => (by cases h)⟩
      refine (obeys_setState hswap _).bind (fun k' _ hk' => ?_) fun k' _ hk' => hk' ▸ hk
      have hcalm : Calm (approved id rot) := by
        refine Keeps.bind (calm_ask rfl) fun found => ?_
        cases found with
        | false => exact Keeps.throw _
        | true => exact Keeps.bind (calm_ask rfl) fun _ => calm_rotationGet id
      exact hcalm k' (hk' ▸ hk)

theorem calm_rotationCompleteManual (id note : Str) : Calm (rotationCompleteManual id note) := by
  refine Keeps.bind (calm_ask rfl) fun _ => Keeps.bind (calm_load (by decide) id) fun rot => ?_
  split_ifs
  · exact Keeps.throw _
  · exact Keeps.throw _
  · exact Keeps.bind (calm_setState (by simp [Action.free, RotationState.inFlight]) _) fun _ =>
      Keeps.bind (calm_auditCompleted _) fun _ => calm_rotationGet id

theorem calm_rotationCancel (id : Str) : Calm (rotationCancel id) := by
  refine Keeps.bind (calm_ask rfl) fun _ => Keeps.bind (calm_load (by decide) id) fun rot => ?_
  split_ifs
  · exact Keeps.throw _
  · exact Keeps.throw _
  · exact Keeps.bind (calm_setState (by simp [Action.free, RotationState.inFlight]) _) fun _ =>
      calm_rotationGet id

theorem calm_reenableOld (env : Env) (rot : Rotation) (n : Notes) : Calm (reenableOld env rot n) := by
  unfold reenableOld
  split
  · refine Keeps.bind (calm_ask rfl) fun _ => ?_
    split_ifs
    · refine Keeps.bind (Keeps.attempt (calm_ask rfl)) fun done => ?_
      cases done with
      | ok d => exact Keeps.ret _
      | error e => exact Keeps.ret _
    · exact Keeps.ret _
  · exact Keeps.ret _

theorem calm_restoreValue (rot : Rotation) (oldVersion current : Int) (decrypted : Bool) (n : Notes) :
    Calm (restoreValue rot oldVersion current decrypted n) := by
  unfold restoreValue
  split_ifs
  · exact Keeps.bind (calm_ask rfl) fun _ => Keeps.ret _
  · exact Keeps.ret _

theorem calm_restoreDestinations (env : Env) (rot : Rotation) (n : Notes) :
    Calm (restoreDestinations env rot n) := by
  unfold restoreDestinations
  split
  · exact Keeps.ret _
  · refine Keeps.bind (Keeps.attempt (calm_ask rfl)) fun done => ?_
    cases done with
    | ok _ => exact Keeps.ret _
    | error e => exact Keeps.ret _

theorem calm_revokeNew (env : Env) (rot : Rotation) (revokeNewKey : Bool) (n : Notes) :
    Calm (revokeNew env rot revokeNewKey n) := by
  unfold revokeNew
  split
  · refine Keeps.bind (calm_ask rfl) fun _ => Keeps.bind (calm_ask rfl) fun _ => ?_
    refine Keeps.bind (Keeps.attempt (calm_ask rfl)) fun done => ?_
    cases done with
    | ok d => exact Keeps.bind (Keeps.attempt (calm_ask rfl)) fun _ => Keeps.ret _
    | error e => exact Keeps.ret _
  · exact Keeps.ret _

theorem calm_finishRollback (id : Str) (n : Notes) : Calm (finishRollback id n) := by
  unfold finishRollback
  split_ifs
  · exact Keeps.bind (calm_setState rfl _) fun _ => calm_recordError _ _
  · intro k hk
    have hswap : k.MaySwap id .rollingBack .rolledBack :=
      ⟨fun h => (by cases h), fun _ => rfl, fun h => (by cases h)⟩
    exact (obeys_setState hswap _).mono fun k' _ hk' => hk' ▸ hk

/-- The refusal reads the log, and lets pass only what was not attempted. -/
theorem obeys_refuseAttempted {k : Knows} (hk : k.Unlicensed) {rot : Rotation}
    (hrow : k.row = some rot) :
    Obeys discipline (refuseAttempted rot) k fun k' r =>
      k'.Unlicensed ∧ k'.row = some rot ∧ ∀ u, r = .ok u →
        rot.harmless ∨ ∃ log, k'.log = some (rot.id, log) ∧ Unattempted rot log := by
  unfold refuseAttempted
  split
  · rename_i key hkey
    split_ifs with hreversible
    · exact ⟨hk, hrow, fun _ _ => .inl (.inr hreversible)⟩
    · have hread : Obeys discipline (revokeWasAttempted rot.id key) k fun k' r =>
          k'.Unlicensed ∧ k'.row = some rot ∧ (r = .ok false → ∃ log, k'.log = some (rot.id, log) ∧
            ∀ e ∈ log, e.detail ≠ revokeAttemptMarker key) := by
        refine Obeys.call_bind trivial (fun (log : List RotationEvent) => ?_) fun e =>
          ⟨hk, hrow, fun h => (by cases h)⟩
        refine ⟨hk, hrow, fun h => ⟨log, rfl, fun e he heq => ?_⟩⟩
        have hany := Except.ok.inj h
        rw [List.any_eq_false] at hany
        exact hany e he (decide_eq_true heq)
      refine hread.bind (fun k' attempted h => ?_) fun k' e h => ⟨h.1, h.2.1, fun _ h => (by cases h)⟩
      cases attempted with
      | true => exact ⟨h.1, h.2.1, fun _ h => (by cases h)⟩
      | false =>
          obtain ⟨log, hlog, hnone⟩ := h.2.2 rfl
          refine ⟨h.1, h.2.1, fun _ _ => .inr ⟨log, hlog, ?_⟩⟩
          intro key' hkey' _
          obtain rfl := Option.some.inj (hkey.symm.trans hkey')
          exact hnone
  · rename_i hnone
    exact ⟨hk, hrow, fun _ _ => .inl (.inl hnone)⟩

/-- The material of a rollback is decrypted before the state is left. -/
theorem calm_rotationRollback (env : Env) (id : Str) (revokeNewKey : Bool) :
    Calm (rotationRollback env id revokeNewKey) := by
  refine Keeps.bind (calm_ask rfl) fun _ => fun k hk => ?_
  refine (obeys_loadOperation hk id).bind (fun k₁ rot h₁ => ?_) fun _ _ h => h.1
  have hrow : k₁.row = some rot := h₁.2 rot rfl
  split
  · exact Keeps.throw _ _ h₁.1
  refine (obeys_refuseAttempted h₁.1 hrow).bind (fun k₂ u h₂ => ?_) fun _ _ h => h.1
  obtain ⟨hk₂, hrow₂, hlog⟩ := h₂
  have hlog := hlog u rfl
  split
  · exact Keeps.throw _ _ hk₂
  split
  · exact Keeps.throw _ _ hk₂
  · rename_i oldVersion _
    refine Obeys.call_bind trivial (fun (current : Int) => ?_) fun _ => hk₂
    have hdecrypt : Obeys discipline (decryptOld rot oldVersion current) k₂ fun k' _ => k' = k₂ := by
      unfold decryptOld
      split_ifs
      · exact Obeys.call_bind trivial (fun _ => rfl) fun _ => rfl
      · exact rfl
    refine hdecrypt.bind (fun k₃ decrypted h₃ => ?_) fun _ _ h => h ▸ hk₂
    obtain rfl := h₃
    have hswap : k₃.MaySwap rot.id rot.state .rollingBack :=
      ⟨fun _ _ => .inr rfl, fun h => (by cases h), fun _ => ⟨rot, hrow₂, rfl, rfl, hlog⟩⟩
    refine (obeys_setState hswap _).bind (fun k₄ _ h₄ => ?_) fun _ _ h => h ▸ hk₂
    have hcalm : Calm (rolledBackFrom env rot oldVersion current decrypted revokeNewKey) := by
      refine Keeps.bind (calm_reenableOld _ _ _) fun n => Keeps.bind (calm_restoreValue _ _ _ _ _)
        fun n => Keeps.bind (calm_restoreDestinations _ _ _) fun n => ?_
      refine Keeps.bind (calm_revokeNew _ _ _ _) fun n => Keeps.bind (calm_finishRollback _ _) fun _ => ?_
      exact Keeps.bind (calm_ask rfl) fun _ => Keeps.bind (calm_ask rfl) fun _ => calm_rotationGet _
    exact hcalm k₄ (h₄ ▸ hk₂)

/-- Every operation obeys the discipline. -/
theorem obeys_program (env : Env) (op : Op) :
    Obeys discipline ((system env).program op) Knows.start fun _ _ => True := by
  have hcalm : Calm (op.program env) := by
    cases op with
    | plan req => exact calm_rotationPlan req
    | approve id => exact calm_rotationApprove id
    | advance id value acknowledged => exact calm_rotationAdvance env id value acknowledged
    | completeManual id note => exact calm_rotationCompleteManual id note
    | cancel id => exact calm_rotationCancel id
    | rollback id revokeNewKey => exact calm_rotationRollback env id revokeNewKey
  exact (hcalm Knows.start fun id h => by cases h).mono fun _ _ _ => trivial

end Tethra.Rotations
