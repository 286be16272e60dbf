import Tethra.Rotation.Completed

set_option autoImplicit false

/-! # The rollback material (`core/src/vault.rs`)

A replacement retains the outgoing value under its version, prunes, and counts the version up, in one
transaction. The store of a rotation reads the version before and behind that transaction, and records
both in a statement of its own; only then are the prunes told to spare the retained row. -/

namespace Tethra.Rotations

open Interleave Runs

/-! ## The vault -/

/-- What a ciphertext is bound to. -/
inductive Aad where
  | credentialValue (credentialId : Str)
  | credentialVersion (credentialId : Str) (version : Int)
  deriving DecidableEq

/-- The cipher under the key of the credential's project. -/
structure Cipher where
  encrypt (aad : Aad) (nonce : Nat) (plaintext : List UInt8) : List UInt8
  decrypt : Aad → List UInt8 → Option (List UInt8)
  decrypt_encrypt : ∀ aad nonce plaintext, decrypt aad (encrypt aad nonce plaintext) = some plaintext

/-- What a replacement looks at in a credential. -/
structure Credential where
  version : Int
  ciphertext : Option (List UInt8)
  isReference : Bool
  deriving DecidableEq

/-- A row of `credential_versions`. -/
structure RetainedVersion where
  credentialId : Str
  version : Int
  ciphertext : List UInt8
  createdAt : Str
  deriving DecidableEq

structure VaultValues where
  db : Db
  credentials : Str → Option Credential
  retained : List RetainedVersion

/-- A rotation in flight needs the version for its rollback. -/
def Db.exempts (db : Db) (r : RetainedVersion) : Bool :=
  db.rotations.any fun rot =>
    rot.credentialId = r.credentialId && rot.oldVersion = some r.version && rot.state.inFlight

/-- A prune: it spares what the rotations exempt. -/
def VaultValues.prune (v : VaultValues) (gone : RetainedVersion → Bool) : VaultValues :=
  { v with retained := v.retained.filter fun r => !gone r || v.db.exempts r }

/-- The new value, with what the clock and the random generator answer. -/
structure Replacement where
  value : Str
  now : Str
  /-- The age at which versions are pruned; None: not by age. -/
  cutoff : Option Str
  retainNonce : Nat
  valueNonce : Nat

def keepVersions : Int := 10

/-- Retain the plaintext under the version of the credential, and prune. -/
def VaultValues.retainCredentialVersion (cipher : Cipher) (v : VaultValues) (credentialId : Str)
    (version : Int) (plaintext : List UInt8) (input : Replacement) : VaultValues :=
  let row : RetainedVersion := ⟨credentialId, version,
    cipher.encrypt (.credentialVersion credentialId version) input.retainNonce plaintext, input.now⟩
  let others := v.retained.filter fun r => !(r.credentialId = credentialId && r.version = version)
  let counted := VaultValues.prune { v with retained := others ++ [row] } fun r =>
    r.credentialId = credentialId && r.version ≤ version - keepVersions
  match input.cutoff with
  | none => counted
  | some cutoff => counted.prune fun r => r.credentialId = credentialId && decide (r.createdAt < cutoff)

/-- The value of a credential, decrypted. -/
def Credential.plaintext (cipher : Cipher) (credentialId : Str) (c : Credential) :
    Option (List UInt8) :=
  c.ciphertext.bind (cipher.decrypt (.credentialValue credentialId))

/-- The transaction of a replacement; None: it fails. -/
def VaultValues.replaceCredentialValue (cipher : Cipher) (v : VaultValues) (credentialId : Str)
    (input : Replacement) : Option VaultValues :=
  if Text.trim input.value = [] then none
  else match v.credentials credentialId with
    | none => none
    | some c =>
        if c.isReference then none
        else match c.plaintext cipher credentialId with
          | none => none
          | some plaintext =>
              let kept := v.retainCredentialVersion cipher credentialId c.version plaintext input
              let ciphertext := cipher.encrypt (.credentialValue credentialId) input.valueNonce
                ((Text.trim input.value).flatMap String.utf8EncodeChar)
              let replaced : Credential := ⟨c.version + 1, some ciphertext, false⟩
              some { kept with
                credentials := Function.update kept.credentials credentialId (some replaced) }

/-- The sweep of an unlock. -/
def VaultValues.sweep (v : VaultValues) (cutoff : Str) : VaultValues :=
  v.prune fun r => decide (r.createdAt < cutoff)

/-! ## Runs -/

/-- An action of a rotation operation in the vault. A replacement that is committed is a step of its
    own. -/
def VaultExec (v : VaultValues) : (a : Action) → Except CoreError (Answer a) → VaultValues → Prop
  | .request (.valueVersionOf credentialId), .ok version, v' =>
      v' = v ∧ (v.credentials credentialId).map Credential.version = some version
  | .request (.replaceCredentialValue _), .ok _, _ => False
  | a, x, v' => Exec v.db a x v'.db ∧ v'.credentials = v.credentials ∧ v'.retained = v.retained

/-- A replacement that an advance has committed, with the credential around it. -/
structure OwnStore where
  rotationId : Str
  credentialId : Str
  before : Credential
  after : Credential
  deriving DecidableEq

/-- The vault with its processes, and the replacements of the advances so far. -/
structure Observed where
  world : World VaultValues Answer CoreError Rotation
  stores : List OwnStore

def Observed.initial (credentials : Str → Option Credential) (retained : List RetainedVersion) :
    Observed :=
  ⟨World.initial ⟨Db.empty, credentials, retained⟩, []⟩

/-- What a replacement from one vault to the other is for the rotation that the process advances. -/
def Course.ownStores (k : Course) (credentialId : Str) (v v' : VaultValues) : List OwnStore :=
  match k.advancing, v.credentials credentialId, v'.credentials credentialId with
  | true, some before, some after => k.rowIds.map fun id => ⟨id, credentialId, before, after⟩
  | _, _, _ => []

/-- What a step does to the vault. -/
inductive Change where
  | action (e : Event Answer CoreError)
  /-- A process commits its replacement. -/
  | store (i : Nat) (p : Proc Answer CoreError Rotation) (credentialId : Str) (input : Replacement)
  /-- Another session replaces a value. -/
  | replace (credentialId : Str)
  /-- A session unlocks. -/
  | sweep (cutoff : Str)

/-- Rotation operations with crashes, replacements by other sessions, and unlocks. A committed
    replacement may still report an error. -/
inductive VaultStep (env : Env) (cipher : Cipher) (cond : Observed → Change → Prop) :
    Observed → Observed → Prop
  | start (w : Observed) (op : Op) : VaultStep env cipher cond w
      { w with world := { w.world with procs := w.world.procs ++ [⟨some (op.program env), []⟩] } }
  | crash {w : Observed} {i : Nat} {p : Proc Answer CoreError Rotation}
      (hp : w.world.procs[i]? = some p) : VaultStep env cipher cond w
      { w with world := { w.world with procs := w.world.procs.set i ⟨none, p.history⟩ } }
  | act {w : Observed} {i : Nat} {p : Proc Answer CoreError Rotation} {a : Action}
      {next : Except CoreError (Answer a) → Prog Rotation} {x : Except CoreError (Answer a)}
      {v : VaultValues}
      (hp : w.world.procs[i]? = some p) (hprog : p.prog = some (.act a next))
      (hexec : VaultExec w.world.state a x v) (hcond : cond w (.action ⟨a, x⟩)) :
      VaultStep env cipher cond w
        { w with world := w.world.perform v i (p.perform (next x) ⟨a, x⟩) ⟨a, x⟩ }
  | store {w : Observed} {i : Nat} {p : Proc Answer CoreError Rotation} {credentialId : Str}
      {next : Except CoreError (Answer (.request (.replaceCredentialValue credentialId))) → Prog Rotation}
      {input : Replacement} {v : VaultValues}
      (hp : w.world.procs[i]? = some p)
      (hprog : p.prog = some (.act (.request (.replaceCredentialValue credentialId)) next))
      (hreplace : w.world.state.replaceCredentialValue cipher credentialId input = some v)
      (x : Except CoreError (Answer (.request (.replaceCredentialValue credentialId))))
      (hcond : cond w (.store i p credentialId input)) :
      VaultStep env cipher cond w
        ⟨w.world.perform v i (p.perform (next x) ⟨.request (.replaceCredentialValue credentialId), x⟩)
          ⟨.request (.replaceCredentialValue credentialId), x⟩,
          w.stores ++ (p.knows course Course.start).ownStores credentialId w.world.state v⟩
  | replace {w : Observed} {credentialId : Str} {input : Replacement} {v : VaultValues}
      (hreplace : w.world.state.replaceCredentialValue cipher credentialId input = some v)
      (hcond : cond w (.replace credentialId)) :
      VaultStep env cipher cond w { w with world := { w.world with state := v } }
  | sweep {w : Observed} {cutoff : Str} (hcond : cond w (.sweep cutoff)) :
      VaultStep env cipher cond w
        { w with world := { w.world with state := w.world.state.sweep cutoff } }

/-! ## The condition -/

/-- The process has read the version for a store of the credential, and not recorded it. -/
def Course.storesInto (k : Course) (credentialId : Str) : Bool :=
  match k.storing with
  | .read _ | .replaced _ | .reread .. => k.row.any fun row => row.credentialId = credentialId
  | _ => false

/-- The process has retained the version, and not recorded it. -/
def Course.hasRetained (k : Course) (r : RetainedVersion) : Bool :=
  match k.storing with
  | .replaced old | .reread old _ =>
      k.row.any fun row => row.credentialId = r.credentialId && r.version = old
  | _ => false

/-- Another process has a store of the credential under way; `i` is the process itself. -/
def Observed.Storing (w : Observed) (i : Option Nat) (credentialId : Str) : Prop :=
  ∃ j q, w.world.procs[j]? = some q ∧ some j ≠ i ∧ q.prog.isSome = true ∧
    (q.knows course Course.start).storesInto credentialId = true

/-- A value is replaced while no store of it is under way, and by a rotation once, with a clock that does
    not take the row that is being retained for an old one; an unlock spares what a store under way has
    retained; a rollback takes up no rotation that has ended. -/
def Undisturbed (w : Observed) : Change → Prop
  | .action ⟨.swapState _ fromState .rollingBack, .ok swapped⟩ =>
      (swapped : Bool) = true → fromState.inFlight = true
  | .action _ => True
  | .store i p credentialId input => ¬w.Storing (some i) credentialId ∧
      ((p.knows course Course.start).advancing = true →
        (∀ s ∈ w.stores, s.rotationId ∉ (p.knows course Course.start).rowIds) ∧
        ∀ cutoff ∈ input.cutoff, ¬input.now < cutoff)
  | .replace credentialId => ¬w.Storing none credentialId
  | .sweep cutoff => ∀ q ∈ w.world.procs, q.prog.isSome = true → ∀ r ∈ w.world.state.retained,
      (q.knows course Course.start).hasRetained r = true → ¬r.createdAt < cutoff

/-! ## The property -/

/-- The retained row of the version before a store decrypts to the value before it. -/
def VaultValues.Keeps (cipher : Cipher) (v : VaultValues) (s : OwnStore) : Prop :=
  ∃ r ∈ v.retained, r.credentialId = s.credentialId ∧ r.version = s.before.version ∧
    ∃ text, s.before.plaintext cipher s.credentialId = some text ∧
      cipher.decrypt (.credentialVersion r.credentialId r.version) r.ciphertext = some text

/-- The row records the versions around a store of its own. -/
structure OwnStore.RecordedIn (s : OwnStore) (row : Rotation) : Prop where
  rotation : s.rotationId = row.id
  credential : s.credentialId = row.credentialId
  old : row.oldVersion = some s.before.version
  new : row.newVersion = some s.after.version

/-- A rotation in flight that has a version of its replacement, or is in a state behind the store, has
    stored a replacement once, has the versions around that store recorded, and the value before it
    retained. -/
def Observed.MaterialRight (cipher : Cipher) (w : Observed) : Prop :=
  ∀ row ∈ w.world.state.db.rotations, row.state.inFlight = true →
    row.newVersion.isSome = true ∨ row.state.afterStore = true →
    ∃ s ∈ w.stores, (∀ t ∈ w.stores, t.rotationId = row.id → t = s) ∧ s.RecordedIn row ∧
      w.world.state.Keeps cipher s

/-! ## A replacement -/

section Replace

variable {cipher : Cipher} {v v' : VaultValues} {credentialId : Str}

theorem VaultValues.mem_prune {gone : RetainedVersion → Bool} {r : RetainedVersion} :
    r ∈ (v.prune gone).retained ↔ r ∈ v.retained ∧ (gone r = false ∨ v.db.exempts r = true) := by
  simp [prune]

theorem VaultValues.mem_retainCredentialVersion {version : Int} {plaintext : List UInt8}
    {input : Replacement} {r : RetainedVersion} (hr : r ∈ v.retained)
    (hspared : r.credentialId ≠ credentialId ∨ r.version ≠ version ∧ v.db.exempts r = true) :
    r ∈ (v.retainCredentialVersion cipher credentialId version plaintext input).retained := by
  have hother : r ∈ v.retained.filter fun r => !(r.credentialId = credentialId && r.version = version) := by
    refine List.mem_filter.2 ⟨hr, ?_⟩
    rcases hspared with h | ⟨h, -⟩
    · simp [h]
    · simp [h]
  unfold retainCredentialVersion
  dsimp only
  split
  · refine mem_prune.2 ⟨List.mem_append_left _ hother, ?_⟩
    exact hspared.imp (fun h => by simp [h]) And.right
  · refine mem_prune.2 ⟨mem_prune.2 ⟨List.mem_append_left _ hother, ?_⟩, ?_⟩
    · exact hspared.imp (fun h => by simp [h]) And.right
    · exact hspared.imp (fun h => by simp [h]) And.right

/-- The row that is retained survives the prunes of its own transaction. -/
theorem VaultValues.retained_retainCredentialVersion {version : Int} {plaintext : List UInt8}
    {input : Replacement} (hclock : ∀ cutoff ∈ input.cutoff, ¬input.now < cutoff) :
    ⟨credentialId, version, cipher.encrypt (.credentialVersion credentialId version)
        input.retainNonce plaintext, input.now⟩
      ∈ (v.retainCredentialVersion cipher credentialId version plaintext input).retained := by
  have hcount : ¬version ≤ version - keepVersions := by
    unfold keepVersions
    omega
  unfold retainCredentialVersion
  dsimp only
  split
  · exact mem_prune.2 ⟨by simp, .inl (by simp [hcount])⟩
  · rename_i cutoff hcutoff
    refine mem_prune.2 ⟨mem_prune.2 ⟨by simp, .inl (by simp [hcount])⟩, .inl ?_⟩
    simpa using hclock cutoff hcutoff

@[simp] theorem VaultValues.db_retainCredentialVersion (version : Int) (plaintext : List UInt8)
    (input : Replacement) :
    (v.retainCredentialVersion cipher credentialId version plaintext input).db = v.db := by
  unfold retainCredentialVersion
  dsimp only
  split <;> rfl

@[simp] theorem VaultValues.credentials_retainCredentialVersion (version : Int) (plaintext : List UInt8)
    (input : Replacement) :
    (v.retainCredentialVersion cipher credentialId version plaintext input).credentials
      = v.credentials := by
  unfold retainCredentialVersion
  dsimp only
  split <;> rfl

/-- What a replacement does to the vault. -/
structure VaultValues.Replaced (cipher : Cipher) (v : VaultValues) (credentialId : Str)
    (input : Replacement) (v' : VaultValues) (before after : Credential) : Prop where
  db : v'.db = v.db
  outgoing : v.credentials credentialId = some before
  incoming : v'.credentials credentialId = some after
  others : ∀ id, id ≠ credentialId → v'.credentials id = v.credentials id
  version : after.version = before.version + 1
  kept : ∀ r ∈ v.retained, (r.credentialId ≠ credentialId ∨
    r.version ≠ before.version ∧ v.db.exempts r = true) → r ∈ v'.retained
  retained : (∀ cutoff ∈ input.cutoff, ¬input.now < cutoff) →
    ∀ rotationId, v'.Keeps cipher ⟨rotationId, credentialId, before, after⟩

theorem VaultValues.replaced {input : Replacement}
    (h : v.replaceCredentialValue cipher credentialId input = some v') :
    ∃ before after, v.Replaced cipher credentialId input v' before after := by
  unfold replaceCredentialValue at h
  split_ifs at h
  split at h
  · cases h
  · rename_i c hc
    split_ifs at h
    split at h
    · cases h
    · rename_i plaintext hplaintext
      obtain rfl := Option.some.inj h
      refine ⟨c, ⟨c.version + 1, _, false⟩, by simp, hc, by simp; rfl, fun id hid => ?_, rfl, ?_, ?_⟩
      · simp [Function.update_of_ne hid]
      · exact fun r hr hspared => mem_retainCredentialVersion hr hspared
      · intro hclock rotationId
        refine ⟨_, retained_retainCredentialVersion hclock, rfl, rfl, plaintext, hplaintext, ?_⟩
        exact cipher.decrypt_encrypt _ _ _

end Replace

end Tethra.Rotations
