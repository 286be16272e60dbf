import Tethra.Vault.Readable
import Tethra.Lib.Runs

set_option autoImplicit false

/-! # Sessions on one vault (`core/src/vault.rs`)

Several sessions work on one database. Each keeps the keys that it has unlocked; a read, a write
transaction and a change of the kept keys are steps of their own, between which the others may step, and
an operation may end after any of them. -/

namespace Tethra.Vault

open Runs

/-- What an operation has still to do, once it has read or committed. -/
inductive Pending (δ : Type) where
  | nothing
  | keeps (projectId : Str) (key : SecretKey) (wrapHash : δ)
  | drops (projectId : Str)
  | removes (pre : ProjectRow) (oldKey : SecretKey)

structure Session (δ : Type) where
  projectKeys : ProjectKeys δ
  pending : Pending δ

/-- The database and the sessions; `drawn` counts the project keys. -/
structure World (δ : Type) where
  db : VaultDb
  sessions : Nat → Session δ
  drawn : Nat

inductive Op where
  | createProject (id name : Str)
  | addCredential (s : Nat) (ident id name value : Str)
  | replaceCredentialValue (s : Nat) (selector value : Str) (stays : VersionRow → Bool)
  | deleteCredential (id : Str)
  | setProjectPassword (s : Nat) (ident password salt kdfParams : Str)
  | unlockProject (s : Nat) (ident password : Str)
  | readForRemoval (s : Nat) (ident password : Str)
  | removeProjectPassword (s : Nat)
  | finish (s : Nat)
  | lockProject (s : Nat) (projectId : Str)
  | giveUp (s : Nat)

section Steps

variable {δ : Type} [DecidableEq δ] (hash : Secret → δ)

def World.become (w : World δ) (s : Nat) (session : Session δ) : World δ :=
  { w with sessions := Function.update w.sessions s session }

def World.await (w : World δ) (s : Nat) (pending : Pending δ) : World δ :=
  w.become s ⟨(w.sessions s).projectKeys, pending⟩

/-- A transaction that fails is rolled back. -/
def World.commit (w : World δ) : Except CoreError VaultDb → World δ
  | .ok db => { w with db }
  | .error _ => w

/-- Keep a key, or drop it. -/
def Session.settle (session : Session δ) : Session δ :=
  match session.pending with
  | .keeps projectId key wrapHash =>
      ⟨Function.update session.projectKeys projectId (some (key, wrapHash)), .nothing⟩
  | .drops projectId => ⟨Function.update session.projectKeys projectId none, .nothing⟩
  | .nothing | .removes _ _ => ⟨session.projectKeys, .nothing⟩

def World.step (w : World δ) : Op → World δ
  | .createProject id name =>
      { w.commit (createProject w.db id name (.project w.drawn)) with drawn := w.drawn + 1 }
  | .addCredential s ident id name value =>
      w.commit (addCredential hash w.db (w.sessions s).projectKeys ident id name value)
  | .replaceCredentialValue s selector value stays =>
      w.commit (replaceCredentialValue hash w.db (w.sessions s).projectKeys selector value stays)
  | .deleteCredential id => { w with db := deleteCredential w.db id }
  | .setProjectPassword s ident password salt kdfParams =>
      match setProjectPassword hash w.db (w.sessions s).projectKeys ident password salt kdfParams
          (.project w.drawn) with
      | .ok (db, projectId, key, wrapHash) =>
          { w with
            db
            drawn := w.drawn + 1 }.await s (.keeps projectId key wrapHash)
      | .error _ => { w with drawn := w.drawn + 1 }
  | .unlockProject s ident password =>
      match unlockProject hash w.db ident password with
      | .ok (projectId, key, wrapHash) => w.await s (.keeps projectId key wrapHash)
      | .error _ => w
  | .readForRemoval s ident password =>
      match readForRemoval w.db ident password with
      | .ok (pre, oldKey) => w.await s (.removes pre oldKey)
      | .error _ => w
  | .removeProjectPassword s =>
      match (w.sessions s).pending with
      | .removes pre oldKey =>
          match removeProjectPassword w.db pre oldKey (.project w.drawn) with
          | .ok (db, projectId) =>
              { w with
                db
                drawn := w.drawn + 1 }.await s (.drops projectId)
          | .error _ => { w with drawn := w.drawn + 1 }.await s .nothing
      | _ => w
  | .finish s => w.become s (w.sessions s).settle
  | .lockProject s projectId =>
      w.become s ⟨Function.update (w.sessions s).projectKeys projectId none, .nothing⟩
  | .giveUp s => w.await s .nothing

def World.Next (w w' : World δ) : Prop := ∃ op, w' = w.step hash op

/-- A sound database, and sessions that have unlocked nothing yet. -/
structure World.Initial (w : World δ) : Prop where
  sound : w.db.Sound
  locked : ∀ s, w.sessions s = ⟨fun _ => none, .nothing⟩

/-! ## The invariant -/

/-- A key that is about to be kept is the one inside the wrap that its hash is of. -/
def Pending.Inv : Pending δ → Prop
  | .keeps projectId key wrapHash => Cached hash projectId key wrapHash
  | _ => True

structure Session.Inv (session : Session δ) : Prop where
  keys : KeysCached hash session.projectKeys
  pending : session.pending.Inv hash

structure World.Inv (w : World δ) : Prop where
  sound : w.db.Sound
  sessions : ∀ s, (w.sessions s).Inv hash

end Steps

section Invariant

variable {δ : Type} {hash : Secret → δ} {w : World δ}

theorem World.Initial.inv (h : w.Initial) : w.Inv hash := by
  refine ⟨h.sound, fun s => ?_⟩
  rw [h.locked s]
  exact ⟨nofun, trivial⟩

theorem World.Inv.commit (h : w.Inv hash) {result : Except CoreError VaultDb}
    (hresult : ∀ db, result = .ok db → db.Sound) : (w.commit result).Inv hash := by
  cases result with
  | ok db => exact ⟨hresult db rfl, h.sessions⟩
  | error e => exact h

theorem World.Inv.become (h : w.Inv hash) {s : Nat} {session : Session δ} (hsession : session.Inv hash) :
    (w.become s session).Inv hash := by
  refine ⟨h.sound, fun q => ?_⟩
  change (Function.update w.sessions s session q).Inv hash
  by_cases hq : q = s
  · rw [hq, Function.update_self]
    exact hsession
  · rw [Function.update_of_ne hq]
    exact h.sessions q

theorem World.Inv.await (h : w.Inv hash) {s : Nat} {pending : Pending δ} (hpending : pending.Inv hash) :
    (w.await s pending).Inv hash := h.become ⟨(h.sessions s).keys, hpending⟩

theorem keysCached_update {keys : ProjectKeys δ} (h : KeysCached hash keys) {projectId : Str}
    {entry : Option (SecretKey × δ)}
    (hentry : ∀ k wrapHash, entry = some (k, wrapHash) → Cached hash projectId k wrapHash) :
    KeysCached hash (Function.update keys projectId entry) := by
  intro q k wrapHash hq
  by_cases heq : q = projectId
  · rw [heq, Function.update_self] at hq
    rw [heq]
    exact hentry k wrapHash hq
  · rw [Function.update_of_ne heq] at hq
    exact h q k wrapHash hq

theorem Session.Inv.settle {session : Session δ} (h : session.Inv hash) : session.settle.Inv hash := by
  have hpending := h.pending
  unfold Session.settle
  split
  · rename_i projectId key wrapHash heq
    rw [heq] at hpending
    refine ⟨keysCached_update h.keys ?_, trivial⟩
    intro k wrapHash' hentry
    obtain ⟨rfl, rfl⟩ := Prod.mk.inj (Option.some.inj hentry)
    exact hpending
  · exact ⟨keysCached_update h.keys nofun, trivial⟩
  · exact ⟨h.keys, trivial⟩
  · exact ⟨h.keys, trivial⟩

variable [DecidableEq δ]

/-- Every step keeps the invariant. -/
theorem World.Inv.step (hhash : Function.Injective hash) (h : w.Inv hash) (op : Op) :
    (w.step hash op).Inv hash := by
  unfold World.step
  cases op with
  | createProject id name =>
      have hcommit := h.commit fun db => @sound_createProject w.db db id name (.project w.drawn) h.sound
      exact ⟨hcommit.sound, hcommit.sessions⟩
  | addCredential s ident id name value =>
      exact h.commit fun db => sound_addCredential hhash (h.sessions s).keys h.sound
  | replaceCredentialValue s selector value stays =>
      exact h.commit fun db => sound_replaceCredentialValue hhash (h.sessions s).keys h.sound
  | deleteCredential id => exact ⟨sound_deleteCredential h.sound id, h.sessions⟩
  | setProjectPassword s ident password salt kdfParams =>
      dsimp only
      split
      · rename_i db projectId key wrapHash hok
        -- the new key is kept by a step of its own, with the hash of the wrap just committed
        obtain ⟨hsound, hcached⟩ := sound_setProjectPassword h.sound hok
        have hcommitted : World.Inv hash ⟨db, w.sessions, w.drawn + 1⟩ := ⟨hsound, h.sessions⟩
        exact hcommitted.await hcached
      · exact ⟨h.sound, h.sessions⟩
  | unlockProject s ident password =>
      dsimp only
      split
      · rename_i projectId key wrapHash hok
        exact h.await (cached_unlockProject hok)
      · exact h
  | readForRemoval s ident password =>
      dsimp only
      split
      · exact h.await trivial
      · exact h
  | removeProjectPassword s =>
      dsimp only
      split
      · split
        · rename_i db projectId hok
          have hcommitted : World.Inv hash ⟨db, w.sessions, w.drawn + 1⟩ :=
            ⟨sound_removeProjectPassword h.sound hok, h.sessions⟩
          exact hcommitted.await trivial
        · have hdrawn : World.Inv hash ⟨w.db, w.sessions, w.drawn + 1⟩ := ⟨h.sound, h.sessions⟩
          exact hdrawn.await trivial
      · exact h
  | finish s => exact h.become (h.sessions s).settle
  | lockProject s projectId =>
      exact h.become ⟨keysCached_update (h.sessions s).keys nofun, trivial⟩
  | giveUp s => exact h.await trivial

/-- In every run of the sessions, each credential value and each retained version of a project decrypts
    under the key that the project's row wraps. -/
theorem readable_run (hhash : Function.Injective hash) {w₀ : World δ} (hinitial : w₀.Initial)
    (hrun : Steps (World.Next hash) w₀ w) : w.db.Readable := by
  have hinv : w.Inv hash := by
    refine Steps.invariant (I := World.Inv hash) ?_ hinitial.inv hrun
    rintro s t hs ⟨op, rfl⟩
    exact hs.step hhash op
  exact hinv.sound.readable

end Invariant

/-! ## One project -/

/-- An empty vault, with the wrap itself for its hash. -/
def emptyVault : World Secret := ⟨⟨[], [], []⟩, fun _ => ⟨fun _ => none, .nothing⟩, 0⟩

/-- One session adds a value and then a password; it keeps the new key. -/
def lockedVault : World Secret :=
  (((emptyVault.step id (.createProject "p1".toList "web".toList)).step id
    (.addCredential 1 "web".toList "c1".toList "openai".toList "sk-1".toList)).step id
      (.setProjectPassword 0 "web".toList "hunter2".toList "salt".toList "kdf".toList)).step id
        (.finish 0)

/-- The session that set the password replaces the value, and the old one is kept as a version. -/
theorem readable_run_replaced :
    (lockedVault.step id (.replaceCredentialValue 0 "c1".toList "sk-2".toList fun _ => true)
        ).db.versions.length = 1 ∧
      (lockedVault.step id (.replaceCredentialValue 0 "c1".toList "sk-2".toList fun _ => true)
        ).db.Readable := by
  have hempty : emptyVault.Initial :=
    ⟨⟨⟨List.nodup_nil, List.nodup_nil, nofun, nofun⟩, nofun⟩, fun _ => rfl⟩
  refine ⟨by decide, readable_run Function.injective_id hempty ?_⟩
  exact .tail (.tail (.tail (.tail (.tail .refl ⟨_, rfl⟩) ⟨_, rfl⟩) ⟨_, rfl⟩) ⟨_, rfl⟩) ⟨_, rfl⟩

end Tethra.Vault
