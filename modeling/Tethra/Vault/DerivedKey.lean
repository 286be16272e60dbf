import Tethra.Core.Error
import Tethra.Lib.Interference

set_option autoImplicit false

/-! # Keys created on first use (`core/src/vault.rs`)

The gateway's MAC key and the key of the `.env` restore records are stored wrapped in the vault's metadata,
and are created when they are first asked for: a read, a new key and an upsert, each on its own. Two first
users can both find nothing; the later upsert replaces the key that the earlier one has returned
(`two_first_users`). With no key stored when one is upserted, the keys are stable (`derived_keys_stable`). -/

namespace Tethra.DerivedKeys

open Interleave

abbrev Bytes := List UInt8

inductive KeySlot where
  | gatewayMac
  | envRestore
  deriving DecidableEq, Repr

/-- The key in `vault_meta`. -/
def KeySlot.metaKey : KeySlot → String
  | .gatewayMac => "wrapped_gateway_mac_key"
  | .envRestore => "wrapped_env_restore_key"

def KeySlot.notHex : KeySlot → String
  | .gatewayMac => "wrapped gateway MAC key is not valid hex"
  | .envRestore => "wrapped env restore key is not valid hex"

def KeySlot.created : KeySlot → String
  | .gatewayMac => "gateway_mac_key_created"
  | .envRestore => "env_restore_key_created"

/-- The crates outside: hexadecimal text, and decryption under the vault's key with the slot's associated
    data. -/
structure VaultCrypto where
  hexEncode : Bytes → Str
  hexDecode : Str → Option Bytes
  decrypt : KeySlot → Bytes → Except CoreError Bytes
  decode_encode : ∀ b, hexDecode (hexEncode b) = some b

/-- The actions of a caller. -/
inductive Action where
  | metaGet (key : String)
  | newKey
  | encrypt (slot : KeySlot) (key : Bytes)
  | metaSet (key : String) (value : Str)
  | auditRecord (event : String)

abbrev Answer : Action → Type
  | .metaGet _ => Option Str
  | .newKey => Bytes
  | .encrypt _ _ => Bytes
  | .metaSet _ _ => Unit
  | .auditRecord _ => Unit

abbrev KeyProg := Prog Answer CoreError

def unwrapKey (c : VaultCrypto) (slot : KeySlot) (wrappedHex : Str) : Except CoreError Bytes :=
  match c.hexDecode wrappedHex with
  | none => .error (.vaultCorrupted slot.notHex)
  | some wrapped => c.decrypt slot wrapped

/-- `gateway_route_mac_key` and `env_restore_key`. -/
def derivedKey (c : VaultCrypto) (slot : KeySlot) : KeyProg Bytes :=
  Prog.call (.metaGet slot.metaKey) >>= fun (stored : Option Str) =>
    match stored with
    | some wrappedHex =>
        match unwrapKey c slot wrappedHex with
        | .ok key => .ret key
        | .error e => .throw e
    | none =>
        Prog.call .newKey >>= fun key =>
        Prog.call (.encrypt slot key) >>= fun wrapped =>
        Prog.call (.metaSet slot.metaKey (c.hexEncode wrapped)) >>= fun _ =>
        Prog.call (.auditRecord slot.created) >>= fun _ =>
        .ret key

def gatewayRouteMacKey (c : VaultCrypto) : KeyProg Bytes := derivedKey c .gatewayMac

def envRestoreKey (c : VaultCrypto) : KeyProg Bytes := derivedKey c .envRestore

/-- A caller of one of the two, and which key it got. -/
def caller (c : VaultCrypto) (slot : KeySlot) : KeyProg (KeySlot × Bytes) :=
  (match slot with
    | .gatewayMac => gatewayRouteMacKey c
    | .envRestore => envRestoreKey c) >>= fun key => .ret (slot, key)

/-- The metadata of the vault, and its audit log. -/
structure Meta where
  value : String → Option Str
  audit : List String

/-- `meta_set`. -/
def Meta.set (s : Meta) (key : String) (value : Str) : Meta :=
  { s with value := Function.update s.value key (some value) }

/-- The replies: a read gives what is stored, a new key is any, a wrap is one that decrypts to its key, and
    an upsert replaces; the database may fail instead. -/
inductive Exec (c : VaultCrypto) : Meta → (a : Action) → Except CoreError (Answer a) → Meta → Prop where
  | fail (s : Meta) (a : Action) (e : CoreError) : Exec c s a (.error e) s
  | metaGet (s : Meta) (key : String) : Exec c s (.metaGet key) (.ok (s.value key)) s
  | newKey (s : Meta) (key : Bytes) : Exec c s .newKey (.ok key) s
  | encrypt (s : Meta) (slot : KeySlot) (key wrapped : Bytes) (h : c.decrypt slot wrapped = .ok key) :
      Exec c s (.encrypt slot key) (.ok wrapped) s
  | metaSet (s : Meta) (key : String) (value : Str) :
      Exec c s (.metaSet key value) (.ok ()) (s.set key value)
  | auditRecord (s : Meta) (event : String) :
      Exec c s (.auditRecord event) (.ok ()) { s with audit := s.audit ++ [event] }

def keySystem (c : VaultCrypto) : System Meta KeySlot Answer CoreError (KeySlot × Bytes) where
  program := caller c
  exec := Exec c

/-- The key is the one whose wrap is stored. -/
def Stored (c : VaultCrypto) (s : Meta) (slot : KeySlot) (key : Bytes) : Prop :=
  ∃ wrappedHex, s.value slot.metaKey = some wrappedHex ∧ unwrapKey c slot wrappedHex = .ok key

/-- Nothing is stored yet when a new key is upserted. -/
def FirstAlone (s : Meta) : Event Answer CoreError → Prop
  | ⟨.metaSet key _, _⟩ => s.value key = none
  | _ => True

/-- What is stored stays. -/
def KeepsStored (s t : Meta) : Prop := ∀ key value, s.value key = some value → t.value key = some value

theorem KeepsStored.refl (s : Meta) : KeepsStored s s := fun _ _ h => h

theorem KeepsStored.trans (s t u : Meta) (hst : KeepsStored s t) (htu : KeepsStored t u) :
    KeepsStored s u := fun key value h => htu key value (hst key value h)

theorem Stored.keeps {c : VaultCrypto} {s t : Meta} {slot : KeySlot} {key : Bytes}
    (h : Stored c s slot key) (hst : KeepsStored s t) : Stored c t slot key := by
  obtain ⟨wrappedHex, hstored, hkey⟩ := h
  exact ⟨wrappedHex, hst _ _ hstored, hkey⟩

/-- An upsert over nothing keeps what is stored. -/
theorem keepsStored_set {s : Meta} {key : String} (value : Str) (h : s.value key = none) :
    KeepsStored s (s.set key value) := by
  intro k old hk
  have hne : k ≠ key := by
    rintro rfl
    cases hk.symm.trans h
  exact (Function.update_of_ne hne _ _).trans hk

/-- The key whose wrap was upserted is the stored one. -/
theorem stored_set (c : VaultCrypto) (s : Meta) {slot : KeySlot} {key wrapped : Bytes}
    (h : c.decrypt slot wrapped = .ok key) :
    Stored c (s.set slot.metaKey (c.hexEncode wrapped)) slot key := by
  refine ⟨c.hexEncode wrapped, Function.update_self _ _ _, ?_⟩
  unfold unwrapKey
  rw [c.decode_encode]
  exact h

/-- The end of a caller: a key is the stored one. -/
def KeyEnd (c : VaultCrypto) (slot : KeySlot) (r : Except CoreError Bytes) (s : Meta) : Prop :=
  ∀ key, r = .ok key → Stored c s slot key

theorem keyEnd_error (c : VaultCrypto) (slot : KeySlot) (e : CoreError) (s : Meta) :
    KeyEnd c slot (.error e) s := fun _ h => by cases h

/-- With nothing stored when it upserts, a caller's actions keep what is stored, and its key is the stored
    one however the others move. -/
theorem derivedKey_tolerates (c : VaultCrypto) (slot : KeySlot) (s : Meta) :
    Tolerates (Exec c) FirstAlone KeepsStored (derivedKey c slot) s (KeyEnd c slot) := by
  refine Tolerates.call_bind fun t _ r u hexec _ => ?_
  cases hexec with
  | fail => exact ⟨.refl _, fun v _ => keyEnd_error c slot _ v⟩
  | metaGet =>
      refine ⟨.refl _, ?_⟩
      cases hvalue : t.value slot.metaKey with
      | some wrappedHex =>
          cases hunwrap : unwrapKey c slot wrappedHex with
          | error e =>
              simp only [hunwrap]
              exact fun v _ => keyEnd_error c slot e v
          | ok key =>
              simp only [hunwrap]
              rintro v htv _ ⟨⟩
              exact ⟨wrappedHex, htv _ _ hvalue, hunwrap⟩
      | none =>
          -- nothing was there: a new key is made, and upserted over nothing
          refine Tolerates.call_bind fun t₁ _ r u hexec _ => ?_
          cases hexec with
          | fail => exact ⟨.refl _, fun v _ => keyEnd_error c slot _ v⟩
          | newKey key =>
              refine ⟨.refl _, Tolerates.call_bind fun t₂ _ r u hexec _ => ?_⟩
              cases hexec with
              | fail => exact ⟨.refl _, fun v _ => keyEnd_error c slot _ v⟩
              | encrypt slot key wrapped hdecrypt =>
                  refine ⟨.refl _, Tolerates.call_bind fun t₃ _ r u hexec halone => ?_⟩
                  cases hexec with
                  | fail => exact ⟨.refl _, fun v _ => keyEnd_error c slot _ v⟩
                  | metaSet =>
                      have hkeeps := keepsStored_set (c.hexEncode wrapped) halone
                      have hstored := stored_set c t₃ hdecrypt
                      refine ⟨hkeeps, Tolerates.call_bind fun t₄ hkept r u hexec _ => ?_⟩
                      cases hexec with
                      | fail => exact ⟨.refl _, fun v _ => keyEnd_error c slot _ v⟩
                      | auditRecord =>
                          refine ⟨fun _ _ h => h, ?_⟩
                          rintro v hv _ ⟨⟩
                          exact hstored.keeps (KeepsStored.trans _ _ _ hkept hv)

theorem caller_eq (c : VaultCrypto) (slot : KeySlot) :
    caller c slot = derivedKey c slot >>= fun key => .ret (slot, key) := by
  cases slot with
  | gatewayMac => rfl
  | envRestore => rfl

/-- Derived keys are stable: in every run in which a new key is upserted only while none is stored, every key
    that a caller ever got is the stored one, and so all callers of a slot got the same key. -/
theorem derived_keys_stable {c : VaultCrypto} {s : Meta} {w : World Meta Answer CoreError (KeySlot × Bytes)}
    (h : Runs.Steps (Step (keySystem c) fun w _ e => FirstAlone w.state e) (World.initial s) w) :
    (∀ p ∈ w.procs, ∀ slot key, p.prog = some (.ret (slot, key)) → Stored c w.state slot key) ∧
      ∀ p ∈ w.procs, ∀ q ∈ w.procs, ∀ slot key key', p.prog = some (.ret (slot, key)) →
        q.prog = some (.ret (slot, key')) → key = key' := by
  have hprograms : ∀ slot s, Tolerates (Exec c) FirstAlone KeepsStored (caller c slot) s
      fun r s => ∀ slot key, r = .ok (slot, key) → Stored c s slot key := by
    intro slot s
    rw [caller_eq]
    refine (derivedKey_tolerates c slot s).bind KeepsStored.refl (fun key t hkey => ?_)
      (fun e t _ slot key h => by cases h)
    rintro u htu _ _ ⟨⟩
    exact (hkey key rfl).keeps htu
  have hstored : ∀ p ∈ w.procs, ∀ slot key, p.prog = some (.ret (slot, key)) →
      Stored c w.state slot key := by
    intro p hp slot key hret
    exact System.result_holds (S := keySystem c) KeepsStored.refl KeepsStored.trans hprograms h hp hret
      slot key rfl
  refine ⟨hstored, fun p hp q hq slot key key' hkey hkey' => ?_⟩
  obtain ⟨wrappedHex, hvalue, hunwrap⟩ := hstored p hp slot key hkey
  obtain ⟨wrappedHex', hvalue', hunwrap'⟩ := hstored q hq slot key' hkey'
  obtain rfl := Option.some.inj (hvalue.symm.trans hvalue')
  exact Except.ok.inj (hunwrap.symm.trans hunwrap')

/-! ## Two first users -/

instance (s : Meta) (e : Event Answer CoreError) : Decidable (FirstAlone s e) :=
  match e with
  | ⟨.metaSet key _, _⟩ => inferInstanceAs (Decidable (s.value key = none))
  | ⟨.metaGet _, _⟩ => isTrue trivial
  | ⟨.newKey, _⟩ => isTrue trivial
  | ⟨.encrypt _ _, _⟩ => isTrue trivial
  | ⟨.auditRecord _, _⟩ => isTrue trivial

/-- Text with one character for each byte, and wraps that are the key itself. -/
def plainVault : VaultCrypto where
  hexEncode b := b.map fun byte => Char.ofNat byte.toNat
  hexDecode t := some (t.map fun c => UInt8.ofNat c.toNat)
  decrypt _ wrapped := .ok wrapped
  decode_encode b := by
    rw [List.map_map]
    refine congrArg some ((List.map_congr_left fun byte _ => ?_).trans (List.map_id b))
    have hlt := byte.toNat_lt
    rw [Function.comp_apply, Char.toNat_ofNat, if_pos (.inl (by omega)), UInt8.ofNat_toNat]
    rfl

def freshMeta : Meta := ⟨fun _ => none, []⟩

/-- The replies of a run; the key drawn before any is stored is another one than those drawn later. -/
def reply (s : Meta) : (a : Action) → Option (Answer a × Meta)
  | .metaGet key => some (s.value key, s)
  | .newKey => some (if (s.value KeySlot.envRestore.metaKey).isSome then [2] else [1], s)
  | .encrypt _ key => some (key, s)
  | .metaSet key value => some ((), s.set key value)
  | .auditRecord event => some ((), { s with audit := s.audit ++ [event] })

theorem exec_reply (s : Meta) (a : Action) (x : Answer a × Meta) (h : reply s a = some x) :
    Exec plainVault s a (.ok x.1) x.2 := by
  cases a with
  | metaGet key =>
      obtain rfl := Option.some.inj h
      exact .metaGet s key
  | newKey =>
      obtain rfl := Option.some.inj h
      exact .newKey s _
  | encrypt slot key =>
      obtain rfl := Option.some.inj h
      exact .encrypt s slot key key rfl
  | metaSet key value =>
      obtain rfl := Option.some.inj h
      exact .metaSet s key value
  | auditRecord event =>
      obtain rfl := Option.some.inj h
      exact .auditRecord s event

/-- What a process ended with. -/
def ended (p : Proc Answer CoreError (KeySlot × Bytes)) : Option (KeySlot × Bytes) :=
  match p.prog with
  | some (.ret b) => some b
  | _ => none

theorem prog_of_ended {p : Proc Answer CoreError (KeySlot × Bytes)} {b : KeySlot × Bytes}
    (h : ended p = some b) : p.prog = some (.ret b) := by
  unfold ended at h
  split at h
  · rename_i hprog
    rw [hprog, Option.some.inj h]
  · cases h

/-- A first user, and a later one. -/
theorem derived_keys_stable_later :
    ∃ w, Runs.Steps (Step (keySystem plainVault) fun w _ e => FirstAlone w.state e)
        (World.initial freshMeta) w ∧
      ((∀ p ∈ w.procs, ∀ slot key, p.prog = some (.ret (slot, key)) →
          Stored plainVault w.state slot key) ∧
        ∀ p ∈ w.procs, ∀ q ∈ w.procs, ∀ slot key key', p.prog = some (.ret (slot, key)) →
          q.prog = some (.ret (slot, key')) → key = key') ∧
      w.procs.map ended = [some (.envRestore, [1]), some (.envRestore, [1])] := by
  obtain ⟨w, hrun, hended⟩ := Option.map_eq_some_iff.1 (by decide :
    ((World.initial freshMeta).schedule (keySystem plainVault) (fun w _ e => FirstAlone w.state e) reply
      [.start .envRestore, .act 0 5, .start .envRestore, .act 1 1]).map (fun w => w.procs.map ended)
      = some [some (.envRestore, [1]), some (.envRestore, [1])])
  have hsteps := World.steps_schedule exec_reply hrun
  exact ⟨w, hsteps, derived_keys_stable hsteps, hended⟩

/-- Two users read before either upserts: the first one's key is not the one that is stored. -/
theorem two_first_users :
    ∃ w, Runs.Steps (Step (keySystem plainVault) fun _ _ _ => True) (World.initial freshMeta) w ∧
      ∃ p ∈ w.procs, p.prog = some (.ret (.envRestore, [1])) ∧
        ¬Stored plainVault w.state .envRestore [1] := by
  obtain ⟨w, hrun, hleft⟩ := Option.map_eq_some_iff.1 (by decide :
    ((World.initial freshMeta).schedule (keySystem plainVault) (fun _ _ _ => True) reply
      [.start .envRestore, .start .envRestore, .act 0 1, .act 1 1, .act 0 4, .act 1 4]).map
      (fun w => (w.procs[0]?.map ended, w.state.value KeySlot.envRestore.metaKey))
      = some (some (some (.envRestore, [1])), some (plainVault.hexEncode [2])))
  obtain ⟨hfirst, hvalue⟩ := Prod.mk.inj hleft
  obtain ⟨p, hp, hended⟩ := Option.map_eq_some_iff.1 hfirst
  refine ⟨w, World.steps_schedule exec_reply hrun, p, List.mem_of_getElem? hp, prog_of_ended hended, ?_⟩
  rintro ⟨wrappedHex, hstored, hkey⟩
  obtain rfl := Option.some.inj (hvalue.symm.trans hstored)
  unfold unwrapKey at hkey
  rw [plainVault.decode_encode] at hkey
  cases Except.ok.inj hkey

end Tethra.DerivedKeys
