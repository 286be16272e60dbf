import Tethra.Core.Error
import Tethra.Lib.Runs

set_option autoImplicit false

/-! # The gateway configuration (`gateway/src/store.rs`, `tracking/src/plan.rs`, `tracking/src/apply.rs`)

One row holds the persisted port and the consent to keep matching while the vault is locked. Its
writers run in several processes. `commit_port` is one transaction; the others load the row, change a
field and save the whole row, so what was committed in between is overwritten
(`config_overwritten`). -/

namespace Tethra.Gateway

open Runs

/-- The row `'gateway'` of `gateway_config`. -/
structure ConfigRow where
  enabled : Int
  port : Option Int
  matchWhileLocked : Int
  serviceVersion : Option Str
  usageEventRetentionDays : Option Int
  usageDailyRetentionDays : Option Int
  deriving DecidableEq, Repr

structure GatewayConfig where
  enabled : Bool
  port : Option UInt16
  matchWhileLocked : Bool
  serviceVersion : Option Str
  usageEventRetentionDays : Option UInt32
  usageDailyRetentionDays : Option UInt32
  deriving DecidableEq, Repr

/-- `GatewayConfig::default`. -/
def GatewayConfig.default : GatewayConfig := ⟨false, none, false, none, none, none⟩

/-- `u16::try_from`. -/
def toU16 (i : Int) : Option UInt16 :=
  if 0 ≤ i ∧ i < 65536 then some (UInt16.ofNat i.toNat) else none

/-- `u32::try_from`. -/
def toU32 (i : Int) : Option UInt32 :=
  if 0 ≤ i ∧ i < 4294967296 then some (UInt32.ofNat i.toNat) else none

theorem toU16_ofNat (p : UInt16) : toU16 p.toNat = some p := by
  have hlt := p.toNat_lt
  unfold toU16
  rw [if_pos (by omega), Int.toNat_natCast, UInt16.ofNat_toNat]

def loadConfig (row : Option ConfigRow) : GatewayConfig :=
  match row with
  | none => .default
  | some row =>
      { enabled := row.enabled ≠ 0
        port := row.port.bind toU16
        matchWhileLocked := row.matchWhileLocked ≠ 0
        serviceVersion := row.serviceVersion
        usageEventRetentionDays := row.usageEventRetentionDays.bind toU32
        usageDailyRetentionDays := row.usageDailyRetentionDays.bind toU32 }

/-- `save_config`: every column of the row, from the struct. -/
def saveConfig (config : GatewayConfig) : ConfigRow :=
  { enabled := if config.enabled then 1 else 0
    port := config.port.map fun p => (p.toNat : Int)
    matchWhileLocked := if config.matchWhileLocked then 1 else 0
    serviceVersion := config.serviceVersion
    usageEventRetentionDays := config.usageEventRetentionDays.map fun d => (d.toNat : Int)
    usageDailyRetentionDays := config.usageDailyRetentionDays.map fun d => (d.toNat : Int) }

/-- `commit_port`: an existing port stays, else only the port column is written. -/
def commitPort (row : Option ConfigRow) (port : UInt16) : Option ConfigRow :=
  match row with
  | none => some ⟨0, some port.toNat, 0, none, none, none⟩
  | some row => if (row.port.bind toU16).isSome then some row else some { row with port := some port.toNat }

/-- The operations that load the row and save it in two statements. -/
inductive ConfigOp where
  /-- `ensure_port`, with the free port that it finds. -/
  | ensurePort (freePort : UInt16)
  /-- The port step of the setup, with the plan's port. -/
  | applyPort (planPort : UInt16)
  | setMatchWhileLocked (enabled : Bool)
  deriving DecidableEq, Repr

/-- The operation asks for another consent value. -/
def ConfigOp.asksConsent : ConfigOp → Bool
  | .setMatchWhileLocked _ => true
  | _ => false

/-- The configuration that the operation saves, if it saves any: with a port there, the two port steps
    end without a write. -/
def ConfigOp.saved (op : ConfigOp) (config : GatewayConfig) : Option GatewayConfig :=
  match op with
  | .ensurePort p => if config.port.isSome then none else some { config with port := some p }
  | .applyPort p => if config.port.isSome then none else some { config with port := some p }
  | .setMatchWhileLocked enabled => some { config with matchWhileLocked := enabled }

/-- The row, what each process has loaded and not yet saved, and the consent value that was last
    committed by an operation asked for it. -/
structure ConfigSystem where
  row : Option ConfigRow
  pending : Nat → Option (ConfigOp × GatewayConfig)
  asked : Bool

inductive ConfigEvent where
  | commitPort (port : UInt16)
  | load (pid : Nat) (op : ConfigOp)
  | save (pid : Nat)

def ConfigSystem.setPending (s : ConfigSystem) (pid : Nat)
    (p : Option (ConfigOp × GatewayConfig)) : ConfigSystem :=
  { s with pending := fun q => if q = pid then p else s.pending q }

/-- The consent value after an operation's save. -/
def ConfigOp.consent (op : ConfigOp) (before : Bool) : Bool :=
  match op with
  | .setMatchWhileLocked enabled => enabled
  | _ => before

def ConfigSystem.save (s : ConfigSystem) (pid : Nat) : ConfigSystem :=
  match s.pending pid with
  | none => s
  | some (op, config) =>
      match op.saved config with
      | none => s.setPending pid none
      | some saved =>
          { s.setPending pid none with row := some (saveConfig saved), asked := op.consent s.asked }

/-- One statement of one process. -/
def ConfigSystem.step (s : ConfigSystem) : ConfigEvent → ConfigSystem
  | .commitPort port => { s with row := commitPort s.row port }
  | .load pid op => s.setPending pid (some (op, loadConfig s.row))
  | .save pid => s.save pid

def ConfigSystem.port (s : ConfigSystem) : Option UInt16 := (loadConfig s.row).port

def ConfigSystem.consent (s : ConfigSystem) : Bool := (loadConfig s.row).matchWhileLocked

/-- Since the process that saves has loaded the row, no other port was persisted than the one it
    saves, and, unless it was asked for another consent, the consent was not changed. -/
def ConfigEvent.Current (s : ConfigSystem) (e : ConfigEvent) : Prop :=
  ∀ pid op config saved, e = .save pid → s.pending pid = some (op, config) →
    op.saved config = some saved →
      (s.port = config.port ∨ s.port = saved.port) ∧
        (op.asksConsent = true ∨ s.consent = config.matchWhileLocked)

def ConfigStep (s t : ConfigSystem) : Prop := ∃ e : ConfigEvent, e.Current s ∧ t = s.step e

/-! ## The port and the consent -/

theorem port_saveConfig (config : GatewayConfig) :
    (loadConfig (some (saveConfig config))).port = config.port := by
  show (config.port.map fun p => (p.toNat : Int)).bind toU16 = config.port
  cases config.port with
  | none => rfl
  | some p => rw [Option.map_some, Option.bind_some, toU16_ofNat]

theorem consent_saveConfig (config : GatewayConfig) :
    (loadConfig (some (saveConfig config))).matchWhileLocked = config.matchWhileLocked := by
  show decide ((if config.matchWhileLocked then (1 : Int) else 0) ≠ 0) = config.matchWhileLocked
  cases config.matchWhileLocked <;> rfl

/-- `commit_port` keeps an existing port and the consent. -/
theorem loadConfig_commitPort (row : Option ConfigRow) (port : UInt16) :
    (∀ p, (loadConfig row).port = some p → (loadConfig (commitPort row port)).port = some p) ∧
      (loadConfig (commitPort row port)).matchWhileLocked = (loadConfig row).matchWhileLocked := by
  unfold commitPort
  match row with
  | none => exact ⟨nofun, rfl⟩
  | some row =>
      dsimp only
      split
      · exact ⟨fun _ hp => hp, rfl⟩
      · rename_i hnone
        refine ⟨?_, rfl⟩
        intro p hp
        have hport : row.port.bind toU16 = some p := hp
        rw [hport] at hnone
        exact absurd rfl hnone

/-- What a port step saves had no port when it was loaded, and it keeps the loaded consent. -/
theorem saved_portStep {p : UInt16} {config saved : GatewayConfig}
    (h : (if config.port.isSome then none else some { config with port := some p }) = some saved) :
    config.port = none ∧ saved.matchWhileLocked = config.matchWhileLocked := by
  split_ifs at h with hport
  obtain rfl := Option.some.inj h
  exact ⟨by simpa using hport, rfl⟩

/-- A save keeps the port that was loaded with the row, if there was one. -/
theorem ConfigOp.saved_port {op : ConfigOp} {config saved : GatewayConfig}
    (h : op.saved config = some saved) : config.port = none ∨ saved.port = config.port := by
  match op with
  | .ensurePort p => exact .inl (saved_portStep h).1
  | .applyPort p => exact .inl (saved_portStep h).1
  | .setMatchWhileLocked enabled =>
      obtain rfl := Option.some.inj h
      exact .inr rfl

/-- A save sets the consent that was asked for, and keeps the one that was loaded otherwise. -/
theorem ConfigOp.saved_consent {op : ConfigOp} {config saved : GatewayConfig} {before : Bool}
    (h : op.saved config = some saved)
    (hbefore : op.asksConsent = true ∨ before = config.matchWhileLocked) :
    saved.matchWhileLocked = op.consent before := by
  match op with
  | .ensurePort p =>
      rw [(saved_portStep h).2]
      exact (hbefore.resolve_left nofun).symm
  | .applyPort p =>
      rw [(saved_portStep h).2]
      exact (hbefore.resolve_left nofun).symm
  | .setMatchWhileLocked enabled =>
      obtain rfl := Option.some.inj h
      rfl

/-- What a step keeps: a persisted port, and the consent that was asked for. -/
def Authority (s t : ConfigSystem) : Prop :=
  (∀ p, s.port = some p → t.port = some p) ∧ t.consent = t.asked

theorem authority_save {s : ConfigSystem} {pid : Nat}
    (hcurrent : (ConfigEvent.save pid).Current s) (hasked : s.consent = s.asked) :
    Authority s (s.save pid) := by
  unfold ConfigSystem.save
  split
  · exact ⟨fun _ hp => hp, hasked⟩
  · rename_i op config hpending
    split
    · exact ⟨fun _ hp => hp, hasked⟩
    · rename_i saved hsaved
      obtain ⟨hport, hconsent⟩ := hcurrent pid op config saved rfl hpending hsaved
      constructor
      · intro p hp
        show (loadConfig (some (saveConfig saved))).port = some p
        rw [port_saveConfig]
        rcases hport with hport | hport
        · rcases ConfigOp.saved_port hsaved with hnone | hkept
          · rw [hport, hnone] at hp
            exact absurd hp nofun
          · rw [hkept, ← hport, hp]
        · rw [← hport, hp]
      · show (loadConfig (some (saveConfig saved))).matchWhileLocked = op.consent s.asked
        rw [consent_saveConfig, ← hasked]
        exact ConfigOp.saved_consent hsaved hconsent

/-- A step whose save is current keeps a persisted port, and the consent that was asked for. -/
theorem authority_step {s t : ConfigSystem} (h : ConfigStep s t) (hasked : s.consent = s.asked) :
    Authority s t := by
  obtain ⟨e, hcurrent, rfl⟩ := h
  match e, hcurrent with
  | .commitPort port, _ =>
      obtain ⟨hport, hconsent⟩ := loadConfig_commitPort s.row port
      exact ⟨hport, hconsent.trans hasked⟩
  | .load pid op, _ => exact ⟨fun _ hp => hp, hasked⟩
  | .save pid, hcurrent => exact authority_save hcurrent hasked

/-- In every run whose saves are current, a port that is persisted stays, and the consent is the one
    that was last asked for. -/
theorem config_authority {s t : ConfigSystem} (h : Steps ConfigStep s t)
    (hasked : s.consent = s.asked) : Authority s t := by
  refine Steps.invariant (I := Authority s) ?_ ⟨fun _ hp => hp, hasked⟩ h
  rintro u v ⟨hport, hconsent⟩ hstep
  obtain ⟨hport', hconsent'⟩ := authority_step hstep hconsent
  exact ⟨fun p hp => hport' p (hport p hp), hconsent'⟩

/-- No row yet, and no process at work. -/
def ConfigSystem.start : ConfigSystem := ⟨none, fun _ => none, false⟩

/-- The port 4000 is committed. -/
def ConfigSystem.ported : ConfigSystem := ConfigSystem.start.step (.commitPort 4000)

/-- The consent is then given, with nothing committed between the load and the save. -/
theorem config_authority_consent :
    Authority .ported ((ConfigSystem.ported.step (.load 0 (.setMatchWhileLocked true))).step (.save 0)) := by
  have hload : ConfigStep .ported (ConfigSystem.ported.step (.load 0 (.setMatchWhileLocked true))) := by
    refine ⟨.load 0 (.setMatchWhileLocked true), ?_, rfl⟩
    intro pid op config saved hsave
    exact absurd hsave nofun
  have hsave : ConfigStep (ConfigSystem.ported.step (.load 0 (.setMatchWhileLocked true)))
      ((ConfigSystem.ported.step (.load 0 (.setMatchWhileLocked true))).step (.save 0)) := by
    refine ⟨.save 0, ?_, rfl⟩
    intro pid op config saved hpid hpending hsaved
    obtain rfl := ConfigEvent.save.inj hpid
    have hloaded : (ConfigOp.setMatchWhileLocked true, loadConfig ConfigSystem.ported.row)
        = (op, config) := Option.some.inj hpending
    obtain ⟨rfl, rfl⟩ := Prod.mk.inj hloaded
    exact ⟨.inl rfl, .inl rfl⟩
  exact config_authority ((Relation.ReflTransGen.single hload).tail hsave) (by decide)

/-- A free port is saved over a committed one, and over a consent that was given. -/
theorem config_overwritten :
    (let s := ConfigSystem.start.step (.load 0 (.ensurePort 5000))
      let s := s.step (.commitPort 4000)
      s.port = some 4000 ∧ (s.step (.save 0)).port = some 5000) ∧
    (let s := ConfigSystem.start.step (.load 0 (.setMatchWhileLocked true))
      let s := s.step (.commitPort 4000)
      s.port = some 4000 ∧ (s.step (.save 0)).port = none) ∧
    (let s := ConfigSystem.start.step (.load 0 (.applyPort 5000))
      let s := (s.step (.load 1 (.setMatchWhileLocked true))).step (.save 1)
      s.consent = true ∧ (s.step (.save 0)).consent = false ∧ (s.step (.save 0)).asked = true) := by
  decide

end Tethra.Gateway
