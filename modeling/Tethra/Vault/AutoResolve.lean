import Tethra.Core.Error
import Tethra.Lib.Sequential

set_option autoImplicit false

/-! # Alerts that a monitor run resolves (`core/src/vault.rs`, `core/src/alerts.rs`)

A monitor run upserts the alerts of its rules, and then resolves the open alerts of the managed kinds whose
key no rule has emitted. Most rules end the run when they fail. Two failures are ignored: that of the
runtime rules, and that of the query for the time a credential was disabled; the alerts of these rules are
then resolved without a verdict (`failed_rules_resolve`, `auto_resolve_iff`). -/

namespace Tethra.AutoResolve

open Interleave Runs

inductive AlertKind where
  | expiringSoon | expired | stale | unused | reusedAcrossProjects | productionInDevelopment
  | possibleExposure | repoSecretExposure | repoScanCoverageGap | providerSyncFailed
  | providerConnectionInvalid | providerDataStale | unmatchedProviderKey | unmappedProviderProject
  | documentationChanged | overBudget | costSpike | usageAfterDisabled | credentialActivated
  | rotationDue | rotationStuck | rotationAttention | requestSpike | repeatedAuthFailure
  | newProviderProject | newProviderKey | unusualModel | unusualTimePattern | destinationDrift
  | accessGrantExpired | pricingStale | runtimeAuthFailures | runtimeForbidden | runtimeRateLimited
  | runtimeServerErrors | runtimeTransportFailures | runtimeTlsFailures | runtimeApiInactive
  | runtimeNewApi | runtimeUnknownApi | runtimeOldCredentialVersion | runtimeRevokedCredentialInUse
  | runtimeSharedCredential
  deriving DecidableEq, Repr

/-- `monitor::managed_credential_kinds`. -/
def managedCredentialKinds : List AlertKind :=
  [.expired, .expiringSoon, .stale, .unused, .possibleExposure, .productionInDevelopment,
    .reusedAcrossProjects]

/-- `activity::managed_kinds`. -/
def activityKinds : List AlertKind := [.costSpike, .usageAfterDisabled, .overBudget]

/-- `observe::managed_kinds`. -/
def observeKinds : List AlertKind :=
  [.requestSpike, .credentialActivated, .repeatedAuthFailure, .newProviderProject, .newProviderKey,
    .unusualModel, .unusualTimePattern, .destinationDrift, .rotationAttention, .accessGrantExpired,
    .pricingStale]

/-- `runtime::alerts::managed_kinds`. -/
def runtimeKinds : List AlertKind :=
  [.runtimeAuthFailures, .runtimeForbidden, .runtimeRateLimited, .runtimeServerErrors,
    .runtimeTransportFailures, .runtimeTlsFailures, .runtimeApiInactive, .runtimeNewApi,
    .runtimeUnknownApi, .runtimeOldCredentialVersion, .runtimeRevokedCredentialInUse,
    .runtimeSharedCredential]

/-- The kinds that a monitor run resolves. -/
def managed : List AlertKind :=
  managedCredentialKinds ++ activityKinds ++
    [.providerDataStale, .unmatchedProviderKey, .unmappedProviderProject, .rotationDue,
      .rotationStuck] ++ observeKinds ++ runtimeKinds

structure NewAlert where
  kind : AlertKind
  dedupKey : Str
  deriving DecidableEq, Repr

/-- A row of `alerts`; it is open while it has no resolution time. -/
structure Alert where
  id : Str
  kind : AlertKind
  dedupKey : Str
  isOpen : Bool
  deriving DecidableEq, Repr

structure Credential where
  id : Str
  isReference : Bool
  deriving DecidableEq, Repr

/-- The rules of a monitor run, for a credential, a project or the vault. -/
inductive Rule where
  | credentialStatus (id : Str)
  | reuse (id : Str)
  | costSpike (id : Str)
  | usageAfterDisabled (id : Str) (since : Option Str)
  | credentialBudget (id : Str)
  | projectBudget (id : Str)
  | providerConnections
  | rotation
  | observe
  | runtime
  deriving DecidableEq, Repr

/-! ## Statements -/

inductive Action where
  /-- Work whose failure is ignored: sweeps, pruning, roll-ups. -/
  | maintenance
  | budgetCostSource
  | listCredentials
  | listProjects
  | rule (r : Rule)
  | lastDisabledAt (id : Str)
  | scanRepos
  | findOpen (key : Str)
  | refresh (id : Str) (alert : NewAlert)
  | newId
  | insert (id : Str) (alert : NewAlert)
  | audit (event : String)
  | listOpen (kinds : List AlertKind)
  | autoResolve (id : Str)
  /-- Someone else resolves an alert. -/
  | resolve (id : Str)
  deriving DecidableEq, Repr

abbrev Answer : Action → Type
  | .maintenance => Unit
  | .budgetCostSource => Unit
  | .listCredentials => List Credential
  | .listProjects => List Str
  | .rule _ => List NewAlert
  | .lastDisabledAt _ => Option Str
  | .scanRepos => List NewAlert
  | .findOpen _ => Option Str
  | .refresh _ _ => Unit
  | .newId => Str
  | .insert _ _ => Unit
  | .audit _ => Unit
  | .listOpen _ => List (Str × Str)
  | .autoResolve _ => Unit
  | .resolve _ => Unit

abbrev Prog (β : Type) := Interleave.Prog Answer CoreError β

abbrev call (a : Action) : Prog (Answer a) := Interleave.Prog.call a

/-! ## The monitor run -/

def upsert (alert : NewAlert) : Prog Unit :=
  call (.findOpen alert.dedupKey) >>= fun (existing : Option Str) =>
  match existing with
  | some id => call (.refresh id alert)
  | none => call .newId >>= fun id => call (.insert id alert)

def upsertAll : List NewAlert → Prog Unit
  | [] => .ret ()
  | alert :: alerts => upsert alert >>= fun _ => upsertAll alerts

/-- The keys of the alerts become active, and the alerts are upserted. -/
def emitAll (active : List Str) (alerts : List NewAlert) : Prog (List Str) :=
  upsertAll alerts >>= fun _ => .ret (active ++ alerts.map (·.dedupKey))

/-- The time a credential was disabled; an error counts as none. -/
def lastDisabledAt (id : Str) : Prog (Option Str) :=
  (call (.lastDisabledAt id)).attempt >>= fun r =>
  match r with
  | .ok since => .ret since
  | .error _ => .ret none

def credentialRules (active : List Str) (c : Credential) : Prog (List Str) :=
  call (.rule (.credentialStatus c.id)) >>= fun status =>
  (if c.isReference then .ret [] else call (.rule (.reuse c.id))) >>= fun reuse =>
  call (.rule (.costSpike c.id)) >>= fun spike =>
  lastDisabledAt c.id >>= fun since =>
  call (.rule (.usageAfterDisabled c.id since)) >>= fun after =>
  call (.rule (.credentialBudget c.id)) >>= fun budget =>
  emitAll active (status ++ reuse ++ spike ++ after ++ budget)

def allCredentials (active : List Str) : List Credential → Prog (List Str)
  | [] => .ret active
  | c :: cs => credentialRules active c >>= fun active => allCredentials active cs

/-- A rule whose error ends the run. -/
def emitRule (active : List Str) (r : Rule) : Prog (List Str) :=
  call (.rule r) >>= fun alerts => emitAll active alerts

def allProjects (active : List Str) : List Str → Prog (List Str)
  | [] => .ret active
  | id :: ids => emitRule active (.projectBudget id) >>= fun active => allProjects active ids

/-- The runtime rules; an error is recorded in the audit log. -/
def runtimeRules (active : List Str) : Prog (List Str) :=
  (call (.rule .runtime)).attempt >>= fun r =>
  match r with
  | .ok alerts => emitAll active alerts
  | .error _ => (call (.audit "runtime_alerts_error")).attempt >>= fun _ => .ret active

/-- The alerts of the repositories are upserted, if the scan succeeds; their kinds are not managed. -/
def repoAlerts : Prog Unit :=
  (call .scanRepos).attempt >>= fun r =>
  match r with
  | .ok alerts => upsertAll alerts
  | .error _ => .ret ()

def resolveAll (active : List Str) : List (Str × Str) → Prog Unit
  | [] => .ret ()
  | (id, key) :: rest =>
      if active.contains key then resolveAll active rest
      else call (.autoResolve id) >>= fun _ => resolveAll active rest

def autoResolveStale (kinds : List AlertKind) (active : List Str) : Prog Unit :=
  if kinds.isEmpty then .ret ()
  else call (.listOpen kinds) >>= fun openAlerts => resolveAll active openAlerts

def runMonitor : Prog Unit :=
  (call .maintenance).attempt >>= fun _ =>
  call .budgetCostSource >>= fun _ =>
  call .listCredentials >>= fun credentials =>
  allCredentials [] credentials >>= fun active =>
  call .listProjects >>= fun projects =>
  allProjects active projects >>= fun active =>
  emitRule active .providerConnections >>= fun active =>
  emitRule active .rotation >>= fun active =>
  (call .maintenance).attempt >>= fun _ =>
  repoAlerts >>= fun _ =>
  emitRule active .observe >>= fun active =>
  runtimeRules active >>= fun active =>
  autoResolveStale managed active

/-- A monitor run, another caller of `upsert`, or someone who resolves an alert. -/
inductive Op where
  | monitor
  | raise (alert : NewAlert)
  | resolve (id : Str)

def program : Op → Prog Unit
  | .monitor => runMonitor
  | .raise alert => upsert alert
  | .resolve id => call (.resolve id)

/-! ## The table of alerts -/

structure State where
  alerts : List Alert
  deriving DecidableEq, Repr

def State.openWith (s : State) (key : Str) : List Alert :=
  s.alerts.filter fun a => a.isOpen && a.dedupKey = key

def State.close (s : State) (id : Str) : State :=
  ⟨s.alerts.map fun a => if a.id = id then { a with isOpen := false } else a⟩

/-- The replies that an action can have. An id is the primary key, so that a new row has a new one. -/
def Replies (s : State) : (a : Action) → Except CoreError (Answer a) → Prop
  | .findOpen key, .ok found => found = ((s.openWith key).map (·.id)).head?
  | .insert id alert, .ok _ => s.openWith alert.dedupKey = [] → id ∉ s.alerts.map (·.id)
  | .listOpen kinds, .ok found =>
      found = (s.alerts.filter fun a => a.isOpen && kinds.contains a.kind).map fun a =>
        (a.id, a.dedupKey)
  | _, _ => True

/-- The state behind a reply: an insertion over an open alert with the key updates that one, and neither
    that nor a refresh changes a kind or a key. -/
def effect (s : State) : (a : Action) → Except CoreError (Answer a) → State
  | .insert id alert, .ok _ =>
      if s.openWith alert.dedupKey = [] then
        ⟨s.alerts ++ [⟨id, alert.kind, alert.dedupKey, true⟩]⟩
      else s
  | .autoResolve id, .ok _ => s.close id
  | .resolve id, .ok _ => s.close id
  | _, _ => s

def Exec (s : State) (a : Action) (r : Except CoreError (Answer a)) (t : State) : Prop :=
  Replies s a r ∧ t = effect s a r

def system : System State Op Answer CoreError Unit where
  program := program
  exec := Exec

/-- At most one alert of a key is open. -/
def OneOpen (s : State) : Prop :=
  ∀ a ∈ s.alerts, ∀ b ∈ s.alerts, a.isOpen = true → b.isOpen = true → a.dedupKey = b.dedupKey → a = b

/-! ## What a monitor run knows -/

structure Knows where
  credentials : List Credential
  projects : List Str
  /-- The keys that the rules have emitted. -/
  emitted : List Str
  /-- The rules that have succeeded. -/
  done : List Rule
  /-- The credentials whose time of disabling was read. -/
  disabledRead : List Str
  /-- The open alerts and their keys. -/
  listed : List (Str × Str)
  deriving DecidableEq, Repr

def Knows.start : Knows := ⟨[], [], [], [], [], []⟩

def Knows.emit (k : Knows) (r : Rule) (alerts : List NewAlert) : Knows :=
  { k with emitted := k.emitted ++ alerts.map (·.dedupKey), done := k.done ++ [r] }

def Knows.next (k : Knows) : (a : Action) → Except CoreError (Answer a) → Knows
  | .listCredentials, .ok credentials => { k with credentials := credentials }
  | .listProjects, .ok projects => { k with projects := projects }
  | .rule r, .ok alerts => k.emit r alerts
  | .lastDisabledAt id, .ok _ => { k with disabledRead := k.disabledRead ++ [id] }
  | .listOpen _, .ok found => { k with listed := found }
  | _, _ => k

/-- The rules whose error ends the run have succeeded. -/
structure Knows.RulesDone (k : Knows) : Prop where
  status : ∀ c ∈ k.credentials, .credentialStatus c.id ∈ k.done
  reuse : ∀ c ∈ k.credentials, c.isReference = false → .reuse c.id ∈ k.done
  costSpike : ∀ c ∈ k.credentials, .costSpike c.id ∈ k.done
  usageAfterDisabled : ∀ c ∈ k.credentials, ∃ since, .usageAfterDisabled c.id since ∈ k.done
  credentialBudget : ∀ c ∈ k.credentials, .credentialBudget c.id ∈ k.done
  projectBudget : ∀ id ∈ k.projects, .projectBudget id ∈ k.done
  providerConnections : .providerConnections ∈ k.done
  rotation : .rotation ∈ k.done
  observe : .observe ∈ k.done

/-- An alert is resolved by a run that listed it, whose rules have succeeded, but for those whose failure is
    ignored, and have not emitted its key. -/
def Knows.Allowed (k : Knows) : Action → Prop
  | .listOpen kinds => kinds = managed
  | .autoResolve id => k.RulesDone ∧ ∃ key, (id, key) ∈ k.listed ∧ key ∉ k.emitted
  | _ => True

def discipline : Discipline Answer CoreError Knows where
  allowed := Knows.Allowed
  next := Knows.next

/-! ## Verdicts -/

/-- The rules that emit alerts of a kind, for every credential or project they are about, have
    succeeded. -/
def Knows.Completed (k : Knows) : AlertKind → Prop
  | .expired | .expiringSoon | .stale | .unused | .possibleExposure =>
      ∀ c ∈ k.credentials, .credentialStatus c.id ∈ k.done
  | .productionInDevelopment | .reusedAcrossProjects =>
      ∀ c ∈ k.credentials, c.isReference = false → .reuse c.id ∈ k.done
  | .costSpike => ∀ c ∈ k.credentials, .costSpike c.id ∈ k.done
  | .usageAfterDisabled => ∀ c ∈ k.credentials,
      c.id ∈ k.disabledRead ∧ ∃ since, .usageAfterDisabled c.id since ∈ k.done
  | .overBudget => (∀ c ∈ k.credentials, .credentialBudget c.id ∈ k.done) ∧
      ∀ id ∈ k.projects, .projectBudget id ∈ k.done
  | .providerDataStale | .unmatchedProviderKey | .unmappedProviderProject =>
      .providerConnections ∈ k.done
  | .rotationDue | .rotationStuck => .rotation ∈ k.done
  | kind => if kind ∈ observeKinds then .observe ∈ k.done else kind ∈ runtimeKinds ∧ .runtime ∈ k.done

/-- The rules for the alert's kind have succeeded in the run, and none has emitted its key. -/
def Knows.Verdict (k : Knows) (a : Alert) : Prop := k.Completed a.kind ∧ a.dedupKey ∉ k.emitted

/-- What can fail without ending the run has succeeded: for the runtime kinds the runtime rules, and for
    usage after disabling the query of the time, for each credential. -/
def Knows.IgnoredSucceeded (k : Knows) (kind : AlertKind) : Prop :=
  (kind ∈ runtimeKinds → .runtime ∈ k.done) ∧
    (kind = .usageAfterDisabled → ∀ c ∈ k.credentials, c.id ∈ k.disabledRead)

/-- With the other rules done, a managed kind has its verdict exactly when what is ignored has not failed. -/
theorem Knows.RulesDone.completed_iff {k : Knows} (h : k.RulesDone) {kind : AlertKind}
    (hmanaged : kind ∈ managed) : k.Completed kind ↔ k.IgnoredSucceeded kind := by
  unfold IgnoredSucceeded
  cases kind with
  | expired | expiringSoon | stale | unused | possibleExposure =>
      exact iff_of_true h.status ⟨fun h => absurd h (by decide), fun h => by cases h⟩
  | productionInDevelopment | reusedAcrossProjects =>
      exact iff_of_true h.reuse ⟨fun h => absurd h (by decide), fun h => by cases h⟩
  | costSpike => exact iff_of_true h.costSpike ⟨fun h => absurd h (by decide), fun h => by cases h⟩
  | overBudget =>
      exact iff_of_true ⟨h.credentialBudget, h.projectBudget⟩
        ⟨fun h => absurd h (by decide), fun h => by cases h⟩
  | providerDataStale | unmatchedProviderKey | unmappedProviderProject =>
      exact iff_of_true h.providerConnections ⟨fun h => absurd h (by decide), fun h => by cases h⟩
  | rotationDue | rotationStuck =>
      exact iff_of_true h.rotation ⟨fun h => absurd h (by decide), fun h => by cases h⟩
  | usageAfterDisabled =>
      constructor
      · intro hdone
        exact ⟨fun h => absurd h (by decide), fun _ c hc => (hdone c hc).1⟩
      · rintro ⟨_, hread⟩ c hc
        exact ⟨hread rfl c hc, h.usageAfterDisabled c hc⟩
  | repoSecretExposure | repoScanCoverageGap | providerSyncFailed | providerConnectionInvalid
  | documentationChanged => exact absurd hmanaged (by decide)
  | requestSpike | credentialActivated | repeatedAuthFailure | newProviderProject | newProviderKey
  | unusualModel | unusualTimePattern | destinationDrift | rotationAttention | accessGrantExpired
  | pricingStale =>
      exact iff_of_true h.observe ⟨fun h => absurd h (by decide), fun h => by cases h⟩
  | _ =>
      constructor
      · rintro ⟨_, hdone⟩
        exact ⟨fun _ => hdone, fun h => by cases h⟩
      · rintro ⟨hdone, _⟩
        exact ⟨by decide, hdone (by decide)⟩

/-! ## The program obeys -/

section

variable {k k' k'' : Knows} {active : List Str} {alerts alerts' : List NewAlert}

/-- What a part of the run adds to what is known. -/
structure Knows.Grows (k k' : Knows) : Prop where
  credentials : k'.credentials = k.credentials
  projects : k'.projects = k.projects
  done : k.done ⊆ k'.done

theorem Knows.Grows.refl (k : Knows) : k.Grows k := ⟨rfl, rfl, fun _ h => h⟩

theorem Knows.Grows.trans (h : k.Grows k') (h' : k'.Grows k'') : k.Grows k'' :=
  ⟨h'.credentials.trans h.credentials, h'.projects.trans h.projects, fun _ hr => h'.done (h.done hr)⟩

/-- A part of the run whose rules emit the alerts. -/
structure Knows.Emits (k k' : Knows) (alerts : List NewAlert) : Prop extends k.Grows k' where
  emitted : ∀ key ∈ k'.emitted, key ∈ k.emitted ∨ key ∈ alerts.map (·.dedupKey)

theorem Knows.Emits.refl (k : Knows) : k.Emits k [] := ⟨.refl k, fun _ h => .inl h⟩

theorem Knows.Emits.trans (h : k.Emits k' alerts) (h' : k'.Emits k'' alerts') :
    k.Emits k'' (alerts ++ alerts') := by
  refine ⟨h.toGrows.trans h'.toGrows, fun key hkey => ?_⟩
  rw [List.map_append, List.mem_append]
  rcases h'.emitted key hkey with hkey | hkey
  · exact (h.emitted key hkey).imp_right .inl
  · exact .inr (.inr hkey)

theorem Knows.emits_emit (k : Knows) (r : Rule) (alerts : List NewAlert) :
    k.Emits (k.emit r alerts) alerts :=
  ⟨⟨rfl, rfl, List.subset_append_left _ _⟩, fun _ hkey => List.mem_append.1 hkey⟩

/-- Every key that was emitted is active. -/
def Knows.Accounts (k : Knows) (active : List Str) : Prop := ∀ key ∈ k.emitted, key ∈ active

theorem Knows.Emits.accounts (h : k.Emits k' alerts) (hactive : k.Accounts active) :
    k'.Accounts (active ++ alerts.map (·.dedupKey)) := fun key hkey =>
  List.mem_append.2 ((h.emitted key hkey).imp_left (hactive key))

/-- The end of a part of the run: with a result that meets `P`, or with an error. -/
def Gives {β : Type} (P : Knows → β → Prop) (k : Knows) (r : Except CoreError β) : Prop :=
  ∀ b, r = .ok b → P k b

theorem gives_error {β : Type} {P : Knows → β → Prop} (k : Knows) (e : CoreError) :
    Gives P k (.error e) := fun _ h => by cases h

theorem obeys_bind {β γ : Type} {P : Knows → β → Prop} {Q : Knows → γ → Prop} {p : Prog β}
    {f : β → Prog γ} (h : Obeys discipline p k (Gives P))
    (hf : ∀ k' b, P k' b → Obeys discipline (f b) k' (Gives Q)) :
    Obeys discipline (p >>= f) k (Gives Q) :=
  h.bind (fun k' b hb => hf k' b (hb b rfl)) fun k' e _ => gives_error k' e

/-- An action after which nothing more is known. -/
theorem obeys_quiet {a : Action} (hallowed : k.Allowed a) (hquiet : ∀ r, k.next a r = k) :
    Obeys discipline (call a) k (Gives fun k' _ => k' = k) :=
  Obeys.call hallowed fun r _ _ => hquiet r

/-- An action whose error is ignored, and after which nothing more is known. -/
theorem obeys_attempt {a : Action} (hallowed : k.Allowed a) (hquiet : ∀ r, k.next a r = k) :
    Obeys discipline (call a).attempt k (Gives fun k' _ => k' = k) :=
  (Obeys.call hallowed fun r _ _ => hquiet r).attempt

theorem obeys_upsert (alert : NewAlert) :
    Obeys discipline (upsert alert) k (Gives fun k' _ => k' = k) := by
  refine obeys_bind (obeys_quiet trivial fun r => ?_) ?_
  · cases r with
    | _ => rfl
  · rintro k' existing rfl
    cases existing with
    | some id => exact obeys_quiet trivial fun _ => rfl
    | none =>
        refine obeys_bind (obeys_quiet trivial fun r => ?_) ?_
        · cases r with
          | _ => rfl
        · rintro k' id rfl
          exact obeys_quiet trivial fun _ => rfl

theorem obeys_upsertAll (alerts : List NewAlert) :
    Obeys discipline (upsertAll alerts) k (Gives fun k' _ => k' = k) := by
  induction alerts with
  | nil => exact fun _ _ => rfl
  | cons alert alerts ih =>
      refine obeys_bind (obeys_upsert alert) ?_
      rintro k' _ rfl
      exact ih

theorem obeys_emitAll (active : List Str) (alerts : List NewAlert) :
    Obeys discipline (emitAll active alerts) k
      (Gives fun k' active' => k' = k ∧ active' = active ++ alerts.map (·.dedupKey)) := by
  refine obeys_bind (obeys_upsertAll alerts) ?_
  rintro k' _ rfl
  rintro _ ⟨⟩
  exact ⟨rfl, rfl⟩

theorem obeys_rule (r : Rule) :
    Obeys discipline (call (.rule r)) k (Gives fun k' alerts => k.Emits k' alerts ∧ r ∈ k'.done) := by
  refine Obeys.call trivial fun reply => ?_
  rintro alerts rfl
  exact ⟨k.emits_emit r alerts, List.mem_append_right _ List.mem_cons_self⟩

theorem obeys_emitRule (h : k.Accounts active) (r : Rule) :
    Obeys discipline (emitRule active r) k
      (Gives fun k' active' => k.Grows k' ∧ k'.Accounts active' ∧ r ∈ k'.done) := by
  refine obeys_bind (obeys_rule r) fun k' alerts hrule => ?_
  refine (obeys_emitAll active alerts).mono fun k'' reply hreply active' hactive' => ?_
  obtain ⟨rfl, rfl⟩ := hreply active' hactive'
  exact ⟨hrule.1.toGrows, hrule.1.accounts h, hrule.2⟩

/-- The rules for a credential that end the run have succeeded. -/
structure CredentialDone (k : Knows) (c : Credential) : Prop where
  status : .credentialStatus c.id ∈ k.done
  reuse : c.isReference = false → .reuse c.id ∈ k.done
  costSpike : .costSpike c.id ∈ k.done
  usageAfterDisabled : ∃ since, .usageAfterDisabled c.id since ∈ k.done
  budget : .credentialBudget c.id ∈ k.done

theorem CredentialDone.mono {c : Credential} (h : CredentialDone k c) (hdone : k.done ⊆ k'.done) :
    CredentialDone k' c where
  status := hdone h.status
  reuse href := hdone (h.reuse href)
  costSpike := hdone h.costSpike
  usageAfterDisabled := h.usageAfterDisabled.imp fun _ h => hdone h
  budget := hdone h.budget

theorem obeys_reuse (c : Credential) :
    Obeys discipline (if c.isReference then .ret [] else call (.rule (.reuse c.id))) k
      (Gives fun k' alerts => k.Emits k' alerts ∧ (c.isReference = false → .reuse c.id ∈ k'.done)) := by
  cases href : c.isReference with
  | true =>
      rintro _ ⟨⟩
      exact ⟨.refl k, fun h => by cases h⟩
  | false => exact (obeys_rule (.reuse c.id)).mono fun k' r h alerts hr =>
      ⟨(h alerts hr).1, fun _ => (h alerts hr).2⟩

theorem obeys_lastDisabledAt (id : Str) :
    Obeys discipline (lastDisabledAt id) k (Gives fun k' _ => k.Emits k' []) := by
  have hcall : Obeys discipline (call (.lastDisabledAt id)).attempt k
      (Gives fun k' _ => k.Emits k' []) := by
    refine (Obeys.call trivial fun reply => ?_).attempt
    rintro _ _
    cases reply with
    | ok since => exact ⟨⟨rfl, rfl, fun _ h => h⟩, fun _ h => .inl h⟩
    | error e => exact .refl k
  refine obeys_bind hcall fun k' reply h => ?_
  cases reply with
  | ok since => exact fun _ _ => h
  | error e => exact fun _ _ => h

theorem obeys_credentialRules (h : k.Accounts active) (c : Credential) :
    Obeys discipline (credentialRules active c) k
      (Gives fun k' active' => k.Grows k' ∧ k'.Accounts active' ∧ CredentialDone k' c) := by
  refine obeys_bind (obeys_rule _) fun k₁ status h₁ => ?_
  refine obeys_bind (obeys_reuse c) fun k₂ reuse h₂ => ?_
  refine obeys_bind (obeys_rule _) fun k₃ spike h₃ => ?_
  refine obeys_bind (obeys_lastDisabledAt c.id) fun k₄ since h₄ => ?_
  refine obeys_bind (obeys_rule _) fun k₅ after h₅ => ?_
  refine obeys_bind (obeys_rule _) fun k₆ budget h₆ => ?_
  refine (obeys_emitAll active _).mono fun k' reply hreply active' hactive' => ?_
  obtain ⟨rfl, rfl⟩ := hreply active' hactive'
  have h56 := h₅.1.toGrows.trans h₆.1.toGrows
  have h36 := h₄.toGrows.trans h56
  have h26 := h₃.1.toGrows.trans h36
  have h16 := h₂.1.toGrows.trans h26
  have hemits := ((((h₁.1.trans h₂.1).trans h₃.1).trans h₄).trans h₅.1).trans h₆.1
  rw [List.append_nil] at hemits
  exact ⟨hemits.toGrows, hemits.accounts h,
    ⟨h16.done h₁.2, fun href => h26.done (h₂.2 href), h36.done h₃.2, ⟨since, h₆.1.done h₅.2⟩, h₆.2⟩⟩

theorem obeys_allCredentials (h : k.Accounts active) (cs : List Credential) :
    Obeys discipline (allCredentials active cs) k
      (Gives fun k' active' => k.Grows k' ∧ k'.Accounts active' ∧ ∀ c ∈ cs, CredentialDone k' c) := by
  induction cs generalizing k active with
  | nil =>
      rintro _ ⟨⟩
      exact ⟨.refl k, h, fun _ hc => by cases hc⟩
  | cons c cs ih =>
      refine obeys_bind (obeys_credentialRules h c) fun k₁ active₁ h₁ => ?_
      refine (ih h₁.2.1).mono fun k' reply hreply active' hactive' => ?_
      obtain ⟨hgrows, haccounts, hdone⟩ := hreply active' hactive'
      refine ⟨h₁.1.trans hgrows, haccounts, List.forall_mem_cons.2 ⟨h₁.2.2.mono hgrows.done, hdone⟩⟩

theorem obeys_allProjects (h : k.Accounts active) (ids : List Str) :
    Obeys discipline (allProjects active ids) k
      (Gives fun k' active' => k.Grows k' ∧ k'.Accounts active' ∧
        ∀ id ∈ ids, .projectBudget id ∈ k'.done) := by
  induction ids generalizing k active with
  | nil =>
      rintro _ ⟨⟩
      exact ⟨.refl k, h, fun _ hid => by cases hid⟩
  | cons id ids ih =>
      refine obeys_bind (obeys_emitRule h _) fun k₁ active₁ h₁ => ?_
      refine (ih h₁.2.1).mono fun k' reply hreply active' hactive' => ?_
      obtain ⟨hgrows, haccounts, hdone⟩ := hreply active' hactive'
      exact ⟨h₁.1.trans hgrows, haccounts, List.forall_mem_cons.2 ⟨hgrows.done h₁.2.2, hdone⟩⟩

theorem obeys_runtimeRules (h : k.Accounts active) :
    Obeys discipline (runtimeRules active) k
      (Gives fun k' active' => k.Grows k' ∧ k'.Accounts active') := by
  have hcall : Obeys discipline (call (.rule .runtime)).attempt k (Gives fun k' reply =>
      match reply with
      | .ok alerts => k.Emits k' alerts
      | .error _ => k' = k) := by
    refine (Obeys.call trivial fun reply => ?_).attempt
    rintro _ ⟨⟩
    cases reply with
    | ok alerts => exact k.emits_emit _ alerts
    | error e => rfl
  refine obeys_bind hcall fun k₁ reply h₁ => ?_
  cases reply with
  | ok alerts =>
      refine (obeys_emitAll active alerts).mono fun k' reply hreply active' hactive' => ?_
      obtain ⟨rfl, rfl⟩ := hreply active' hactive'
      exact ⟨h₁.toGrows, h₁.accounts h⟩
  | error e =>
      obtain rfl := h₁
      refine obeys_bind (obeys_attempt trivial fun _ => rfl) ?_
      rintro k' _ rfl
      rintro _ ⟨⟩
      exact ⟨.refl _, h⟩

theorem obeys_repoAlerts : Obeys discipline repoAlerts k (Gives fun k' _ => k' = k) := by
  refine obeys_bind (obeys_attempt trivial fun r => ?_) ?_
  · cases r with
    | _ => rfl
  · rintro k' reply rfl
    cases reply with
    | ok alerts => exact obeys_upsertAll alerts
    | error e => exact fun _ _ => rfl

theorem obeys_resolveAll (hdone : k.RulesDone) (h : k.Accounts active) {pairs : List (Str × Str)}
    (hlisted : ∀ x ∈ pairs, x ∈ k.listed) :
    Obeys discipline (resolveAll active pairs) k (Gives fun _ _ => True) := by
  induction pairs with
  | nil => exact fun _ _ => trivial
  | cons x pairs ih =>
      obtain ⟨hx, hrest⟩ := List.forall_mem_cons.1 hlisted
      rw [resolveAll]
      split
      case isTrue => exact ih hrest
      case isFalse hinactive =>
          have hkey : x.2 ∉ k.emitted := fun hmem => hinactive (by simpa using h _ hmem)
          refine obeys_bind (obeys_quiet ⟨hdone, x.2, hx, hkey⟩ fun _ => rfl) ?_
          rintro k' _ rfl
          exact ih hrest

theorem obeys_autoResolveStale (hdone : k.RulesDone) (h : k.Accounts active) :
    Obeys discipline (autoResolveStale managed active) k (Gives fun _ _ => True) := by
  rw [autoResolveStale, if_neg (by decide)]
  refine Obeys.call_bind rfl (fun found => ?_) fun e => gives_error _ e
  have hdone' : Knows.RulesDone { k with listed := found } :=
    ⟨hdone.status, hdone.reuse, hdone.costSpike, hdone.usageAfterDisabled, hdone.credentialBudget,
      hdone.projectBudget, hdone.providerConnections, hdone.rotation, hdone.observe⟩
  exact @obeys_resolveAll { k with listed := found } active hdone' h _ fun _ hx => hx

theorem obeys_runMonitor : Obeys discipline runMonitor Knows.start (Gives fun _ _ => True) := by
  refine obeys_bind (obeys_attempt trivial fun _ => rfl) ?_
  rintro k₀ _ rfl
  refine obeys_bind (obeys_quiet trivial fun _ => rfl) ?_
  rintro k₀ _ rfl
  refine Obeys.call_bind trivial (fun credentials => ?_) fun e => gives_error _ e
  refine obeys_bind (obeys_allCredentials (fun _ h => by cases h) credentials) fun k₁ active₁ h₁ => ?_
  refine Obeys.call_bind trivial (fun projects => ?_) fun e => gives_error _ e
  refine obeys_bind (@obeys_allProjects { k₁ with projects := projects } active₁ h₁.2.1 projects)
    fun k₂ active₂ h₂ => ?_
  refine obeys_bind (obeys_emitRule h₂.2.1 _) fun k₃ active₃ h₃ => ?_
  refine obeys_bind (obeys_emitRule h₃.2.1 _) fun k₄ active₄ h₄ => ?_
  refine obeys_bind (obeys_attempt trivial fun _ => rfl) ?_
  rintro k₄' _ rfl
  refine obeys_bind obeys_repoAlerts ?_
  rintro k₄' _ rfl
  refine obeys_bind (obeys_emitRule h₄.2.1 _) fun k₅ active₅ h₅ => ?_
  refine obeys_bind (obeys_runtimeRules h₅.2.1) fun k₆ active₆ h₆ => ?_
  have h46 := h₅.1.trans h₆.1
  have h36 := h₄.1.trans h46
  have h26 := h₃.1.trans h36
  have h16 := h₂.1.trans h26
  have hcredentials : k₆.credentials = credentials := h16.credentials.trans h₁.1.credentials
  have hprojects : k₆.projects = projects := h16.projects
  have hcredential : ∀ c ∈ k₆.credentials, CredentialDone k₆ c := by
    intro c hc
    exact (h₁.2.2 c (hcredentials ▸ hc)).mono h16.done
  refine obeys_autoResolveStale ?_ h₆.2
  exact
    { status := fun c hc => (hcredential c hc).status
      reuse := fun c hc => (hcredential c hc).reuse
      costSpike := fun c hc => (hcredential c hc).costSpike
      usageAfterDisabled := fun c hc => (hcredential c hc).usageAfterDisabled
      credentialBudget := fun c hc => (hcredential c hc).budget
      projectBudget := fun id hid => h26.done (h₂.2.2 id (hprojects ▸ hid))
      providerConnections := h36.done h₃.2.2
      rotation := h46.done h₄.2.2
      observe := h₆.1.done h₅.2.2 }

end

/-! ## The table -/

section

variable {s : State}

theorem openWith_eq_nil {key : Str} :
    s.openWith key = [] ↔ ∀ a ∈ s.alerts, a.isOpen = true → a.dedupKey ≠ key := by
  simp [State.openWith, List.filter_eq_nil_iff]

/-- The rows are identified by their ids, and at most one of a key is open. -/
structure TableOk (s : State) : Prop where
  ids : (s.alerts.map (·.id)).Nodup
  oneOpen : OneOpen s

theorem mem_close {id : Str} {a : Alert} :
    a ∈ (s.close id).alerts ↔
      ∃ b ∈ s.alerts, a = if b.id = id then { b with isOpen := false } else b := by
  simp [State.close, eq_comm]

theorem TableOk.close (h : TableOk s) (id : Str) : TableOk (s.close id) := by
  have hids : (s.close id).alerts.map (·.id) = s.alerts.map (·.id) := by
    simp only [State.close, List.map_map]
    refine List.map_congr_left fun a _ => ?_
    simp only [Function.comp_apply]
    split <;> rfl
  refine ⟨by rw [hids]; exact h.ids, ?_⟩
  intro a ha b hb hopena hopenb hkey
  obtain ⟨a', ha', rfl⟩ := mem_close.1 ha
  obtain ⟨b', hb', rfl⟩ := mem_close.1 hb
  split at hopena
  · cases hopena
  · split at hopenb
    · cases hopenb
    · rw [if_neg ‹_›, if_neg ‹_›] at hkey ⊢
      exact h.oneOpen a' ha' b' hb' hopena hopenb hkey

theorem TableOk.insert (h : TableOk s) {id : Str} {alert : NewAlert}
    (hnone : s.openWith alert.dedupKey = []) (hid : id ∉ s.alerts.map (·.id)) :
    TableOk ⟨s.alerts ++ [⟨id, alert.kind, alert.dedupKey, true⟩]⟩ := by
  rw [openWith_eq_nil] at hnone
  constructor
  · rw [List.map_append, List.nodup_append]
    refine ⟨h.ids, List.nodup_singleton _, fun x hx y hy hxy => hid ?_⟩
    rw [← show y = id from List.mem_singleton.1 hy, ← hxy]
    exact hx
  · intro a ha b hb hopena hopenb hkey
    rcases List.mem_append.1 ha with ha | ha <;> rcases List.mem_append.1 hb with hb | hb
    · exact h.oneOpen a ha b hb hopena hopenb hkey
    · obtain rfl := List.mem_singleton.1 hb
      exact absurd hkey (hnone a ha hopena)
    · obtain rfl := List.mem_singleton.1 ha
      exact absurd hkey.symm (hnone b hb hopenb)
    · rw [List.mem_singleton.1 ha, List.mem_singleton.1 hb]

/-- Rows stay, with their kind and key. -/
def Keeps (s t : State) : Prop :=
  ∀ a ∈ s.alerts, ∃ b ∈ t.alerts, b.id = a.id ∧ b.kind = a.kind ∧ b.dedupKey = a.dedupKey

theorem Keeps.refl (s : State) : Keeps s s := fun a ha => ⟨a, ha, rfl, rfl, rfl⟩

theorem keeps_close (s : State) (id : Str) : Keeps s (s.close id) := by
  intro a ha
  refine ⟨_, mem_close.2 ⟨a, ha, rfl⟩, ?_⟩
  split <;> exact ⟨rfl, rfl, rfl⟩

/-- Every statement keeps the table. -/
theorem exec_table {a : Action} {r : Except CoreError (Answer a)} {t : State} (h : TableOk s)
    (hexec : Exec s a r t) : TableOk t ∧ Keeps s t := by
  obtain ⟨hreply, rfl⟩ := hexec
  cases r with
  | error e =>
      have hsame : effect s a (.error e) = s := by
        cases a with
        | _ => rfl
      rw [hsame]
      exact ⟨h, .refl s⟩
  | ok x =>
      cases a with
      | insert id alert =>
          simp only [effect]
          split
          case isTrue hnone =>
              exact ⟨h.insert hnone (hreply hnone), fun a ha =>
                ⟨a, List.mem_append_left _ ha, rfl, rfl, rfl⟩⟩
          case isFalse => exact ⟨h, .refl s⟩
      | autoResolve id | resolve id => exact ⟨h.close id, keeps_close s id⟩
      | _ => exact ⟨h, .refl s⟩

end

/-! ## Runs -/

/-- The alerts that a run has listed are there, and of a managed kind. -/
def Listed (s : State) (k : Knows) : Prop :=
  ∀ x ∈ k.listed, ∃ a ∈ s.alerts, a.id = x.1 ∧ a.dedupKey = x.2 ∧ a.kind ∈ managed

theorem Listed.keeps {s t : State} {k : Knows} (h : Listed s k) (hkeeps : Keeps s t) : Listed t k := by
  intro x hx
  obtain ⟨a, ha, hid, hkey, hkind⟩ := h x hx
  obtain ⟨b, hb, hbid, hbkind, hbkey⟩ := hkeeps a ha
  exact ⟨b, hb, hbid.trans hid, hbkey.trans hkey, hbkind ▸ hkind⟩

/-- What a run knows after a statement is listed. -/
theorem listed_next {s t : State} {k : Knows} {a : Action} {r : Except CoreError (Answer a)}
    (h : Listed s k) (hallowed : k.Allowed a) (hexec : Exec s a r t) (hkeeps : Keeps s t) :
    Listed t (k.next a r) := by
  obtain ⟨hreply, rfl⟩ := hexec
  cases r with
  | error e =>
      have hsame : k.next a (.error e) = k := by
        cases a with
        | _ => rfl
      rw [hsame]
      exact h.keeps hkeeps
  | ok x =>
      cases a with
      | listOpen kinds =>
          obtain rfl : kinds = managed := hallowed
          intro y hy
          have hx : x = (s.alerts.filter fun a => a.isOpen && managed.contains a.kind).map fun a =>
            (a.id, a.dedupKey) := hreply
          have hy : y ∈ x := hy
          rw [hx] at hy
          obtain ⟨a, ha, rfl⟩ := List.mem_map.1 hy
          obtain ⟨ha, hopen⟩ := List.mem_filter.1 ha
          rw [Bool.and_eq_true, List.contains_iff_mem] at hopen
          exact ⟨a, ha, rfl, rfl, hopen.2⟩
      | _ => exact h.keeps hkeeps

abbrev Run : World State Answer CoreError Unit → World State Answer CoreError Unit → Prop :=
  Steps (Step system fun _ _ _ => True)

theorem program_obeys (op : Op) :
    Obeys discipline (system.program op) Knows.start fun _ _ => True := by
  cases op with
  | monitor => exact obeys_runMonitor.mono fun _ _ _ => trivial
  | raise alert => exact (obeys_upsert alert).mono fun _ _ _ => trivial
  | resolve id =>
      have hquiet : Obeys discipline (call (.resolve id)) Knows.start
          (Gives fun k' _ => k' = Knows.start) := obeys_quiet trivial fun _ => rfl
      exact hquiet.mono fun _ _ _ => trivial

structure Inv (w : World State Answer CoreError Unit) : Prop where
  table : TableOk w.state
  listed : ∀ p ∈ w.procs, Listed w.state (p.knows discipline Knows.start)

theorem run_inv {s : State} (hs : TableOk s) {w : World State Answer CoreError Unit}
    (h : Run (World.initial s) w) : Inv w := by
  refine System.invariant discipline Knows.start program_obeys ?_ ?_ ?_
    ⟨hs, fun _ hp => by cases hp⟩ h
  · intro w op hw
    exact ⟨hw.table, forall_procs_start hw.listed fun _ hx => by cases hx⟩
  · intro w i p a next r t hw hp _ hallowed hexec _
    obtain ⟨htable, hkeeps⟩ := exec_table hw.table hexec
    refine ⟨htable, forall_procs_set (fun q hq => (hw.listed q hq).keeps hkeeps) ?_⟩
    rw [Proc.knows_perform]
    exact listed_next (hw.listed p (List.mem_of_getElem? hp)) hallowed hexec hkeeps
  · intro w i p hw hp
    exact ⟨hw.table, forall_procs_set hw.listed (hw.listed p (List.mem_of_getElem? hp))⟩

/-- In every interleaving of monitor runs with other upserts and resolutions: at most one alert of a key is
    open; and when a run is about to resolve an alert, the alert is of a managed kind, and its resolution
    has a verdict if and only if what may fail without ending the run has not failed in it. -/
theorem auto_resolve_iff {s : State} (hids : (s.alerts.map (·.id)).Nodup) (hopen : OneOpen s)
    {w : World State Answer CoreError Unit} (h : Run (World.initial s) w) :
    OneOpen w.state ∧
      ∀ p ∈ w.procs, ∀ id next, p.prog = some (.act (.autoResolve id) next) →
        ∀ a ∈ w.state.alerts, a.id = id → a.kind ∈ managed ∧
          ((p.knows discipline Knows.start).Verdict a ↔
            (p.knows discipline Knows.start).IgnoredSucceeded a.kind) := by
  have hinv := run_inv ⟨hids, hopen⟩ h
  have hconforms := System.conforms program_obeys h
  refine ⟨hinv.table.oneOpen, fun p hp id next hprog a ha hid => ?_⟩
  obtain ⟨hdone, key, hlisted, hkey⟩ := (hconforms p hp _ hprog).1
  obtain ⟨b, hb, hbid, hbkey, hbkind⟩ := hinv.listed p hp _ hlisted
  obtain rfl : a = b := List.inj_on_of_nodup_map hinv.table.ids ha hb (hid.trans hbid.symm)
  refine ⟨hbkind, ?_⟩
  unfold Knows.Verdict
  rw [hdone.completed_iff hbkind, hbkey]
  exact and_iff_left hkey

/-! ## A run whose runtime rules fail -/

/-- No credentials, projects or alerts; the runtime rules may fail. -/
def reply (runtimeFails : Bool) (s : State) : (a : Action) → Except CoreError (Answer a)
  | .maintenance => .ok ()
  | .budgetCostSource => .ok ()
  | .listCredentials => .ok []
  | .listProjects => .ok []
  | .rule r => if runtimeFails ∧ r = .runtime then .error (.db "database is locked".toList) else .ok []
  | .lastDisabledAt _ => .ok none
  | .scanRepos => .ok []
  | .findOpen key => .ok ((s.openWith key).map (·.id)).head?
  | .refresh _ _ => .ok ()
  | .newId => .ok "b".toList
  | .insert _ _ => .error (.db "database is locked".toList)
  | .audit _ => .ok ()
  | .listOpen kinds =>
      .ok ((s.alerts.filter fun a => a.isOpen && kinds.contains a.kind).map fun a => (a.id, a.dedupKey))
  | .autoResolve _ => .ok ()
  | .resolve _ => .ok ()

def handler (runtimeFails : Bool) (s : State) (a : Action) : Except CoreError (Answer a) × State :=
  (reply runtimeFails s a, effect s a (reply runtimeFails s a))

theorem exec_handler (runtimeFails : Bool) (s : State) (a : Action) :
    Exec s a (handler runtimeFails s a).1 (handler runtimeFails s a).2 := by
  refine ⟨?_, rfl⟩
  cases a with
  | findOpen | listOpen => exact rfl
  | rule r =>
      simp only [handler, reply]
      split <;> exact trivial
  | _ => exact trivial

/-- An open alert of the runtime rules. -/
def oneAlert : State :=
  ⟨[⟨"a".toList, .runtimeAuthFailures, "runtime_auth:api".toList, true⟩]⟩

def nextAction : Prog Unit → Option Action
  | .act a _ => some a
  | _ => none

theorem eq_act_of_nextAction {p : Prog Unit} {a : Action} (h : nextAction p = some a) :
    ∃ next, p = .act a next := by
  cases p with
  | act b next =>
      obtain rfl := Option.some.inj h
      exact ⟨next, rfl⟩
  | _ => cases h

/-- A monitor run up to its first resolution. -/
theorem run_to_resolution (runtimeFails : Bool) (n : Nat)
    (hnext : nextAction (runMonitor.perform (handler runtimeFails) n [] oneAlert).1 =
      some (.autoResolve "a".toList))
    (hstate : (runMonitor.perform (handler runtimeFails) n [] oneAlert).2.2 = oneAlert) :
    ∃ w, Run (World.initial oneAlert) w ∧ w.state = oneAlert ∧
      ∃ p ∈ w.procs, p.history = (runMonitor.perform (handler runtimeFails) n [] oneAlert).2.1 ∧
        ∃ next, p.prog = some (.act (.autoResolve "a".toList) next) := by
  have hstart : Step system (fun _ _ _ => True) (World.initial oneAlert)
      ⟨oneAlert, [⟨some runMonitor, []⟩], []⟩ := .start _ Op.monitor
  obtain ⟨w, hsteps, hw, hproc⟩ := World.steps_perform (S := system)
    (exec_handler runtimeFails) n runMonitor [] (w := ⟨oneAlert, [⟨some runMonitor, []⟩], []⟩) (i := 0) rfl
  obtain ⟨next, hprog⟩ := eq_act_of_nextAction hnext
  exact ⟨w, .head hstart hsteps, hw.trans hstate, _, List.mem_of_getElem? hproc, rfl, next,
    congrArg some hprog⟩

/-- With rules that succeed and emit nothing, the alert is resolved with a verdict. -/
theorem auto_resolve_iff_quiet :
    ∃ w, Run (World.initial oneAlert) w ∧ ∃ p ∈ w.procs, ∃ next,
      p.prog = some (.act (.autoResolve "a".toList) next) ∧
        ∀ a ∈ w.state.alerts, (p.knows discipline Knows.start).Verdict a := by
  obtain ⟨w, hrun, hstate, p, hp, hhistory, next, hprog⟩ :=
    run_to_resolution false 11 (by decide) (by decide)
  refine ⟨w, hrun, p, hp, next, hprog, fun a ha => ?_⟩
  have hid : a.id = "a".toList ∧ a.kind = .runtimeAuthFailures := by
    rw [hstate] at ha
    rw [List.mem_singleton.1 ha]
    exact ⟨rfl, rfl⟩
  refine (((auto_resolve_iff (by decide) (by unfold OneOpen; decide) hrun).2 p hp _ next hprog a ha
    hid.1).2).2 ?_
  rw [hid.2]
  refine ⟨fun _ => ?_, fun h => by cases h⟩
  rw [Proc.knows, hhistory]
  decide

/-- The runtime rules fail, and their open alert is resolved. -/
theorem failed_rules_resolve :
    ∃ w, Run (World.initial oneAlert) w ∧ ∃ p ∈ w.procs, ∃ next,
      p.prog = some (.act (.autoResolve "a".toList) next) ∧
        ∃ a ∈ w.state.alerts, a.id = "a".toList ∧ a.isOpen = true ∧
          ¬(p.knows discipline Knows.start).Verdict a := by
  obtain ⟨w, hrun, hstate, p, hp, hhistory, next, hprog⟩ :=
    run_to_resolution true 12 (by decide) (by decide)
  refine ⟨w, hrun, p, hp, next, hprog, ⟨"a".toList, .runtimeAuthFailures, _, true⟩,
    by rw [hstate]; exact List.mem_cons_self, rfl, rfl, fun hverdict => ?_⟩
  have hruntime : Rule.runtime ∈ (p.knows discipline Knows.start).done := hverdict.1.2
  rw [Proc.knows, hhistory] at hruntime
  exact absurd hruntime (by decide)

end Tethra.AutoResolve
