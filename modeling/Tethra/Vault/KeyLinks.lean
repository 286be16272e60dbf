import Tethra.Gateway.EnvLink
import Tethra.Lib.Runs
import Tethra.Vault.SyncReplace

set_option autoImplicit false

/-! # Provider keys linked to credentials (`core/src/vault.rs`)

A link of a provider's key id to a credential gives the usage rows of the key an exact attribution. A sync
reads the links before it writes its rows, and a link or unlink is two statements: the row of the link, and
the rows of usage. In between another operation may change the link (`stale_lookup`). When none does
(`Undisturbed`), every row follows its link (`rows_follow_links`). -/

namespace Tethra.KeyLinks

open Runs SyncReplace Gateway

/-- `Attribution`. -/
inductive Attribution where
  | exactCredential
  | providerKey
  | providerProject
  | providerAccount
  | localProject
  | localProcess
  | unknown
  deriving DecidableEq, Repr

/-- A row of `usage_snapshots`, with what it is attributed to. -/
structure Row extends Snapshot where
  providerApiKeyId : Option Str
  credentialId : Option Str
  projectId : Option Str
  attribution : Attribution
  deriving DecidableEq, Repr

/-- What is read of a credential. -/
structure Credential where
  provider : Str
  projectId : Str
  deriving DecidableEq, Repr

/-- The tables; a link is stored under its provider and the provider's key id. -/
structure Db where
  credentials : Str → Option Credential
  links : Str → Str → Option Str
  rows : List Row

/-! ## Statements -/

/-- `provider_key_link_map`: the links joined with their credentials. -/
def Db.keyLinkMap (db : Db) (provider key : Str) : Option (Str × Str) :=
  (db.links provider key).bind fun id => (db.credentials id).map fun c => (id, c.projectId)

def Db.setLink (db : Db) (provider key : Str) (link : Option Str) : Db :=
  { db with
    links := Function.update db.links provider (Function.update (db.links provider) key link) }

/-- The rows of a key that are not entered by hand. -/
def Row.ofKey (provider key : Str) (r : Row) : Bool :=
  r.provider = provider && r.providerApiKeyId = some key && r.source ≠ manual

/-- The `UPDATE` of a link or an unlink. -/
def Db.attributeRows (db : Db) (provider key : Str) (credentialId projectId : Option Str)
    (attribution : Attribution) : Db :=
  { db with
    rows := db.rows.map fun r =>
      if r.ofKey provider key then
        { r with credentialId := credentialId, projectId := projectId, attribution := attribution }
      else r }

/-- `DELETE FROM credentials`; the foreign keys of links and rows cascade. -/
def Db.deleteCredential (db : Db) (id : Str) : Db where
  credentials := Function.update db.credentials id none
  links provider key := (db.links provider key).filter (· ≠ id)
  rows := db.rows.filter (·.credentialId ≠ some id)

/-! ## Syncs -/

structure FetchedRow where
  bucket : Bucket
  providerApiKeyId : Option Str
  providerProjectId : Option Str
  deriving DecidableEq, Repr

/-- `attribution_for`. -/
def attributionFor (apiKeyId projectId : Option Str) : Attribution :=
  if apiKeyId.isSome then .providerKey
  else if projectId.isSome then .providerProject
  else .providerAccount

def FetchedRow.row (provider source : Str) (f : FetchedRow) : Row where
  toSnapshot := f.bucket.snapshot provider source
  providerApiKeyId := f.providerApiKeyId
  credentialId := none
  projectId := none
  attribution := attributionFor f.providerApiKeyId f.providerProjectId

inductive Engine where
  | openai
  | anthropic
  deriving DecidableEq, Repr

def Engine.detail : Engine → DetailEngine
  | .openai => SyncReplace.openai
  | .anthropic => SyncReplace.anthropic

/-- A linked key upgrades its row. -/
def Row.upgrade (links : Str → Option (Str × Str)) (r : Row) : Row :=
  match r.providerApiKeyId.bind links with
  | some (credentialId, projectId) =>
      { r with
        credentialId := some credentialId
        projectId := some projectId
        attribution := .exactCredential }
  | none => r

/-- The fetched rows of usage and of costs; Anthropic's costs have no key. -/
def Engine.fetched (e : Engine) (usage costs : List FetchedRow) : List Row :=
  usage.map (·.row e.detail.provider e.detail.usageSource) ++
    costs.map fun f => match e with
      | .openai => f.row e.detail.provider e.detail.costsSource
      | .anthropic =>
          { f with providerApiKeyId := none }.row e.detail.provider e.detail.costsSource

/-- The transaction of a sync: the rows it replaces go, and its valid rows are recorded with the links as
    they were looked up. -/
def Db.write (parse : Str → Option Int) (db : Db) (e : Engine) (usage costs : List FetchedRow)
    (links : Str → Option (Str × Str)) : Db :=
  { db with
    rows := (db.rows.filter fun r => !(e.detail.parts parse (usage.map (·.bucket))
          (costs.map (·.bucket))).any fun p => p.deletes r.toSnapshot) ++
        ((e.fetched usage costs).filter fun r => validWindow parse r.toSnapshot).map
          (Row.upgrade links) }

/-- The transaction of a connector sync, whose rows have no key. -/
def Db.writeConnector (parse : Str → Option Int) (db : Db) (provider source : Str)
    (attribution : Attribution) (fetched : List Bucket) : Db :=
  { db with
    rows := (db.rows.filter fun r => !(legacyParts parse provider source fetched).any fun p =>
          p.deletes r.toSnapshot) ++
        (((fetched.map (·.snapshot provider source)).filter (validWindow parse)).map fun s =>
        ⟨s, none, none, none, attribution⟩) }

/-! ## Operations -/

/-- Where an operation is: its next statement, and what it has read. -/
inductive Phase where
  | sync (e : Engine)
  | syncLookup (e : Engine) (usage costs : List FetchedRow)
  | syncWrite (e : Engine) (usage costs : List FetchedRow) (links : Str → Option (Str × Str))
  | connectorSync (provider : Str)
  | link (provider key : Str)
  | linkUpsert (provider key id : Str) (cred : Credential)
  | linkAttribute (provider key id : Str) (cred : Credential)
  | unlink (provider key : Str)
  | unlinkDowngrade (provider key : Str)
  | deleteCredential
  | deleteRow (id : Str)
  | ended

/-- `usage_sync_range`, `provider_link_key`, `provider_unlink_key` and `delete_credential`. -/
def Phase.Initial : Phase → Prop
  | .sync _ | .connectorSync _ | .link _ _ | .unlink _ _ | .deleteCredential => True
  | _ => False

/-- A statement that succeeds. A foreign key has to exist. -/
inductive Performs (parse : Str → Option Int) : Db → Phase → Db → Phase → Prop where
  | fetch (db : Db) (e : Engine) (usage costs : List FetchedRow) :
      Performs parse db (.sync e) db (.syncLookup e usage costs)
  | lookup (db : Db) (e : Engine) (usage costs : List FetchedRow) :
      Performs parse db (.syncLookup e usage costs) db
        (.syncWrite e usage costs (db.keyLinkMap e.detail.provider))
  | write (db : Db) (e : Engine) (usage costs : List FetchedRow) (links : Str → Option (Str × Str))
      (hforeign : ∀ r ∈ (db.write parse e usage costs links).rows, ∀ id, r.credentialId = some id →
        db.credentials id ≠ none) :
      Performs parse db (.syncWrite e usage costs links) (db.write parse e usage costs links) .ended
  | connector (db : Db) (provider source : Str) (attribution : Attribution) (fetched : List Bucket) :
      Performs parse db (.connectorSync provider)
        (db.writeConnector parse provider source attribution fetched) .ended
  | getCredential (db : Db) (provider key id : Str) (cred : Credential)
      (hcred : db.credentials id = some cred) :
      Performs parse db (.link provider key) db
        (if eqIgnoreAsciiCase cred.provider provider then .linkUpsert provider key id cred else .ended)
  | upsert (db : Db) (provider key id : Str) (cred : Credential) (hforeign : db.credentials id ≠ none) :
      Performs parse db (.linkUpsert provider key id cred) (db.setLink provider key (some id))
        (.linkAttribute provider key id cred)
  | attributeRows (db : Db) (provider key id : Str) (cred : Credential) :
      Performs parse db (.linkAttribute provider key id cred)
        (db.attributeRows provider key (some id) (some cred.projectId) .exactCredential) .ended
  | noLink (db : Db) (provider key : Str) (hlink : db.links provider key = none) :
      Performs parse db (.unlink provider key) db .ended
  | unlink (db : Db) (provider key : Str) (hlink : db.links provider key ≠ none) :
      Performs parse db (.unlink provider key) (db.setLink provider key none)
        (.unlinkDowngrade provider key)
  | downgrade (db : Db) (provider key : Str) :
      Performs parse db (.unlinkDowngrade provider key)
        (db.attributeRows provider key none none .providerKey) .ended
  | resolve (db : Db) (id : Str) : Performs parse db .deleteCredential db (.deleteRow id)
  | delete (db : Db) (id : Str) : Performs parse db (.deleteRow id) (db.deleteCredential id) .ended

structure World where
  db : Db
  procs : List Phase

def World.initial (db : Db) : World := ⟨db, []⟩

/-- Operations start, perform their next statement, or stop at it: with an error, or killed. -/
inductive Step (parse : Str → Option Int) (cond : World → Nat → Bool → Prop) : World → World → Prop where
  | start (w : World) (p : Phase) (hp : p.Initial) : Step parse cond w { w with procs := w.procs ++ [p] }
  | perform {w : World} {i : Nat} {p p' : Phase} {db : Db} (hp : w.procs[i]? = some p)
      (h : Performs parse w.db p db p') (hcond : cond w i true) :
      Step parse cond w ⟨db, w.procs.set i p'⟩
  | stop {w : World} {i : Nat} {p : Phase} (hp : w.procs[i]? = some p) (hcond : cond w i false) :
      Step parse cond w { w with procs := w.procs.set i .ended }

/-! ## Rows that follow their links -/

/-- A row of a key that is linked is attributed to the credential of the link and its project, and one of
    a key that is not linked is attributed to none. -/
def FollowsLink (db : Db) (r : Row) (key : Str) : Prop :=
  match db.links r.provider key with
  | some id => r.credentialId = some id ∧ r.attribution = .exactCredential ∧
      ∃ cred, db.credentials id = some cred ∧ r.projectId = some cred.projectId
  | none => r.credentialId = none ∧ r.attribution ≠ .exactCredential

/-- Every row of a key that is not entered by hand follows the key's link, or is about to be updated. -/
def Settled (db : Db) (ahead : Str → Str → Prop) : Prop :=
  ∀ r ∈ db.rows, r.source ≠ manual → ∀ key, r.providerApiKeyId = some key →
    FollowsLink db r key ∨ ahead r.provider key

/-- Every such row follows its link. -/
def RowsFollowLinks (db : Db) : Prop :=
  ∀ r ∈ db.rows, r.source ≠ manual → ∀ key, r.providerApiKeyId = some key → FollowsLink db r key

/-- The linked credentials exist. -/
def LinksExist (db : Db) : Prop :=
  ∀ provider key id, db.links provider key = some id → db.credentials id ≠ none

/-- The operation's next statement updates the rows of the key. -/
def Phase.Updates (provider key : Str) : Phase → Prop
  | .linkAttribute provider' key' _ _ => provider' = provider ∧ key' = key
  | .unlinkDowngrade provider' key' => provider' = provider ∧ key' = key
  | _ => False

/-- Another operation is about to update the rows of the key. -/
def World.UpdateAhead (w : World) (i : Nat) (provider key : Str) : Prop :=
  ∃ j p, j ≠ i ∧ w.procs[j]? = some p ∧ p.Updates provider key

/-- What a statement needs of the state it meets, unless another operation is about to update the rows of
    the key: a sync writes links that are still the stored ones, and the update of a link or an unlink finds
    the link as that operation left it. These updates do not fail. -/
def Undisturbed (parse : Str → Option Int) (w : World) (i : Nat) (performs : Bool) : Prop :=
  match w.procs[i]?, performs with
  | some (.syncWrite e usage costs links), true =>
      ∀ r ∈ e.fetched usage costs, validWindow parse r.toSnapshot = true →
        ∀ key, r.providerApiKeyId = some key → links key = w.db.keyLinkMap e.detail.provider key ∨ w.UpdateAhead i e.detail.provider key
  | some (.linkAttribute provider key id _), true =>
      w.db.links provider key = some id ∨ w.UpdateAhead i provider key
  | some (.unlinkDowngrade provider key), true =>
      w.db.links provider key = none ∨ w.UpdateAhead i provider key
  | some (.linkAttribute ..), false => False
  | some (.unlinkDowngrade ..), false => False
  | _, _ => True

/-! ## What the statements do to the rows -/

section

variable {parse : Str → Option Int} {db : Db} {ahead : Str → Str → Prop}

theorem Settled.mono {ahead' : Str → Str → Prop} (h : Settled db ahead)
    (himp : ∀ provider key, ahead provider key → ahead' provider key) : Settled db ahead' :=
  fun r hr hsource key hkey => (h r hr hsource key hkey).imp_right (himp _ _)

/-- The link of another key stays. -/
theorem links_setLink (db : Db) (provider key : Str) (link : Option Str) (provider' key' : Str) :
    (db.setLink provider key link).links provider' key' =
      if provider' = provider ∧ key' = key then link else db.links provider' key' := by
  simp only [Db.setLink]
  by_cases hprovider : provider' = provider
  · subst hprovider
    by_cases hkey : key' = key
    · simp [hkey]
    · simp [hkey]
  · simp [hprovider]

theorem Settled.setLink {provider key : Str} {link : Option Str} (h : Settled db ahead)
    (hahead : ahead provider key) : Settled (db.setLink provider key link) ahead := by
  intro r hr hsource key' hkey
  by_cases hsame : r.provider = provider ∧ key' = key
  · rw [hsame.1, hsame.2]
    exact .inr hahead
  · refine (h r hr hsource key' hkey).imp_left fun hfollows => ?_
    unfold FollowsLink at hfollows ⊢
    rw [links_setLink, if_neg hsame]
    exact hfollows

/-- The row that an update leaves. -/
theorem Settled.attributeRows {provider key : Str} {credentialId projectId : Option Str}
    {attribution : Attribution}
    (h : Settled db fun provider' key' =>
      ahead provider' key' ∨ provider = provider' ∧ key = key')
    (hupdated : ∀ r : Row, r.provider = provider → r.credentialId = credentialId →
      r.projectId = projectId → r.attribution = attribution →
        FollowsLink db r key ∨ ahead provider key) :
    Settled (db.attributeRows provider key credentialId projectId attribution) ahead := by
  intro r hr hsource key' hkey
  obtain ⟨old, hold, rfl⟩ := List.mem_map.1 hr
  by_cases hof : old.ofKey provider key = true
  · simp only [hof, if_true] at hsource hkey ⊢
    simp only [Row.ofKey, Bool.and_eq_true, decide_eq_true_eq] at hof
    obtain rfl : key = key' := Option.some.inj (hof.1.2.symm.trans hkey)
    obtain rfl := hof.1.1
    exact hupdated _ rfl rfl rfl rfl
  · simp only [hof] at hsource hkey ⊢
    rcases h old hold hsource key' hkey with hfollows | hahead | ⟨rfl, rfl⟩
    · exact .inl hfollows
    · exact .inr hahead
    · refine absurd ?_ hof
      have hsource : old.source ≠ manual := hsource
      have hkey : old.providerApiKeyId = some key := hkey
      simp [Row.ofKey, hkey, hsource]

theorem Settled.deleteCredential (h : Settled db ahead) (id : Str) :
    Settled (db.deleteCredential id) ahead := by
  intro r hr hsource key hkey
  obtain ⟨hr, hid⟩ := List.mem_filter.1 hr
  refine (h r hr hsource key hkey).imp_left fun hfollows => ?_
  have hne : r.credentialId ≠ some id := of_decide_eq_true hid
  unfold FollowsLink at hfollows ⊢
  cases hlink : db.links r.provider key with
  | none => simpa [Db.deleteCredential, hlink] using hfollows
  | some id' =>
      rw [hlink] at hfollows
      have hother : id' ≠ id := by
        rintro rfl
        exact hne hfollows.1
      simpa [Db.deleteCredential, hlink, Option.filter, hother] using hfollows

@[simp] theorem provider_upgrade (links : Str → Option (Str × Str)) (r : Row) :
    (r.upgrade links).provider = r.provider := by
  unfold Row.upgrade
  split <;> rfl

@[simp] theorem providerApiKeyId_upgrade (links : Str → Option (Str × Str)) (r : Row) :
    (r.upgrade links).providerApiKeyId = r.providerApiKeyId := by
  unfold Row.upgrade
  split <;> rfl

/-- A row that is written with the current answer for its key follows its link. -/
theorem followsLink_upgrade {r : Row} {links : Str → Option (Str × Str)} {key : Str}
    (hexist : LinksExist db) (hkey : r.providerApiKeyId = some key) (hnone : r.credentialId = none)
    (hattribution : r.attribution ≠ .exactCredential)
    (hlinks : links key = db.keyLinkMap r.provider key) : FollowsLink db (r.upgrade links) key := by
  unfold FollowsLink
  rw [provider_upgrade]
  cases hlink : db.links r.provider key with
  | none =>
      have hanswer : links key = none := by simp [hlinks, Db.keyLinkMap, hlink]
      simp [Row.upgrade, hkey, hanswer, hnone, hattribution]
  | some id =>
      obtain ⟨cred, hcred⟩ := Option.ne_none_iff_exists'.1 (hexist _ _ _ hlink)
      have hanswer : links key = some (id, cred.projectId) := by
        simp [hlinks, Db.keyLinkMap, hlink, hcred]
      simp [Row.upgrade, hkey, hanswer, hcred]

/-- What is fetched is attributed to no credential. -/
theorem of_mem_fetched {e : Engine} {usage costs : List FetchedRow} {r : Row}
    (h : r ∈ e.fetched usage costs) : r.provider = e.detail.provider ∧ r.credentialId = none ∧
      r.attribution ≠ .exactCredential := by
  have hrow : ∀ (f : FetchedRow) (source : Str), r = f.row e.detail.provider source →
      r.provider = e.detail.provider ∧ r.credentialId = none ∧
        r.attribution ≠ .exactCredential := by
    rintro f source rfl
    refine ⟨rfl, rfl, ?_⟩
    simp only [FetchedRow.row, attributionFor]
    split_ifs <;> decide
  rcases List.mem_append.1 h with h | h
  · obtain ⟨f, _, rfl⟩ := List.mem_map.1 h
    exact hrow f _ rfl
  · obtain ⟨f, _, rfl⟩ := List.mem_map.1 h
    cases e with
    | openai => exact hrow f _ rfl
    | anthropic => exact hrow _ _ rfl

theorem Settled.write {e : Engine} {usage costs : List FetchedRow}
    {links : Str → Option (Str × Str)} (h : Settled db ahead) (hexist : LinksExist db)
    (hlinks : ∀ r ∈ e.fetched usage costs, validWindow parse r.toSnapshot = true →
      ∀ key, r.providerApiKeyId = some key →
        links key = db.keyLinkMap e.detail.provider key ∨ ahead e.detail.provider key) :
    Settled (db.write parse e usage costs links) ahead := by
  intro r hr hsource key hkey
  rcases List.mem_append.1 hr with hr | hr
  · exact h r (List.mem_of_mem_filter hr) hsource key hkey
  · obtain ⟨f, hf, rfl⟩ := List.mem_map.1 hr
    obtain ⟨hf, hvalid⟩ := List.mem_filter.1 hf
    obtain ⟨hprovider, hnone, hattribution⟩ := of_mem_fetched hf
    rw [providerApiKeyId_upgrade] at hkey
    rw [provider_upgrade, hprovider]
    refine (hlinks f hf hvalid key hkey).imp_left fun hcurrent => ?_
    exact @followsLink_upgrade db _ _ _ hexist hkey hnone hattribution (by rw [hcurrent, hprovider])

theorem Settled.writeConnector {provider source : Str} {attribution : Attribution}
    {fetched : List Bucket} (h : Settled db ahead) :
    Settled (db.writeConnector parse provider source attribution fetched) ahead := by
  intro r hr hsource key hkey
  rcases List.mem_append.1 hr with hr | hr
  · exact h r (List.mem_of_mem_filter hr) hsource key hkey
  · obtain ⟨s, _, rfl⟩ := List.mem_map.1 hr
    cases hkey

end

/-! ## Runs -/

/-- The credential that a link operation has read, if it is still there. -/
def Phase.Holds (db : Db) : Phase → Prop
  | .linkUpsert _ _ id cred | .linkAttribute _ _ id cred =>
      ∀ c, db.credentials id = some c → c = cred
  | _ => True

/-- An operation is about to update the rows of the key. -/
def World.Updating (w : World) (provider key : Str) : Prop :=
  ∃ p ∈ w.procs, p.Updates provider key

structure Inv (w : World) : Prop where
  exist : LinksExist w.db
  holds : ∀ p ∈ w.procs, p.Holds w.db
  settled : Settled w.db w.Updating

section

variable {parse : Str → Option Int} {w : World} {i : Nat} {p p' : Phase} {db : Db}

theorem updateAhead_or {provider key : Str} (hp : w.procs[i]? = some p)
    (h : w.Updating provider key) : w.UpdateAhead i provider key ∨ p.Updates provider key := by
  obtain ⟨q, hq, hupdates⟩ := h
  obtain ⟨j, hj⟩ := List.mem_iff_getElem?.1 hq
  by_cases hij : j = i
  · subst hij
    obtain rfl := Option.some.inj (hp.symm.trans hj)
    exact .inr hupdates
  · exact .inl ⟨j, q, hij, hj, hupdates⟩

theorem updating_set {provider key : Str} (hp : w.procs[i]? = some p)
    (h : w.UpdateAhead i provider key ∨ p'.Updates provider key) :
    (⟨db, w.procs.set i p'⟩ : World).Updating provider key := by
  rcases h with ⟨j, q, hij, hj, hupdates⟩ | hupdates
  · refine ⟨q, List.mem_iff_getElem?.2 ⟨j, ?_⟩, hupdates⟩
    rwa [List.getElem?_set_ne (Ne.symm hij)]
  · obtain ⟨hlt, _⟩ := List.getElem?_eq_some_iff.1 hp
    exact ⟨p', List.mem_set hlt _, hupdates⟩

/-- A statement: the credentials that are left are the ones that were there, the others go on, and the rows
    are settled but for what is about to be updated. -/
theorem Inv.set (h : Inv w) (hp : w.procs[i]? = some p)
    (hcredentials : ∀ id c, db.credentials id = some c → w.db.credentials id = some c)
    (hexist : LinksExist db) (hholds : p'.Holds db)
    (hsettled : Settled db fun provider key =>
      w.UpdateAhead i provider key ∨ p'.Updates provider key) :
    Inv ⟨db, w.procs.set i p'⟩ where
  exist := hexist
  holds := by
    intro q hq
    rcases List.mem_or_eq_of_mem_set hq with hq | rfl
    · have := h.holds q hq
      cases q with
      | linkUpsert | linkAttribute => exact fun c hc => this c (hcredentials _ _ hc)
      | _ => exact trivial
    · exact hholds
  settled := hsettled.mono fun _ _ => updating_set hp

/-- The rows are settled but for the updates of the others and of the operation itself. -/
theorem Inv.settled_at (h : Inv w) (hp : w.procs[i]? = some p) :
    Settled w.db fun provider key => w.UpdateAhead i provider key ∨ p.Updates provider key :=
  h.settled.mono fun _ _ => updateAhead_or hp

/-- The rows are settled but for the updates of the others, if the operation has none. -/
theorem Inv.settled_others (h : Inv w) (hp : w.procs[i]? = some p)
    (hnone : ∀ provider key, ¬p.Updates provider key) : Settled w.db (w.UpdateAhead i) :=
  (h.settled_at hp).mono fun _ _ h => h.resolve_right (hnone _ _)

theorem linksExist_setLink {provider key : Str} {link : Option Str} (h : LinksExist w.db)
    (hlink : ∀ id, link = some id → w.db.credentials id ≠ none) :
    LinksExist (w.db.setLink provider key link) := by
  intro provider' key' id hid
  rw [links_setLink] at hid
  split at hid
  · exact hlink id hid
  · exact h provider' key' id hid

theorem linksExist_deleteCredential (h : LinksExist w.db) (id : Str) :
    LinksExist (w.db.deleteCredential id) := by
  intro provider key id' hid
  obtain ⟨hlink, hne⟩ := Option.filter_eq_some_iff.1 hid
  have hne : id' ≠ id := of_decide_eq_true hne
  simpa [Db.deleteCredential, hne] using h provider key id' hlink

/-- A step that nothing disturbs keeps the invariant. -/
theorem Inv.perform (h : Inv w) (hp : w.procs[i]? = some p) (hperform : Performs parse w.db p db p')
    (hcond : Undisturbed parse w i true) : Inv ⟨db, w.procs.set i p'⟩ := by
  unfold Undisturbed at hcond
  rw [hp] at hcond
  have hsame : ∀ id c, w.db.credentials id = some c → w.db.credentials id = some c :=
    fun _ _ hc => hc
  cases hperform with
  | fetch | lookup | noLink | resolve =>
      exact h.set hp hsame h.exist trivial
        ((h.settled_others hp fun _ _ h => h).mono fun _ _ => .inl)
  | write e usage costs links =>
      exact h.set hp hsame h.exist trivial
        (((h.settled_others hp fun _ _ h => h).write h.exist hcond).mono fun _ _ => .inl)
  | connector =>
      exact h.set hp hsame h.exist trivial
        ((h.settled_others hp fun _ _ h => h).writeConnector.mono fun _ _ => .inl)
  | getCredential provider key id cred hcred =>
      refine h.set hp hsame h.exist ?_ ((h.settled_others hp fun _ _ h => h).mono fun _ _ => .inl)
      split
      · exact fun c hc => Option.some.inj (hc.symm.trans hcred)
      · exact trivial
  | upsert provider key id cred hforeign =>
      refine h.set hp hsame (linksExist_setLink h.exist ?_) (h.holds _ (List.mem_of_getElem? hp))
        (((h.settled_others hp fun _ _ h => h).mono fun _ _ => .inl).setLink (.inr ⟨rfl, rfl⟩))
      rintro id' ⟨⟩
      exact hforeign
  | unlink provider key hlink =>
      refine h.set hp hsame (linksExist_setLink h.exist fun _ h => by cases h) trivial
        (((h.settled_others hp fun _ _ h => h).mono fun _ _ => .inl).setLink (.inr ⟨rfl, rfl⟩))
  | attributeRows provider key id cred =>
      have hheld := h.holds _ (List.mem_of_getElem? hp)
      refine h.set hp hsame h.exist trivial
        (((h.settled_at hp).attributeRows fun r hprovider hid hproject hexact => ?_).mono fun _ _ => .inl)
      refine hcond.imp_left fun hlink => ?_
      obtain ⟨c, hc⟩ := Option.ne_none_iff_exists'.1 (h.exist _ _ _ hlink)
      obtain rfl := hheld c hc
      unfold FollowsLink
      rw [hprovider, hlink]
      exact ⟨hid, hexact, c, hc, hproject⟩
  | downgrade provider key =>
      refine h.set hp hsame h.exist trivial
        (((h.settled_at hp).attributeRows fun r hprovider hid _ hattribution => ?_).mono fun _ _ => .inl)
      refine hcond.imp_left fun hlink => ?_
      unfold FollowsLink
      rw [hprovider, hlink]
      exact ⟨hid, by rw [hattribution]; decide⟩
  | delete id =>
      refine h.set hp ?_ (linksExist_deleteCredential h.exist id) trivial
        (((h.settled_others hp fun _ _ h => h).deleteCredential id).mono fun _ _ => .inl)
      intro id' c hc
      by_cases hid : id' = id
      · subst hid
        simp [Db.deleteCredential] at hc
      · simpa [Db.deleteCredential, hid] using hc

theorem Inv.step {w' : World} (h : Inv w) (hstep : Step parse (Undisturbed parse) w w') : Inv w' := by
  cases hstep with
  | start p hinitial =>
      refine ⟨h.exist, fun q hq => ?_, h.settled.mono ?_⟩
      · rcases List.mem_append.1 hq with hq | hq
        · exact h.holds q hq
        · obtain rfl := List.mem_singleton.1 hq
          cases q with
          | linkUpsert | linkAttribute => cases hinitial
          | _ => exact trivial
      · rintro provider key ⟨q, hq, hupdates⟩
        exact ⟨q, List.mem_append_left _ hq, hupdates⟩
  | perform hp hperform hcond => exact h.perform hp hperform hcond
  | @stop i p hp hcond =>
      refine h.set hp (fun _ _ hc => hc) h.exist trivial
        ((h.settled_others hp fun provider key hupdates => ?_).mono fun _ _ => .inl)
      unfold Undisturbed at hcond
      rw [hp] at hcond
      cases p with
      | linkAttribute | unlinkDowngrade => exact hcond
      | _ => exact hupdates

end

/-- For every interleaving of syncs, links, unlinks and deletions whose statements are not disturbed: when
    all operations have ended, every row of a key follows the link of the key. -/
theorem rows_follow_links (parse : Str → Option Int) {db : Db} (hrows : RowsFollowLinks db)
    (hexist : LinksExist db) {w : World}
    (h : Steps (Step parse (Undisturbed parse)) (World.initial db) w)
    (hended : ∀ p ∈ w.procs, p = .ended) : RowsFollowLinks w.db := by
  have hinit : Inv (World.initial db) :=
    ⟨hexist, (fun _ hp => by cases hp), fun r hr hsource key hkey =>
      .inl (hrows r hr hsource key hkey)⟩
  have hinv : Inv w := Steps.invariant (fun _ _ hu hstep => hu.step hstep) hinit h
  intro r hr hsource key hkey
  refine (hinv.settled r hr hsource key hkey).resolve_right ?_
  rintro ⟨p, hp, hupdates⟩
  rw [hended p hp] at hupdates
  exact hupdates

/-! ## A key that is linked during a sync -/

/-- A sync whose lookup named credentials that exist can record its rows. -/
theorem foreign_write {parse : Str → Option Int} {db : Db} {e : Engine} {usage costs : List FetchedRow}
    {links : Str → Option (Str × Str)}
    (hrows : ∀ r ∈ db.rows, ∀ id, r.credentialId = some id → db.credentials id ≠ none)
    (hlinks : ∀ key id project, links key = some (id, project) → db.credentials id ≠ none) :
    ∀ r ∈ (db.write parse e usage costs links).rows, ∀ id, r.credentialId = some id →
      db.credentials id ≠ none := by
  intro r hr id hid
  rcases List.mem_append.1 hr with hr | hr
  · exact hrows r (List.mem_of_mem_filter hr) id hid
  · obtain ⟨f, hf, rfl⟩ := List.mem_map.1 hr
    obtain ⟨_, hnone, _⟩ := of_mem_fetched (List.mem_of_mem_filter hf)
    unfold Row.upgrade at hid
    split at hid
    case h_1 id' project hanswer =>
        obtain ⟨key, _, hanswer⟩ := Option.bind_eq_some_iff.1 hanswer
        obtain rfl := Option.some.inj hid
        exact hlinks key _ project hanswer
    case h_2 =>
        rw [hnone] at hid
        cases hid

def key : Str := "key_1".toList

def credentialId : Str := "credential_1".toList

def credential : Credential := ⟨"openai".toList, "project_1".toList⟩

/-- A vault with one credential, and no link. -/
def oneCredential : Db where
  credentials id := if id = credentialId then some credential else none
  links _ _ := none
  rows := []

/-- The vault with the key linked. -/
def linked : Db := oneCredential.setLink openai.provider key (some credentialId)

def fetchedRow : FetchedRow :=
  ⟨julyBucket "a" "2026-07-01T00:00:00Z" "2026-07-02T00:00:00Z", some key, none⟩

/-- The vault behind a sync of one row of the key, which has looked the links up in `db`. -/
def synced (db : Db) : Db :=
  linked.write parseJuly .openai [fetchedRow] [] (db.keyLinkMap openai.provider)

theorem credentials_oneCredential : oneCredential.credentials credentialId = some credential := by
  simp [oneCredential]

theorem links_linked : linked.links openai.provider key = some credentialId := by
  rw [linked, links_setLink, if_pos ⟨rfl, rfl⟩]

theorem performs_getCredential :
    Performs parseJuly oneCredential (.link openai.provider key) oneCredential
      (.linkUpsert openai.provider key credentialId credential) := by
  have hcase : eqIgnoreAsciiCase credential.provider openai.provider = true := by decide
  have h := @Performs.getCredential parseJuly oneCredential openai.provider key credentialId credential
    credentials_oneCredential
  rwa [if_pos hcase] at h

theorem performs_upsert :
    Performs parseJuly oneCredential (.linkUpsert openai.provider key credentialId credential) linked
      (.linkAttribute openai.provider key credentialId credential) :=
  .upsert _ _ _ _ _ (by rw [credentials_oneCredential]; exact Option.some_ne_none _)

theorem performs_attributeRows :
    Performs parseJuly linked (.linkAttribute openai.provider key credentialId credential) linked
      .ended :=
  .attributeRows linked openai.provider key credentialId credential

theorem performs_write {db : Db} (hcredentials : db.credentials = oneCredential.credentials) :
    Performs parseJuly linked
      (.syncWrite .openai [fetchedRow] [] (db.keyLinkMap openai.provider)) (synced db) .ended := by
  refine .write _ _ _ _ _ (foreign_write (fun _ h => by cases h) fun key' id project h => ?_)
  obtain ⟨id', _, h⟩ := Option.bind_eq_some_iff.1 h
  obtain ⟨c, hc, h⟩ := Option.map_eq_some_iff.1 h
  obtain ⟨rfl, _⟩ := Prod.mk.inj h
  rw [hcredentials] at hc
  exact fun hnone => by cases hnone.symm.trans hc

/-- The key is linked, and then a sync records a row of it. -/
theorem rows_follow_links_linked :
    ∃ w, Steps (Step parseJuly (Undisturbed parseJuly)) (World.initial oneCredential) w ∧
      RowsFollowLinks w.db ∧ w.db.rows.map (·.credentialId) = [some credentialId] := by
  have hsteps : Steps (Step parseJuly (Undisturbed parseJuly)) (World.initial oneCredential)
      ⟨synced linked, [.ended, .ended]⟩ := by
    refine .head (.start _ (.link openai.provider key) trivial) ?_
    refine .head (.perform (i := 0) rfl performs_getCredential trivial) ?_
    refine .head (.perform (i := 0) rfl performs_upsert trivial) ?_
    refine .head (.perform (i := 0) rfl performs_attributeRows (.inl links_linked)) ?_
    refine .head (.start _ (.sync .openai) trivial) ?_
    refine .head (.perform (i := 1) rfl (.fetch _ _ [fetchedRow] []) trivial) ?_
    refine .head (.perform (i := 1) rfl (.lookup _ _ _ _) trivial) ?_
    exact .single (.perform (i := 1) rfl (performs_write rfl) fun _ _ _ _ _ => .inl rfl)
  refine ⟨_, hsteps, rows_follow_links parseJuly (fun _ h => by cases h) (fun _ _ _ h => by cases h)
    hsteps ?_, by decide⟩
  simp

/-- A sync looks the links up, the key is linked, and the sync writes its row without a credential. -/
theorem stale_lookup :
    ∃ w, Steps (Step parseJuly fun _ _ _ => True) (World.initial oneCredential) w ∧
      (∀ p ∈ w.procs, p = .ended) ∧ ¬RowsFollowLinks w.db := by
  have hsteps : Steps (Step parseJuly fun _ _ _ => True) (World.initial oneCredential)
      ⟨synced oneCredential, [.ended, .ended]⟩ := by
    refine .head (.start _ (.sync .openai) trivial) ?_
    refine .head (.perform (i := 0) rfl (.fetch _ _ [fetchedRow] []) trivial) ?_
    refine .head (.perform (i := 0) rfl (.lookup _ _ _ _) trivial) ?_
    refine .head (.start _ (.link openai.provider key) trivial) ?_
    refine .head (.perform (i := 1) rfl performs_getCredential trivial) ?_
    refine .head (.perform (i := 1) rfl performs_upsert trivial) ?_
    refine .head (.perform (i := 1) rfl performs_attributeRows trivial) ?_
    exact .single (.perform (i := 0) rfl (performs_write rfl) trivial)
  refine ⟨_, hsteps, by simp, fun hfollow => ?_⟩
  have hrow : fetchedRow.row openai.provider openai.usageSource ∈ (synced oneCredential).rows := by
    decide
  have h := hfollow _ hrow (by decide) key rfl
  have hlink : (synced oneCredential).links openai.provider key = some credentialId := links_linked
  unfold FollowsLink at h
  rw [show (fetchedRow.row openai.provider openai.usageSource).provider = openai.provider from rfl,
    hlink] at h
  exact absurd h.1 (by decide)

end Tethra.KeyLinks
