import Tethra.Gateway.Resolve
import Tethra.Gateway.Writer

set_option autoImplicit false

/-! # The scope of the matcher table (`gateway/src/attribution.rs`)

The table has the fingerprints of credentials in linked projects, and leaves out a project with a password
of its own both where a row lives and where the root of a reference lives. One table serves the requests of
all links, so what it names is in scope of some linked project, and perhaps not of the one that the request
came through (`matcher_scoped`). -/

namespace Tethra.Gateway

/-! ## The rows -/

inductive KeyWrapMode where
  | vault
  | vaultPassword
  deriving DecidableEq, Repr

structure Project where
  id : Str
  keyWrapMode : KeyWrapMode
  deriving DecidableEq, Repr

structure Credential where
  id : Str
  projectId : Str
  linkedCredentialId : Option Str
  fingerprint : List UInt8
  revoked : Bool
  manuallyDisabled : Bool
  deriving DecidableEq, Repr

structure CredentialVersion where
  credentialId : Str
  version : Int
  fingerprint : List UInt8
  deriving DecidableEq, Repr

structure ProjectLink where
  linkSlug : Str
  projectId : Str
  routePrefix : Str
  deriving DecidableEq, Repr

/-- What the queries read, with what the vault keeps of it: the schema has the two keys, a reference is
    stored with the root of its source (`add_credential_reference`), and only a credential with a value has
    versions (`retain_credential_version`). -/
structure VaultContent where
  projects : List Project
  credentials : List Credential
  versions : List CredentialVersion
  links : List ProjectLink
  project_key : (projects.map Project.id).Nodup
  credential_key : (credentials.map Credential.id).Nodup
  reference_root : ∀ c ∈ credentials, ∀ root ∈ credentials,
    c.linkedCredentialId = some root.id → root.linkedCredentialId = none
  version_root : ∀ v ∈ versions, ∀ c ∈ credentials, c.id = v.credentialId → c.linkedCredentialId = none

namespace VaultContent

variable (v : VaultContent)

/-! ## The queries -/

/-- The project of a row, unless it has a password of its own. -/
def openProjects (projectId : Str) : List Project :=
  v.projects.filter fun p => p.id = projectId && p.keyWrapMode ≠ .vaultPassword

def isLinked (projectId : Str) : Bool := v.links.any fun g => g.projectId = projectId

/-- The root of a reference is in a project with a password. -/
def rootLocked (c : Credential) : Bool :=
  v.credentials.any fun root =>
    c.linkedCredentialId = some root.id &&
      v.projects.any fun rp => rp.id = root.projectId && rp.keyWrapMode = .vaultPassword

end VaultContent

def Credential.entry (c : Credential) : FingerprintEntry where
  credentialId := c.linkedCredentialId.getD c.id
  fingerprint := c.fingerprint
  retainedVersion := none
  revoked := c.revoked || c.manuallyDisabled

def CredentialVersion.entry (x : CredentialVersion) : FingerprintEntry where
  credentialId := x.credentialId
  fingerprint := x.fingerprint
  retainedVersion := some x.version
  revoked := false

namespace VaultContent

variable (v : VaultContent)

/-- The rows of the first query that a credential gives. -/
def currentOf (c : Credential) : List FingerprintEntry :=
  (v.openProjects c.projectId).flatMap fun _ =>
    if v.isLinked c.projectId && !v.rootLocked c then [c.entry] else []

/-- The root or a reference to it is in a linked project without a password. -/
def hasReference (rootId : Str) : Bool :=
  v.credentials.any fun ref =>
    (ref.id = rootId || ref.linkedCredentialId = some rootId) && v.isLinked ref.projectId
      && !(v.openProjects ref.projectId).isEmpty

/-- The rows of the second query that a retained version gives. -/
def retainedOf (x : CredentialVersion) : List FingerprintEntry :=
  (v.credentials.filter fun c => c.id = x.credentialId).flatMap fun c =>
    (v.openProjects c.projectId).flatMap fun _ => if v.hasReference x.credentialId then [x.entry] else []

/-- A retained version is added unless the table has its fingerprint for the credential. -/
def addRetained (entries : List FingerprintEntry) (entry : FingerprintEntry) : List FingerprintEntry :=
  if entries.any fun e => e.credentialId = entry.credentialId && e.fingerprint = entry.fingerprint then
    entries
  else entries ++ [entry]

def loadMatcherTable : List FingerprintEntry :=
  (v.versions.flatMap v.retainedOf).foldl addRetained (v.credentials.flatMap v.currentOf)

/-! ## Scope -/

def ProjectLocked (projectId : Str) : Prop :=
  ∃ p ∈ v.projects, p.id = projectId ∧ p.keyWrapMode = .vaultPassword

/-- A credential belongs to itself, and to what it refers to. -/
inductive BelongsTo : Credential → Credential → Prop where
  | self (c : Credential) : BelongsTo c c
  | root {c root top : Credential} : root ∈ v.credentials → c.linkedCredentialId = some root.id →
      BelongsTo root top → BelongsTo c top

/-- The own project of a credential, or one that it belongs to by reference, has a password. -/
def Locked (c : Credential) : Prop := ∃ top, v.BelongsTo c top ∧ v.ProjectLocked top.projectId

open Classical in
/-- The content without the credentials that are locked. -/
noncomputable def withoutLocked : VaultContent where
  projects := v.projects
  credentials := v.credentials.filter fun c => ¬v.Locked c
  versions := v.versions
  links := v.links
  project_key := v.project_key
  credential_key := v.credential_key.sublist (List.filter_sublist.map _)
  reference_root := fun c hc root hroot =>
    v.reference_root c (List.mem_of_mem_filter hc) root (List.mem_of_mem_filter hroot)
  version_root := fun x hx c hc => v.version_root x hx c (List.mem_of_mem_filter hc)

/-- An entry is of a credential: of its value, or of a retained version. -/
def Derives (c : Credential) (e : FingerprintEntry) : Prop :=
  e = c.entry ∨ ∃ x ∈ v.versions, x.credentialId = c.id ∧ e = x.entry

/-- A project has the credential, or a reference to it. -/
def InScope (id projectId : Str) : Prop :=
  ∃ c ∈ v.credentials, c.projectId = projectId ∧ (c.id = id ∨ c.linkedCredentialId = some id)

end VaultContent

/-- The credentials that an attribution names. -/
def Attribution.named : Attribution → List Str
  | .matched id _ => [id]
  | .matchedOldVersion id _ => [id]
  | .ambiguousDuplicate ids => ids
  | _ => []

namespace VaultContent

section

variable {v : VaultContent} {c root : Credential} {e : FingerprintEntry} {projectId rootId : Str}

theorem openProjects_eq_nil : v.openProjects projectId = [] ↔
    ∀ p ∈ v.projects, p.id = projectId → p.keyWrapMode = .vaultPassword := by
  rw [openProjects, List.filter_eq_nil_iff]
  simp

/-- A project has one mode. -/
theorem not_projectLocked (h : v.openProjects projectId ≠ []) : ¬v.ProjectLocked projectId := by
  rintro ⟨p, hp, rfl, hlocked⟩
  rw [Ne, openProjects_eq_nil] at h
  push_neg at h
  obtain ⟨q, hq, hid, hopen⟩ := h
  obtain rfl := List.inj_on_of_nodup_map v.project_key hq hp hid
  exact hopen hlocked

theorem rootLocked_iff : v.rootLocked c = true ↔
    ∃ root ∈ v.credentials, c.linkedCredentialId = some root.id ∧ v.ProjectLocked root.projectId := by
  simp [rootLocked, ProjectLocked]

/-- References do not go on, so what a credential belongs to is itself and its root. -/
theorem locked_iff (hc : c ∈ v.credentials) :
    v.Locked c ↔ v.ProjectLocked c.projectId ∨ v.rootLocked c = true := by
  rw [rootLocked_iff]
  constructor
  · rintro ⟨top, hbelongs, hlocked⟩
    cases hbelongs with
    | self => exact .inl hlocked
    | root hroot hlink hmore =>
        cases hmore with
        | self => exact .inr ⟨top, hroot, hlink, hlocked⟩
        | root _ hlink' _ =>
            rw [v.reference_root c hc _ hroot hlink] at hlink'
            cases hlink'
  · rintro (hlocked | ⟨root, hroot, hlink, hlocked⟩)
    · exact ⟨c, .self c, hlocked⟩
    · exact ⟨root, .root hroot hlink (.self root), hlocked⟩

theorem mem_currentOf : e ∈ v.currentOf c ↔
    e = c.entry ∧ v.openProjects c.projectId ≠ [] ∧ v.isLinked c.projectId = true ∧
      v.rootLocked c = false := by
  rw [currentOf, List.mem_flatMap]
  constructor
  · rintro ⟨p, hp, he⟩
    split_ifs at he with h
    · simp only [Bool.and_eq_true, Bool.not_eq_true'] at h
      exact ⟨List.mem_singleton.1 he, List.ne_nil_of_mem hp, h⟩
    · cases he
  · rintro ⟨rfl, hopen, hlinked, hroot⟩
    obtain ⟨p, hp⟩ := List.exists_mem_of_ne_nil _ hopen
    exact ⟨p, hp, by simp [hlinked, hroot]⟩

theorem hasReference_iff : v.hasReference rootId = true ↔
    ∃ ref ∈ v.credentials, (ref.id = rootId ∨ ref.linkedCredentialId = some rootId) ∧
      v.isLinked ref.projectId = true ∧ v.openProjects ref.projectId ≠ [] := by
  simp [hasReference, and_assoc]

theorem mem_retainedOf {x : CredentialVersion} : e ∈ v.retainedOf x ↔
    e = x.entry ∧ v.hasReference x.credentialId = true ∧
      ∃ c ∈ v.credentials, c.id = x.credentialId ∧ v.openProjects c.projectId ≠ [] := by
  simp only [retainedOf, List.mem_flatMap, List.mem_filter, decide_eq_true_eq]
  constructor
  · rintro ⟨c, ⟨hc, hid⟩, p, hp, he⟩
    split_ifs at he with h
    · exact ⟨List.mem_singleton.1 he, h, c, hc, hid, List.ne_nil_of_mem hp⟩
    · cases he
  · rintro ⟨rfl, h, c, hc, hid, hopen⟩
    obtain ⟨p, hp⟩ := List.exists_mem_of_ne_nil _ hopen
    exact ⟨c, ⟨hc, hid⟩, p, hp, by simp [h]⟩

theorem mem_of_mem_foldl_addRetained {added entries : List FingerprintEntry}
    (h : e ∈ added.foldl addRetained entries) : e ∈ entries ∨ e ∈ added := by
  induction added generalizing entries with
  | nil => exact .inl h
  | cons a added ih =>
      rw [List.foldl_cons] at h
      rcases ih h with hmem | hmem
      · unfold addRetained at hmem
        split_ifs at hmem
        · exact .inl hmem
        · rcases List.mem_append.1 hmem with hmem | hmem
          · exact .inl hmem
          · exact .inr (List.mem_cons.2 (.inl (List.mem_singleton.1 hmem)))
      · exact .inr (List.mem_cons_of_mem a hmem)

/-- Where an entry of the table is from. -/
theorem mem_loadMatcherTable (h : e ∈ v.loadMatcherTable) :
    (∃ c ∈ v.credentials, e ∈ v.currentOf c) ∨ ∃ x ∈ v.versions, e ∈ v.retainedOf x := by
  rcases mem_of_mem_foldl_addRetained h with h | h
  · exact .inl (List.mem_flatMap.1 h)
  · exact .inr (List.mem_flatMap.1 h)

theorem mem_withoutLocked : c ∈ v.withoutLocked.credentials ↔ c ∈ v.credentials ∧ ¬v.Locked c := by
  simp [withoutLocked]

theorem not_locked (hc : c ∈ v.credentials) (hopen : v.openProjects c.projectId ≠ [])
    (hroot : v.rootLocked c = false) : ¬v.Locked c := by
  rw [locked_iff hc, hroot]
  simpa using not_projectLocked hopen

/-- A credential that has a retained version in the table is not locked. -/
theorem not_locked_of_version {x : CredentialVersion} (hx : x ∈ v.versions) (hc : c ∈ v.credentials)
    (hid : c.id = x.credentialId) (hopen : v.openProjects c.projectId ≠ []) : ¬v.Locked c := by
  refine not_locked hc hopen ?_
  rw [Bool.eq_false_iff, Ne, rootLocked_iff]
  rintro ⟨root, -, hlink, -⟩
  rw [v.version_root x hx c hc hid] at hlink
  cases hlink

/-- Neither is a reference to it in a project without a password. -/
theorem not_locked_of_reference {x : CredentialVersion} {ref : Credential} (hx : x ∈ v.versions)
    (hc : c ∈ v.credentials) (hid : c.id = x.credentialId) (hopen : v.openProjects c.projectId ≠ [])
    (href : ref ∈ v.credentials)
    (hrefers : ref.id = x.credentialId ∨ ref.linkedCredentialId = some x.credentialId)
    (hrefopen : v.openProjects ref.projectId ≠ []) : ¬v.Locked ref := by
  rcases hrefers with href' | hlink
  · exact not_locked_of_version hx href href' hrefopen
  · refine not_locked href hrefopen ?_
    rw [Bool.eq_false_iff, Ne, rootLocked_iff]
    rintro ⟨root, hroot, hlink', hlocked⟩
    have hsame : root.id = c.id := by
      rw [hlink] at hlink'
      rw [hid]
      exact (Option.some.inj hlink').symm
    obtain rfl := List.inj_on_of_nodup_map v.credential_key hroot hc hsame
    exact not_projectLocked hopen hlocked

theorem hasReference_withoutLocked {x : CredentialVersion} (hx : x ∈ v.versions) (hc : c ∈ v.credentials)
    (hid : c.id = x.credentialId) (hopen : v.openProjects c.projectId ≠ []) :
    v.withoutLocked.hasReference x.credentialId = v.hasReference x.credentialId := by
  rw [Bool.eq_iff_iff, hasReference_iff, hasReference_iff]
  constructor
  · rintro ⟨ref, href, hrest⟩
    exact ⟨ref, (mem_withoutLocked.1 href).1, hrest⟩
  · rintro ⟨ref, href, hrefers, hlinked, hrefopen⟩
    exact ⟨ref, mem_withoutLocked.2 ⟨href, not_locked_of_reference hx hc hid hopen href hrefers hrefopen⟩,
      hrefers, hlinked, hrefopen⟩

theorem retainedOf_withoutLocked {x : CredentialVersion} (hx : x ∈ v.versions) :
    v.withoutLocked.retainedOf x = v.retainedOf x := by
  classical
  by_cases h : ∃ c ∈ v.credentials, c.id = x.credentialId ∧ v.openProjects c.projectId ≠ []
  · obtain ⟨c, hc, hid, hopen⟩ := h
    have hjoin : (v.withoutLocked.credentials.filter fun c => c.id = x.credentialId) =
        v.credentials.filter fun c => c.id = x.credentialId := by
      rw [withoutLocked, List.filter_comm, List.filter_eq_self]
      intro d hd
      obtain ⟨hd, hdid⟩ := List.mem_filter.1 hd
      have hsame := (of_decide_eq_true hdid).trans hid.symm
      obtain rfl := List.inj_on_of_nodup_map v.credential_key hd hc hsame
      exact decide_eq_true (not_locked_of_version hx hc hid hopen)
    rw [retainedOf, retainedOf, hjoin, hasReference_withoutLocked hx hc hid hopen]
    rfl
  · -- the join finds no row on either side
    have hnone : ∀ e, e ∉ v.retainedOf x := fun e he => h (mem_retainedOf.1 he).2.2
    have hnone' : ∀ e, e ∉ v.withoutLocked.retainedOf x := by
      intro e he
      obtain ⟨-, -, c, hc, hrest⟩ := mem_retainedOf.1 he
      exact h ⟨c, (mem_withoutLocked.1 hc).1, hrest⟩
    rw [List.eq_nil_iff_forall_not_mem.2 hnone, List.eq_nil_iff_forall_not_mem.2 hnone']

theorem currentOf_of_locked (hc : c ∈ v.credentials) (hlocked : v.Locked c) : v.currentOf c = [] := by
  rw [List.eq_nil_iff_forall_not_mem]
  intro e he
  obtain ⟨-, hopen, -, hroot⟩ := mem_currentOf.1 he
  exact not_locked hc hopen hroot hlocked

theorem currentOf_withoutLocked (hc : c ∈ v.credentials) (hlocked : ¬v.Locked c) :
    v.withoutLocked.currentOf c = v.currentOf c := by
  have hroot : v.rootLocked c = false := by
    rw [Bool.eq_false_iff]
    exact fun h => hlocked ((locked_iff hc).2 (.inr h))
  have hroot' : v.withoutLocked.rootLocked c = false := by
    rw [Bool.eq_false_iff, Ne, rootLocked_iff]
    rintro ⟨root, hmem, hrest⟩
    exact Bool.eq_false_iff.1 hroot (rootLocked_iff.2 ⟨root, (mem_withoutLocked.1 hmem).1, hrest⟩)
  rw [currentOf, currentOf, hroot, hroot']
  rfl

end

/-- The locked credentials add nothing to the table. -/
theorem loadMatcherTable_withoutLocked (v : VaultContent) :
    v.withoutLocked.loadMatcherTable = v.loadMatcherTable := by
  classical
  have hcurrent : v.withoutLocked.credentials.flatMap v.withoutLocked.currentOf =
      v.credentials.flatMap v.currentOf := by
    have hfilter : ∀ l : List Credential, (∀ c ∈ l, c ∈ v.credentials) →
        (l.filter fun c => ¬v.Locked c).flatMap v.withoutLocked.currentOf = l.flatMap v.currentOf := by
      intro l hl
      induction l with
      | nil => rfl
      | cons c l ih =>
          have ih := ih fun d hd => hl d (List.mem_cons_of_mem c hd)
          have hc := hl c List.mem_cons_self
          by_cases hlocked : v.Locked c
          · rw [List.filter_cons_of_neg (by simpa using hlocked), ih, List.flatMap_cons,
              currentOf_of_locked hc hlocked, List.nil_append]
          · rw [List.filter_cons_of_pos (by simpa using hlocked), List.flatMap_cons, List.flatMap_cons, ih,
              currentOf_withoutLocked hc hlocked]
    rw [← hfilter v.credentials fun c hc => hc]
    simp [withoutLocked]
  have hretained : v.withoutLocked.versions.flatMap v.withoutLocked.retainedOf =
      v.versions.flatMap v.retainedOf :=
    List.flatMap_congr fun x hx => retainedOf_withoutLocked hx
  rw [loadMatcherTable, loadMatcherTable, hcurrent, hretained]

/-- What is resolved is named by an entry of the table. -/
theorem exists_entry_of_named {entries : List FingerprintEntry} {record : ExchangeRecord} {id : Str}
    (h : id ∈ (attributeRecord (some ⟨entries⟩) record).named) : ∃ e ∈ entries, e.credentialId = id := by
  unfold attributeRecord at h
  cases hdigest : record.digest with
  | none =>
      rw [hdigest] at h
      cases hinput : record.attributionInput <;> simp [hinput, Attribution.named] at h
  | some digest =>
      rw [hdigest] at h
      dsimp only at h
      rw [resolve_eq] at h
      cases hdecides : decidingCandidate entries digest with
      | none => simp [hdecides, Attribution.named] at h
      | some candidate =>
          simp only [hdecides] at h
          cases hhits : entries.filter (·.hits candidate) with
          | nil => simp [hhits, resolveHits, Attribution.named] at h
          | cons e hits =>
              have hsub : ∀ f ∈ e :: hits, f ∈ entries := fun f hf =>
                List.mem_of_mem_filter (hhits ▸ hf)
              rw [hhits, resolveHits_cons] at h
              split_ifs at h
              · obtain ⟨f, hf, hid⟩ := mem_namedIds.1 h
                exact ⟨f, hsub f hf, hid⟩
              · refine ⟨e, hsub e List.mem_cons_self, ?_⟩
                unfold FingerprintEntry.attribution at h
                split at h
                · exact (List.mem_singleton.1 h).symm
                · exact (List.mem_singleton.1 h).symm

/-- An entry of the table is of a credential that is not locked, and the credential that it names is in
    scope of a linked project without a password. -/
theorem entry_scoped (v : VaultContent) {e : FingerprintEntry} (h : e ∈ v.loadMatcherTable) :
    (∃ c ∈ v.credentials, ¬v.Locked c ∧ v.Derives c e) ∧
      ∃ projectId, v.isLinked projectId = true ∧ ¬v.ProjectLocked projectId ∧
        v.InScope e.credentialId projectId := by
  rcases mem_loadMatcherTable h with ⟨c, hc, he⟩ | ⟨x, hx, he⟩
  · obtain ⟨rfl, hopen, hlinked, hroot⟩ := mem_currentOf.1 he
    refine ⟨⟨c, hc, not_locked hc hopen hroot, .inl rfl⟩, c.projectId, hlinked, not_projectLocked hopen,
      c, hc, rfl, ?_⟩
    cases hlink : c.linkedCredentialId with
    | none => exact .inl (by simp [Credential.entry, hlink])
    | some root => exact .inr (by simp [Credential.entry, hlink])
  · obtain ⟨rfl, hreference, c, hc, hid, hopen⟩ := mem_retainedOf.1 he
    obtain ⟨ref, href, hrefers, hlinked, hrefopen⟩ := hasReference_iff.1 hreference
    exact ⟨⟨c, hc, not_locked_of_version hx hc hid hopen, .inr ⟨x, hx, hid.symm, rfl⟩⟩, ref.projectId,
      hlinked, not_projectLocked hrefopen, ref, href, rfl, hrefers⟩

/-- The table has nothing of a locked credential, and what a request is attributed to is in scope of some
    linked project without a password. -/
theorem matcher_scoped (v : VaultContent) :
    (∀ e ∈ v.loadMatcherTable, ∃ c ∈ v.credentials, ¬v.Locked c ∧ v.Derives c e) ∧
      v.withoutLocked.loadMatcherTable = v.loadMatcherTable ∧
      ∀ record, ∀ id ∈ (attributeRecord (some ⟨v.loadMatcherTable⟩) record).named,
        ∃ projectId, v.isLinked projectId = true ∧ ¬v.ProjectLocked projectId ∧ v.InScope id projectId := by
  refine ⟨fun e he => (v.entry_scoped he).1, v.loadMatcherTable_withoutLocked, fun record id hid => ?_⟩
  obtain ⟨e, he, rfl⟩ := exists_entry_of_named hid
  exact (v.entry_scoped he).2

/-- Two linked projects, one credential in the second. -/
def twoProjects : VaultContent where
  projects := [⟨"p1".toList, .vault⟩, ⟨"p2".toList, .vault⟩]
  credentials := [⟨"c2".toList, "p2".toList, none, List.replicate 32 7, false, false⟩]
  versions := []
  links := [⟨"s1".toList, "p1".toList, "openai".toList⟩, ⟨"s2".toList, "p2".toList, "openai".toList⟩]
  project_key := by decide
  credential_key := by decide
  reference_root := by decide
  version_root := by decide

/-- A request through the link of the first project, with the key of the second. -/
def otherKey : ExchangeRecord where
  at_ := "2026-07-26T00:00:00Z".toList
  routePrefix := "openai".toList
  projectId := some "p1".toList
  digest := some ⟨[List.replicate 32 7]⟩
  attributionInput := .digested

/-- It is attributed to a credential that the project of its link does not have. -/
theorem named_out_of_link : "p1".toList ∈ otherKey.projectId ∧
    "c2".toList ∈ (attributeRecord (some ⟨twoProjects.loadMatcherTable⟩) otherKey).named ∧
      ¬twoProjects.InScope "c2".toList "p1".toList := by
  refine ⟨rfl, by decide, ?_⟩
  unfold InScope
  decide

end VaultContent

end Tethra.Gateway
