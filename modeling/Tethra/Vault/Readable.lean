import Tethra.Vault.Store

set_option autoImplicit false

/-! # No ciphertext under a lost key

Every value and every retained version of a project decrypts under the key that the project's row wraps
(`VaultDb.Readable`). Each transaction that commits keeps this, given that the keys it was handed are
those of the wraps they are said to come from. -/

namespace Tethra.Vault

open Text

/-! ## Ideal encryption -/

theorem decrypt_eq_ok {k : SecretKey} {aad : Aad} {context : String} {c s : Secret} :
    decrypt k aad context c = .ok s ↔ c = .sealed k aad s := by
  cases c with
  | key k' => simp [decrypt]
  | text value => simp [decrypt]
  | «sealed» k' aad' content =>
      unfold decrypt
      dsimp only
      split_ifs with h
      · obtain ⟨rfl, rfl⟩ := h
        simp
      · constructor
        · intro hok
          cases hok
        · intro heq
          obtain ⟨hk, haad, -⟩ := Secret.sealed.inj heq
          exact absurd ⟨hk, haad⟩ h

theorem asKey_eq_ok {s : Secret} {k : SecretKey} : s.asKey = .ok k ↔ s = .key k := by
  cases s <;> simp [Secret.asKey]

/-- The ciphertext gives its plaintext to who has the key. -/
def Decrypts (k : SecretKey) (aad : Aad) (ciphertext : Secret) : Prop :=
  ∃ plain, decrypt k aad "credential value" ciphertext = .ok plain

theorem decrypts_encrypt (k : SecretKey) (aad : Aad) (plain : Secret) :
    Decrypts k aad (encrypt k aad plain) := ⟨plain, decrypt_eq_ok.2 rfl⟩

/-! ## What a row wraps -/

/-- A wrap under the vault key and a password's. -/
def PasswordWrap (projectId : Str) (wrap : Secret) (kek k : SecretKey) : Prop :=
  wrap = .sealed .vault (.projectKey projectId)
    (.sealed kek (.projectKeyPassword projectId) (.key k))

/-- The key that is wrapped in a row. -/
def ProjectRow.Wraps (p : ProjectRow) (k : SecretKey) : Prop :=
  match p.keyWrapMode with
  | .vault => p.wrappedProjectKey = .sealed .vault (.projectKey p.id) (.key k)
  | .vaultPassword => ∃ password salt kdfParams, p.projectSalt = some salt ∧
      p.projectKdfParams = some kdfParams ∧
      PasswordWrap p.id p.wrappedProjectKey (.password password salt kdfParams) k

theorem unwrap_passwordWrap {row : ProjectRow} {password : Str} {k : SecretKey}
    (h : unwrapProjectKeyWithPassword row password = .ok k) :
    ∃ kek, PasswordWrap row.id row.wrappedProjectKey kek k := by
  unfold unwrapProjectKeyWithPassword at h
  split at h
  · rename_i kdfParams salt _ _
    obtain ⟨inner, hinner, hkey⟩ := bind_eq_ok.1 h
    split at hkey
    · rename_i key hok
      rw [decrypt_eq_ok] at hinner hok
      rw [asKey_eq_ok] at hkey
      exact ⟨.password password salt kdfParams, by rw [PasswordWrap, hinner, hok, hkey]⟩
    · cases hkey
  · cases h

section Hash

variable {δ : Type} [DecidableEq δ] {hash : Secret → δ}

/-- A cached key is the one inside the wrap that its hash is of. -/
def Cached (hash : Secret → δ) (projectId : Str) (k : SecretKey) (wrapHash : δ) : Prop :=
  ∃ wrap kek, wrapHash = hash wrap ∧ PasswordWrap projectId wrap kek k

/-- The key for a row is the key that the row wraps. -/
theorem wraps_projectKeyForRow (hhash : Function.Injective hash) {keys : ProjectKeys δ}
    (hkeys : ∀ projectId k wrapHash, keys projectId = some (k, wrapHash) →
      Cached hash projectId k wrapHash)
    {row : ProjectRow} {k₀ k : SecretKey} (hwraps : row.Wraps k₀)
    (h : projectKeyForRow hash keys row = .ok k) : k = k₀ := by
  unfold ProjectRow.Wraps at hwraps
  unfold projectKeyForRow at h
  cases hmode : row.keyWrapMode with
  | vault =>
      rw [hmode] at h hwraps
      obtain ⟨key, hkey, hask⟩ := bind_eq_ok.1 h
      rw [decrypt_eq_ok] at hkey
      rw [asKey_eq_ok] at hask
      obtain ⟨-, -, hcontent⟩ := Secret.sealed.inj (hkey.symm.trans hwraps)
      exact Secret.key.inj (hask.symm.trans hcontent)
  | vaultPassword =>
      rw [hmode] at h hwraps
      obtain ⟨password, salt, kdfParams, -, -, hwrap⟩ := hwraps
      dsimp only at h
      split at h
      · cases h
      · rename_i key wrapHash hcached
        split_ifs at h with hfresh
        obtain rfl := Except.ok.inj h
        obtain ⟨wrap, kek, hhashed, hunder⟩ := hkeys row.id key wrapHash hcached
        have hsame : row.wrappedProjectKey = wrap := hhash ((not_not.1 hfresh).trans hhashed)
        unfold PasswordWrap at hwrap hunder
        obtain ⟨-, -, hinner⟩ := Secret.sealed.inj (hunder.symm.trans (hsame.symm.trans hwrap))
        obtain ⟨-, -, hcontent⟩ := Secret.sealed.inj hinner
        exact Secret.key.inj hcontent

end Hash

/-! ## Readable databases -/

/-- The values and the versions of a project decrypt under `k`. -/
structure VaultDb.Under (db : VaultDb) (projectId : Str) (k : SecretKey) : Prop where
  credentials : ∀ c ∈ db.credentials, c.projectId = projectId → ∀ ciphertext,
    c.ciphertext = some ciphertext → Decrypts k (.credentialValue projectId c.id) ciphertext
  versions : ∀ v ∈ db.versions, ∀ c ∈ db.credentials, c.id = v.credentialId →
    c.projectId = projectId → Decrypts k (.credentialVersion projectId c.id v.version) v.ciphertext

/-- Each project's values and versions decrypt under the key that its row wraps. -/
def VaultDb.Readable (db : VaultDb) : Prop :=
  ∀ p ∈ db.projects, ∃ k, p.Wraps k ∧ db.Under p.id k

/-- The keys of the tables. -/
structure VaultDb.Keyed (db : VaultDb) : Prop where
  projects : (db.projects.map ProjectRow.id).Nodup
  credentials : (db.credentials.map CredentialRow.id).Nodup
  versions : ∀ v ∈ db.versions, ∃ c ∈ db.credentials, c.id = v.credentialId
  owners : ∀ c ∈ db.credentials, ∃ p ∈ db.projects, p.id = c.projectId

structure VaultDb.Sound (db : VaultDb) : Prop extends db.Keyed where
  readable : db.Readable

theorem projectRowByIdent_mem {db : VaultDb} {ident : Str} {row : ProjectRow}
    (h : projectRowByIdent db ident = .ok row) : row ∈ db.projects := by
  unfold projectRowByIdent at h
  split at h
  · rename_i found hfound
    obtain rfl := Except.ok.inj h
    exact List.mem_of_find?_eq_some hfound
  · split at h
    · rename_i found hfound
      obtain rfl := Except.ok.inj h
      exact List.mem_of_find?_eq_some hfound
    · cases h

theorem VaultDb.Keyed.project_eq {db : VaultDb} (h : db.Keyed) {p q : ProjectRow} (hp : p ∈ db.projects)
    (hq : q ∈ db.projects) (hid : p.id = q.id) : p = q :=
  List.inj_on_of_nodup_map h.projects hp hq hid

theorem VaultDb.Keyed.credential_eq {db : VaultDb} (h : db.Keyed) {c d : CredentialRow}
    (hc : c ∈ db.credentials) (hd : d ∈ db.credentials) (hid : c.id = d.id) : c = d :=
  List.inj_on_of_nodup_map h.credentials hc hd hid

/-- The row of an id is found by it. -/
theorem VaultDb.Keyed.ident_eq {db : VaultDb} (h : db.Keyed) {p row : ProjectRow} (hp : p ∈ db.projects)
    (hrow : projectRowByIdent db p.id = .ok row) : row = p := by
  unfold projectRowByIdent at hrow
  split at hrow
  · rename_i found hfound
    obtain rfl := Except.ok.inj hrow
    have hid : found.id = p.id := by simpa using List.find?_some hfound
    exact h.project_eq (List.mem_of_find?_eq_some hfound) hp hid
  · rename_i hnone
    rw [List.find?_eq_none] at hnone
    exact absurd (decide_eq_true rfl) (hnone p hp)

/-! ## Rotation -/

section Rotation

variable {db : VaultDb} {projectId : Str} {oldKey newKey : SecretKey}

/-- What rotation does to a credential. -/
structure RotatedCredential (projectId : Str) (newKey : SecretKey) (c c' : CredentialRow) : Prop where
  id : c'.id = c.id
  project : c'.projectId = c.projectId
  other : c.projectId ≠ projectId → c' = c
  decrypts : c.projectId = projectId → ∀ ciphertext, c'.ciphertext = some ciphertext →
    Decrypts newKey (.credentialValue projectId c.id) ciphertext

theorem rotatedCredential {c c' : CredentialRow}
    (h : rotateCredential projectId oldKey newKey c = .ok c') :
    RotatedCredential projectId newKey c c' := by
  unfold rotateCredential at h
  split at h
  · rename_i hnone
    obtain rfl := Except.ok.inj h
    refine ⟨rfl, rfl, fun _ => rfl, fun _ ciphertext hsome => ?_⟩
    cases hnone.symm.trans hsome
  · split_ifs at h with hproject
    · obtain ⟨plain, -, hrow⟩ := bind_eq_ok.1 h
      obtain rfl := Except.ok.inj hrow
      refine ⟨rfl, rfl, fun hne => absurd hproject hne, fun _ ciphertext hsome => ?_⟩
      obtain rfl := Option.some.inj hsome
      exact decrypts_encrypt _ _ _
    · obtain rfl := Except.ok.inj h
      exact ⟨rfl, rfl, fun _ => rfl, fun heq => absurd heq hproject⟩

/-- What rotation does to a version. -/
structure RotatedVersion (db : VaultDb) (projectId : Str) (newKey : SecretKey) (v v' : VersionRow) :
    Prop where
  credentialId : v'.credentialId = v.credentialId
  version : v'.version = v.version
  other : (∀ c ∈ db.credentials, c.id = v.credentialId → c.projectId ≠ projectId) → v' = v
  decrypts : (∃ c ∈ db.credentials, c.id = v.credentialId ∧ c.projectId = projectId) →
    Decrypts newKey (.credentialVersion projectId v.credentialId v.version) v'.ciphertext

theorem rotatedVersion {v v' : VersionRow} (h : rotateVersion db projectId oldKey newKey v = .ok v') :
    RotatedVersion db projectId newKey v v' := by
  unfold rotateVersion at h
  split_ifs at h with hany
  · obtain ⟨plain, -, hrow⟩ := bind_eq_ok.1 h
    obtain rfl := Except.ok.inj hrow
    refine ⟨rfl, rfl, fun hnone => ?_, fun _ => decrypts_encrypt _ _ _⟩
    obtain ⟨c, hc, hmatch⟩ := List.any_eq_true.1 hany
    rw [Bool.and_eq_true, decide_eq_true_eq, decide_eq_true_eq] at hmatch
    exact absurd hmatch.2 (hnone c hc hmatch.1)
  · obtain rfl := Except.ok.inj h
    refine ⟨rfl, rfl, fun _ => rfl, ?_⟩
    rintro ⟨c, hc, hid, hproject⟩
    refine absurd (List.any_eq_true.2 ⟨c, hc, ?_⟩) hany
    rw [hid, hproject, Bool.and_eq_true, decide_eq_true_eq, decide_eq_true_eq]
    exact ⟨rfl, rfl⟩

/-- A rotation that is let through leaves the keys of the tables and what is not the project's, and puts
    what is under the new key. -/
theorem rotateProjectKey_spec {db' : VaultDb} (hkeyed : db.Keyed)
    (h : rotateProjectKey db projectId oldKey newKey = .ok db') :
    db'.projects = db.projects ∧ db'.Keyed ∧ db'.Under projectId newKey ∧
      ∀ q k, q ≠ projectId → db.Under q k → db'.Under q k := by
  obtain ⟨credentials, hcredentials, h⟩ := bind_eq_ok.1 h
  obtain ⟨versions, hversions, h⟩ := bind_eq_ok.1 h
  obtain rfl := Except.ok.inj h
  have hrows := forall₂_of_mapM hcredentials
  have hkept := forall₂_of_mapM hversions
  -- each new row comes from the old one of its id
  have hcredential : ∀ c' ∈ credentials, ∃ c ∈ db.credentials,
      RotatedCredential projectId newKey c c' := by
    intro c' hc'
    obtain ⟨c, hc, hrotate⟩ := exists_left_of_forall₂ hrows hc'
    exact ⟨c, hc, rotatedCredential hrotate⟩
  have hversion : ∀ v' ∈ versions, ∃ v ∈ db.versions, RotatedVersion db projectId newKey v v' := by
    intro v' hv'
    obtain ⟨v, hv, hrotate⟩ := exists_left_of_forall₂ hkept hv'
    exact ⟨v, hv, rotatedVersion hrotate⟩
  refine ⟨rfl, ⟨hkeyed.projects, ?_, ?_, ?_⟩, ⟨?_, ?_⟩, ?_⟩
  · change (credentials.map CredentialRow.id).Nodup
    rw [← map_eq_of_forall₂ hrows fun c c' hrotate => (rotatedCredential hrotate).id.symm]
    exact hkeyed.credentials
  · intro v' hv'
    obtain ⟨v, hv, hrotated⟩ := hversion v' hv'
    obtain ⟨c, hc, hid⟩ := hkeyed.versions v hv
    obtain ⟨c', hc', hrotate⟩ := exists_right_of_forall₂ hrows hc
    exact ⟨c', hc', (rotatedCredential hrotate).id.trans (hid.trans hrotated.credentialId.symm)⟩
  · intro c' hc'
    obtain ⟨c, hc, hrotated⟩ := hcredential c' hc'
    obtain ⟨p, hp, hid⟩ := hkeyed.owners c hc
    exact ⟨p, hp, hid.trans hrotated.project.symm⟩
  · intro c' hc' hproject ciphertext hsome
    obtain ⟨c, hc, hrotated⟩ := hcredential c' hc'
    rw [hrotated.id]
    exact hrotated.decrypts (hrotated.project.symm.trans hproject) ciphertext hsome
  · intro v' hv' c' hc' hid hproject
    obtain ⟨v, hv, hrotated⟩ := hversion v' hv'
    obtain ⟨c, hc, hrow⟩ := hcredential c' hc'
    rw [hid, hrotated.credentialId, hrotated.version]
    refine hrotated.decrypts ⟨c, hc, ?_, hrow.project.symm.trans hproject⟩
    exact hrow.id.symm.trans (hid.trans hrotated.credentialId)
  · intro q k hne hunder
    refine ⟨?_, ?_⟩
    · intro c' hc' hproject ciphertext hsome
      obtain ⟨c, hc, hrow⟩ := hcredential c' hc'
      have hq : c.projectId = q := hrow.project.symm.trans hproject
      rw [hrow.other (by rw [hq]; exact hne)] at hsome ⊢
      exact hunder.credentials c hc hq ciphertext hsome
    · intro v' hv' c' hc' hid hproject
      obtain ⟨v, hv, hrotated⟩ := hversion v' hv'
      obtain ⟨c, hc, hrow⟩ := hcredential c' hc'
      have hq : c.projectId = q := hrow.project.symm.trans hproject
      have hcid : c.id = v.credentialId := hrow.id.symm.trans (hid.trans hrotated.credentialId)
      -- the version's credential is of another project, so it was not touched
      have hother : v' = v := by
        refine hrotated.other fun d hd hdid => ?_
        rw [hkeyed.credential_eq hd hc (hdid.trans hcid.symm), hq]
        exact hne
      rw [hrow.id, hother]
      exact hunder.versions v hv c hc hcid hq

/-- The rotation of a project with the new wrap in its row. -/
theorem sound_rotate {rotated : VaultDb} (h : db.Sound)
    (hrotate : rotateProjectKey db projectId oldKey newKey = .ok rotated)
    {write : ProjectRow → ProjectRow} (hid : ∀ p, (write p).id = p.id)
    (hwraps : ∀ p, p.id = projectId → (write p).Wraps newKey) :
    (rotated.setProject projectId write).Sound := by
  obtain ⟨hprojects, hkeyed, hunder, hothers⟩ := rotateProjectKey_spec h.toKeyed hrotate
  refine ⟨⟨?_, hkeyed.credentials, hkeyed.versions, ?_⟩, ?_⟩
  · have hids : (rotated.setProject projectId write).projects.map ProjectRow.id
        = rotated.projects.map ProjectRow.id := by
      rw [VaultDb.setProject, List.map_map]
      refine List.map_congr_left ?_
      intro p _
      simp only [Function.comp_apply]
      split_ifs
      · exact hid p
      · rfl
    rw [hids]
    exact hkeyed.projects
  · intro c hc
    obtain ⟨p, hp, hof⟩ := hkeyed.owners c hc
    refine ⟨_, List.mem_map.2 ⟨p, hp, rfl⟩, ?_⟩
    split_ifs
    · exact (hid p).trans hof
    · exact hof
  · intro p' hp'
    obtain ⟨p, hp, rfl⟩ := List.mem_map.1 hp'
    rw [hprojects] at hp
    split_ifs with hproject
    · refine ⟨newKey, hwraps p hproject, ?_⟩
      rw [hid, hproject]
      exact ⟨hunder.credentials, hunder.versions⟩
    · obtain ⟨k, hwrapped, hold⟩ := h.readable p hp
      have hkept := hothers p.id k hproject hold
      exact ⟨k, hwrapped, hkept.credentials, hkept.versions⟩

end Rotation

/-! ## Transactions -/

section Transactions

variable {δ : Type} {hash : Secret → δ} {db db' : VaultDb}

/-- The keys of a session are those of the wraps that they are said to come from. -/
def KeysCached (hash : Secret → δ) (keys : ProjectKeys δ) : Prop :=
  ∀ projectId k wrapHash, keys projectId = some (k, wrapHash) → Cached hash projectId k wrapHash

theorem cached_unlockProject {ident password projectId : Str} {k : SecretKey} {wrapHash : δ}
    (hok : unlockProject hash db ident password = .ok (projectId, k, wrapHash)) :
    Cached hash projectId k wrapHash := by
  obtain ⟨row, -, hok⟩ := bind_eq_ok.1 hok
  split_ifs at hok
  obtain ⟨key, hkey, hok⟩ := bind_eq_ok.1 hok
  obtain ⟨rfl, hrest⟩ := Prod.mk.inj (Except.ok.inj hok)
  obtain ⟨rfl, rfl⟩ := Prod.mk.inj hrest
  obtain ⟨kek, hwrap⟩ := unwrap_passwordWrap hkey
  exact ⟨row.wrappedProjectKey, kek, rfl, hwrap⟩

theorem sound_createProject {id name : Str} {newKey : SecretKey} (h : db.Sound)
    (hok : createProject db id name newKey = .ok db') : db'.Sound := by
  unfold createProject at hok
  split_ifs at hok with hfree
  obtain rfl := Except.ok.inj hok
  have hnew : ∀ p ∈ db.projects, p.id ≠ id := by
    intro p hp heq
    refine hfree (List.any_eq_true.2 ⟨p, hp, ?_⟩)
    rw [Bool.or_eq_true, decide_eq_true_eq]
    exact Or.inl heq
  have hunused : ∀ c ∈ db.credentials, c.projectId ≠ id := by
    rintro c hc rfl
    obtain ⟨p, hp, hid⟩ := h.owners c hc
    exact hnew p hp hid
  refine ⟨⟨?_, h.credentials, h.versions, ?_⟩, ?_⟩
  · rw [List.map_append]
    refine List.nodup_append.2 ⟨h.projects, List.nodup_singleton _, ?_⟩
    rintro _ ha _ hb rfl
    obtain ⟨p, hp, hid⟩ := List.mem_map.1 ha
    rw [List.map_singleton, List.mem_singleton] at hb
    exact hnew p hp (hid.trans hb)
  · intro c hc
    obtain ⟨p, hp, hid⟩ := h.owners c hc
    exact ⟨p, List.mem_append_left _ hp, hid⟩
  · intro p hp
    rcases List.mem_append.1 hp with hold | hadded
    · obtain ⟨k, hwraps, hunder⟩ := h.readable p hold
      exact ⟨k, hwraps, hunder.credentials, hunder.versions⟩
    · obtain rfl := List.mem_singleton.1 hadded
      refine ⟨newKey, rfl, ?_, ?_⟩
      · intro c hc hproject
        exact absurd hproject (hunused c hc)
      · intro v _ c hc _ hproject
        exact absurd hproject (hunused c hc)

variable [DecidableEq δ]

theorem sound_setProjectPassword {keys : ProjectKeys δ} {ident password salt kdfParams projectId : Str}
    {newKey k : SecretKey} {wrapHash : δ} (h : db.Sound)
    (hok : setProjectPassword hash db keys ident password salt kdfParams newKey
      = .ok (db', projectId, k, wrapHash)) : db'.Sound ∧ Cached hash projectId k wrapHash := by
  obtain ⟨row, -, hok⟩ := bind_eq_ok.1 hok
  obtain ⟨oldKey, -, hok⟩ := bind_eq_ok.1 hok
  obtain ⟨rotated, hrotate, hok⟩ := bind_eq_ok.1 hok
  obtain ⟨rfl, hkept⟩ := Prod.mk.inj (Except.ok.inj hok)
  obtain ⟨rfl, hcache⟩ := Prod.mk.inj hkept
  obtain ⟨rfl, rfl⟩ := Prod.mk.inj hcache
  refine ⟨sound_rotate h hrotate (fun _ => rfl) ?_, _, _, rfl, rfl⟩
  rintro p hp
  refine ⟨password, salt, kdfParams, rfl, rfl, ?_⟩
  rw [PasswordWrap, ← hp]
  rfl

theorem sound_removeProjectPassword {pre : ProjectRow} {oldKey newKey : SecretKey} {projectId : Str}
    (h : db.Sound) (hok : removeProjectPassword db pre oldKey newKey = .ok (db', projectId)) :
    db'.Sound := by
  obtain ⟨row, -, hok⟩ := bind_eq_ok.1 hok
  split_ifs at hok
  obtain ⟨rotated, hrotate, hok⟩ := bind_eq_ok.1 hok
  obtain ⟨rfl, -⟩ := Prod.mk.inj (Except.ok.inj hok)
  refine sound_rotate h hrotate (fun _ => rfl) ?_
  rintro p hp
  change encrypt .vault (.projectKey row.id) (.key newKey) = _
  rw [← hp]
  rfl

theorem sound_addCredential (hhash : Function.Injective hash) {keys : ProjectKeys δ}
    (hkeys : KeysCached hash keys) {ident id name value : Str} (h : db.Sound)
    (hok : addCredential hash db keys ident id name value = .ok db') : db'.Sound := by
  unfold addCredential at hok
  split at hok
  · cases hok
  split at hok
  · cases hok
  obtain ⟨project, hproject, hok⟩ := bind_eq_ok.1 hok
  split at hok
  · cases hok
  split at hok
  · cases hok
  obtain ⟨key, hkey, hok⟩ := bind_eq_ok.1 hok
  dsimp only at hok
  split_ifs at hok with hfree
  obtain rfl := Except.ok.inj hok
  have hnew : ∀ c ∈ db.credentials, c.id ≠ id := by
    intro c hc heq
    exact hfree (List.any_eq_true.2 ⟨c, hc, decide_eq_true heq⟩)
  refine ⟨⟨h.projects, ?_, ?_, ?_⟩, ?_⟩
  · rw [List.map_append]
    refine List.nodup_append.2 ⟨h.credentials, List.nodup_singleton _, ?_⟩
    rintro _ ha _ hb rfl
    obtain ⟨c, hc, hid⟩ := List.mem_map.1 ha
    rw [List.map_singleton, List.mem_singleton] at hb
    exact hnew c hc (hid.trans hb)
  · intro v hv
    obtain ⟨c, hc, hid⟩ := h.versions v hv
    exact ⟨c, List.mem_append_left _ hc, hid⟩
  · intro c hc
    rcases List.mem_append.1 hc with hold | hadded
    · exact h.owners c hold
    · obtain rfl := List.mem_singleton.1 hadded
      exact ⟨project, projectRowByIdent_mem hproject, rfl⟩
  · intro p hp
    obtain ⟨k, hwraps, hunder⟩ := h.readable p hp
    refine ⟨k, hwraps, ?_, ?_⟩
    · intro c hc hof ciphertext hsome
      rcases List.mem_append.1 hc with hold | hadded
      · exact hunder.credentials c hold hof ciphertext hsome
      · -- the key that the session encrypted under is the one that the row wraps
        obtain rfl := List.mem_singleton.1 hadded
        obtain rfl := h.project_eq (projectRowByIdent_mem hproject) hp hof
        obtain rfl := wraps_projectKeyForRow hhash hkeys hwraps hkey
        obtain rfl := Option.some.inj hsome
        exact decrypts_encrypt _ _ _
    · intro v hv c hc hid hof
      rcases List.mem_append.1 hc with hold | hadded
      · exact hunder.versions v hv c hold hid hof
      · obtain rfl := List.mem_singleton.1 hadded
        obtain ⟨d, hd, hdid⟩ := h.versions v hv
        exact absurd (hdid.trans hid.symm) (hnew d hd)

theorem resolveCredential_mem {selector : Str} {row : CredentialRow}
    (hok : resolveCredential db selector = .ok row) : row ∈ db.credentials := by
  unfold resolveCredential at hok
  split at hok
  · rename_i found hfound
    obtain rfl := Except.ok.inj hok
    exact List.mem_of_find?_eq_some hfound
  · split at hok
    · obtain ⟨project, -, hok⟩ := bind_eq_ok.1 hok
      split at hok
      · rename_i found hfound
        obtain rfl := Except.ok.inj hok
        exact List.mem_of_find?_eq_some hfound
      · cases hok
    · split at hok
      · cases hok
      · rename_i found hfound
        obtain rfl := Except.ok.inj hok
        exact (List.mem_filter.1 (hfound ▸ List.mem_singleton_self _)).1
      · cases hok

/-- The versions after one was retained: each is an old one, or the new one under the session's key. -/
theorem retainCredentialVersion_spec {row : CredentialRow} {key : SecretKey} {stays : VersionRow → Bool}
    (hok : retainCredentialVersion db row key stays = .ok db') :
    db'.projects = db.projects ∧ db'.credentials = db.credentials ∧
      ∀ v ∈ db'.versions, v ∈ db.versions ∨ (v.credentialId = row.id ∧
        Decrypts key (.credentialVersion row.projectId row.id v.version) v.ciphertext) := by
  unfold retainCredentialVersion at hok
  split at hok
  · cases hok
  · obtain ⟨plain, -, hok⟩ := bind_eq_ok.1 hok
    obtain rfl := Except.ok.inj hok
    refine ⟨rfl, rfl, ?_⟩
    intro v hv
    rcases List.mem_append.1 (List.mem_filter.1 hv).1 with hold | hadded
    · exact Or.inl (List.mem_filter.1 hold).1
    · obtain rfl := List.mem_singleton.1 hadded
      exact Or.inr ⟨rfl, decrypts_encrypt _ _ _⟩

theorem sound_replaceCredentialValue (hhash : Function.Injective hash) {keys : ProjectKeys δ}
    (hkeys : KeysCached hash keys) {selector value : Str} {stays : VersionRow → Bool} (h : db.Sound)
    (hok : replaceCredentialValue hash db keys selector value stays = .ok db') : db'.Sound := by
  unfold replaceCredentialValue at hok
  split_ifs at hok
  obtain ⟨row, hrow, hok⟩ := bind_eq_ok.1 hok
  split_ifs at hok
  obtain ⟨project, hproject, hok⟩ := bind_eq_ok.1 hok
  obtain ⟨key, hkey, hok⟩ := bind_eq_ok.1 hok
  obtain ⟨kept, hretain, hok⟩ := bind_eq_ok.1 hok
  obtain rfl := Except.ok.inj hok
  have hmem := resolveCredential_mem hrow
  obtain ⟨hprojects, hcredentials, hversions⟩ := retainCredentialVersion_spec hretain
  -- the session's key is the one wrapped in the row of the credential's project
  have hcurrent : ∀ p ∈ db.projects, p.id = row.projectId → ∀ k, p.Wraps k → key = k := by
    intro p hp hid k hwraps
    rw [← hid] at hproject
    obtain rfl := h.ident_eq hp hproject
    exact wraps_projectKeyForRow hhash hkeys hwraps hkey
  have hsource : ∀ c' ∈ kept.credentials.map (fun c =>
      if c.id = row.id then
        { c with
          ciphertext := some (encrypt key (.credentialValue row.projectId row.id) (.text (trim value)))
          valueVersion := row.valueVersion + 1 }
      else c), ∃ c ∈ db.credentials, c'.id = c.id ∧ c'.projectId = c.projectId ∧
        (c' = c ∨ (c = row ∧ c'.ciphertext
          = some (encrypt key (.credentialValue row.projectId row.id) (.text (trim value))))) := by
    intro c' hc'
    obtain ⟨c, hc, rfl⟩ := List.mem_map.1 hc'
    rw [hcredentials] at hc
    refine ⟨c, hc, ?_⟩
    split_ifs with hid
    · exact ⟨rfl, rfl, Or.inr ⟨h.credential_eq hc hmem hid, rfl⟩⟩
    · exact ⟨rfl, rfl, Or.inl rfl⟩
  refine ⟨⟨?_, ?_, ?_, ?_⟩, ?_⟩
  · rw [hprojects]
    exact h.projects
  · rw [List.map_map, hcredentials]
    refine List.Nodup.of_map id ?_
    rw [List.map_map]
    convert h.credentials using 2
    funext c
    simp only [Function.comp_apply]
    split_ifs <;> rfl
  · intro v hv
    have howned : ∃ c ∈ db.credentials, c.id = v.credentialId := by
      rcases hversions v hv with hold | ⟨hof, -⟩
      · exact h.versions v hold
      · exact ⟨row, hmem, hof.symm⟩
    obtain ⟨c, hc, hid⟩ := howned
    refine ⟨_, List.mem_map.2 ⟨c, hcredentials ▸ hc, rfl⟩, ?_⟩
    split_ifs
    · exact hid
    · exact hid
  · intro c' hc'
    obtain ⟨c, hc, -, hsame, -⟩ := hsource c' hc'
    obtain ⟨p, hp, hid⟩ := h.owners c hc
    exact ⟨p, hprojects ▸ hp, hid.trans hsame.symm⟩
  · intro p hp
    rw [hprojects] at hp
    obtain ⟨k, hwraps, hunder⟩ := h.readable p hp
    refine ⟨k, hwraps, ?_, ?_⟩
    · intro c' hc' hof ciphertext hsome
      obtain ⟨c, hc, hid, hsame, hcases⟩ := hsource c' hc'
      rcases hcases with rfl | ⟨rfl, hnew⟩
      · exact hunder.credentials _ hc hof ciphertext hsome
      · obtain rfl := hcurrent p hp (hof.symm.trans hsame) k hwraps
        obtain rfl := Option.some.inj (hnew.symm.trans hsome)
        rw [hid, ← hof, hsame]
        exact decrypts_encrypt _ _ _
    · intro v hv c' hc' hcid hof
      obtain ⟨c, hc, hid, hsame, -⟩ := hsource c' hc'
      rcases hversions v hv with hold | ⟨howner, hnew⟩
      · rw [hid]
        exact hunder.versions v hold c hc (hid.symm.trans hcid) (hsame.symm.trans hof)
      · have heq : c = row := h.credential_eq hc hmem (hid.symm.trans (hcid.trans howner))
        rw [heq] at hsame
        obtain rfl := hcurrent p hp (hof.symm.trans hsame) k hwraps
        rw [hcid, howner, ← hof, hsame]
        exact hnew

theorem sound_deleteCredential (h : db.Sound) (id : Str) : (deleteCredential db id).Sound := by
  refine ⟨⟨h.projects, ?_, ?_, fun c hc => h.owners c (List.mem_filter.1 hc).1⟩, ?_⟩
  · exact h.credentials.sublist (List.filter_sublist.map _)
  · intro v hv
    obtain ⟨hmem, hkept⟩ := List.mem_filter.1 hv
    obtain ⟨c, hc, hid⟩ := h.versions v hmem
    refine ⟨c, List.mem_filter.2 ⟨hc, ?_⟩, hid⟩
    rw [hid]
    exact hkept
  · intro p hp
    obtain ⟨k, hwraps, hunder⟩ := h.readable p hp
    refine ⟨k, hwraps, ?_, ?_⟩
    · intro c hc
      exact hunder.credentials c (List.mem_filter.1 hc).1
    · intro v hv c hc
      exact hunder.versions v (List.mem_filter.1 hv).1 c (List.mem_filter.1 hc).1

end Transactions

end Tethra.Vault
