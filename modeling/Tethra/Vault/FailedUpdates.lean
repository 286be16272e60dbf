import Tethra.Vault.Metadata

set_option autoImplicit false

/-! # What a failed update leaves (`core/src/vault.rs`)

A request that fails changes nothing when no statement ran before the error, or when those that ran set what was there
already. The dates of a credential are checked after its name, provider and environment are written, the credential of
a destination after its row is inserted, and what is shown of the outcome is read after everything. -/

namespace Tethra.Metadata

open Text Steps
open Discovery (Environment)

/-- A call that fails leaves the database as it was. -/
def Unchanged {α : Type} (op : Db → Db × Except CoreError α) (db : Db) : Prop :=
  ∀ e, (op db).2 = .error e → (op db).1 = db

/-! ## Edits -/

def Edit.none : Edit := ⟨id, fun _ => rfl⟩

def Edit.andThen (f g : Edit) : Edit := ⟨g.1 ∘ f.1, fun row => (g.2 (f.1 row)).trans (f.2 row)⟩

/-- The edit of a field, if the request has it. -/
def editOf {β : Type} (value : Option β) (f : β → Edit) : Edit := value.elim .none f

section

variable {db : Db} {id : Str} {edit edit' : Edit} {row : CredentialRow}

theorem Db.ext_credentials {xs ys : List CredentialRow} {hxs : (xs.map CredentialRow.id).Nodup}
    {hys : (ys.map CredentialRow.id).Nodup} (h : xs = ys) :
    ({ db with credentials := xs, credentialIds := hxs } : Db) = { db with credentials := ys, credentialIds := hys } := by
  subst h
  rfl

theorem setCredential_none : db.setCredential id .none = db := by
  have h : Keyed.modify CredentialRow.id id (fun row => row) db.credentials = db.credentials := by simp [Keyed.modify]
  exact Db.ext_credentials h

theorem setCredential_setCredential :
    (db.setCredential id edit).setCredential id edit' = db.setCredential id (edit.andThen edit') := by
  refine Db.ext_credentials ?_
  simp only [Db.setCredential, Keyed.modify, List.map_map]
  refine List.map_congr_left fun row _ => ?_
  by_cases hid : row.id = id
  · simp [hid, edit.2, Edit.andThen]
  · simp [hid]

theorem setCredential_eq_self_iff (hrow : row ∈ db.credentials) :
    db.setCredential row.id edit = db ↔ edit.1 row = row := by
  have hdb : db.setCredential row.id edit = db ↔
      Keyed.modify CredentialRow.id row.id edit.1 db.credentials = db.credentials :=
    ⟨fun h => congrArg Db.credentials h, fun h => Db.ext_credentials h⟩
  have hmap : Keyed.modify CredentialRow.id row.id edit.1 db.credentials = db.credentials.map id ↔
      ∀ other ∈ db.credentials, (if other.id = row.id then edit.1 other else other) = id other := List.map_inj_left
  rw [List.map_id] at hmap
  rw [hdb, hmap]
  constructor
  · intro h
    simpa using h row hrow
  · intro h other hother
    by_cases hid : other.id = row.id
    · rw [if_pos hid, List.inj_on_of_nodup_map db.credentialIds hother hrow hid, h, id]
    · rw [if_neg hid, id]

theorem exists_setCredential (hrow : row ∈ db.credentials) :
    (db.setCredential id edit).credentials.find? (·.id = row.id) ≠ none := by
  intro h
  have hmem : row.id ∈ (db.setCredential id edit).credentials.map CredentialRow.id := by
    rw [Db.setCredential, Keyed.keys_modify fun row h => (edit.2 row).trans h]
    exact List.mem_map_of_mem hrow
  obtain ⟨other, hother, hid⟩ := List.mem_map.1 hmem
  simpa [hid] using List.find?_eq_none.1 h other hother

theorem mem_of_resolveCredential {selector : Str} (h : resolveCredential db selector = .ok row) : row ∈ db.credentials := by
  unfold resolveCredential at h
  split at h
  · rename_i found hfind
    obtain rfl := Except.ok.inj h
    exact List.mem_of_find?_eq_some hfind
  · split at h
    · rename_i ident name _
      cases hproject : projectRowByIdent db ident with
      | error e =>
          rw [hproject] at h
          cases h
      | ok project =>
          rw [hproject] at h
          simp only [bind, Except.bind] at h
          split at h
          · rename_i found hfind
            obtain rfl := Except.ok.inj h
            exact List.mem_of_find?_eq_some hfind
          · cases h
    · split at h
      · cases h
      · rename_i found hfilter
        obtain rfl := Except.ok.inj h
        exact (List.mem_filter.1 (hfilter ▸ List.mem_singleton_self _)).1
      · cases h

end

/-! ## The fields of a credential -/

section

variable {β γ : Type} {db : Db} {id label : Str}

theorem field_setCredential {value : Option β} {f : β → Edit} {label : β → String} :
    field value (fun b db => db.setCredential id (f b)) label
      = (fun db => db.setCredential id (editOf value f), value.elim [] fun b => [label b]) := by
  cases value with
  | none => simp [field, editOf, setCredential_none, Function.id_def]
  | some b => rfl

/-- What the check of a field gives, where the request has the field. -/
def checked (value : Option β) (check : β → Except CoreError γ) : Except CoreError (Option γ) :=
  match value with
  | none => .ok none
  | some b => (check b).map some

theorem checkedField_setCredential (value : Option β) (check : Db → β → Except CoreError γ) (f : γ → Edit) (label : String) :
    checkedField value check (fun c db => db.setCredential id (f c)) label db
      = (checked value (check db)).map fun c => (db.setCredential id (editOf c f), c.elim [] fun _ => [label]) := by
  cases value with
  | none => simp [checkedField, checked, editOf, setCredential_none, Except.map]
  | some b =>
      unfold checkedField checked
      dsimp only
      cases check db b with
      | error e => rfl
      | ok c => rfl

end

section

variable (env : Surroundings) (u : UpdateCredential)

/-- What is written before the dates are checked. -/
def earlyEdit (name : Option Str) : Edit :=
  ((editOf name setName).andThen (editOf u.provider (setProvider env))).andThen (editOf u.environment setEnvironment)

def checkedName (db : Db) (row : CredentialRow) : Except CoreError (Option Str) := checked u.name (credentialName db row)

def checkedDate (value : Option (Option Str)) : Except CoreError (Option (Option Str)) :=
  checked value (parseOptionalDate env)

/-- What is written before the second date is checked. -/
def datedEdit (name : Option Str) (keyCreatedAt : Option (Option Str)) : Edit :=
  (earlyEdit env u name).andThen (editOf keyCreatedAt setKeyCreatedAt)

/-- What the statements of a request have said. -/
def labels (row : CredentialRow) (name : Option Str) (keyCreatedAt expiresAt : Option (Option Str)) : List String :=
  name.elim [] (fun _ => ["name"]) ++ ((earlyFields env row.id u).flatMap Prod.snd
    ++ (keyCreatedAt.elim [] (fun _ => ["key_created_at"])
      ++ (expiresAt.elim [] (fun _ => ["expires_at"]) ++ (lateFields env row u).flatMap Prod.snd)))

variable {env u} {db : Db} {row : CredentialRow}

theorem earlyFields_eq :
    (earlyFields env row.id u).foldl (fun db w => w.1 db) db
      = (db.setCredential row.id (editOf u.provider (setProvider env))).setCredential row.id
          (editOf u.environment setEnvironment) := by
  simp only [earlyFields, field_setCredential, List.foldl_cons, List.foldl_nil]

/-- The fields of a request are written one after the other until a check fails. -/
theorem run_credentialFields :
    run (credentialFields env row u) db =
      match checkedName u db row with
      | .error e => (db, .error e)
      | .ok name =>
          match checkedDate env u.keyCreatedAt with
          | .error e => (db.setCredential row.id (earlyEdit env u name), .error e)
          | .ok keyCreatedAt =>
              match checkedDate env u.expiresAt with
              | .error e => (db.setCredential row.id (datedEdit env u name keyCreatedAt), .error e)
              | .ok expiresAt =>
                  ((lateFields env row u).foldl (fun db w => w.1 db)
                    (db.setCredential row.id ((datedEdit env u name keyCreatedAt).andThen (editOf expiresAt setExpiresAt))),
                   .ok (labels env u row name keyCreatedAt expiresAt)) := by
  simp only [credentialFields, fieldWrites, List.append_assoc, List.cons_append, List.nil_append]
  have hname := @checkedField_setCredential _ _ db row.id u.name (fun db name => credentialName db row name) setName "name"
  have hkey := fun db => @checkedField_setCredential _ _ db row.id u.keyCreatedAt
    (fun _ value => parseOptionalDate env value) setKeyCreatedAt "key_created_at"
  have hexpires := fun db => @checkedField_setCredential _ _ db row.id u.expiresAt
    (fun _ value => parseOptionalDate env value) setExpiresAt "expires_at"
  cases hn : checkedName u db row with
  | error e =>
      rw [checkedName] at hn
      rw [hn] at hname
      rw [run_error hname]
  | ok name =>
      rw [checkedName] at hn
      rw [hn] at hname
      rw [run_ok hname, run_writes_append, earlyFields_eq]
      simp only [setCredential_setCredential]
      cases hk : checkedDate env u.keyCreatedAt with
      | error e =>
          rw [checkedDate] at hk
          simp only [hk] at hkey
          rw [run_error (hkey _)]
          rfl
      | ok keyCreatedAt =>
          rw [checkedDate] at hk
          simp only [hk] at hkey
          rw [run_ok (hkey _)]
          simp only [setCredential_setCredential]
          cases he : checkedDate env u.expiresAt with
          | error e =>
              rw [checkedDate] at he
              simp only [he] at hexpires
              rw [run_error (hexpires _)]
              rfl
          | ok expiresAt =>
              rw [checkedDate] at he
              simp only [he] at hexpires
              rw [run_ok (hexpires _)]
              simp only [setCredential_setCredential]
              rw [run_writes]
              rfl

theorem elim_labels_eq_nil {β : Type} {value : Option β} {label : β → String} :
    value.elim [] (fun b => [label b]) = [] ↔ value = none := by
  cases value <;> simp

theorem field_labels_eq_nil {β : Type} {value : Option β} {write : β → Db → Db} {label : β → String} :
    (field value write label).2 = [] ↔ value = none := by
  cases value <;> simp [field]

theorem checked_none_iff {β γ : Type} {value : Option β} {check : β → Except CoreError γ} {c : Option γ}
    (h : checked value check = .ok c) : c = none ↔ value = none := by
  cases value with
  | none =>
      obtain rfl := Except.ok.inj h
      simp
  | some b =>
      unfold checked at h
      dsimp only at h
      cases hb : check b with
      | error e =>
          rw [hb] at h
          cases h
      | ok c' =>
          rw [hb] at h
          obtain rfl := Except.ok.inj h
          simp

theorem lateFields_eq_nil : (lateFields env row u).flatMap Prod.snd = [] ↔
    u.docsUrl = none ∧ u.notes = none ∧ u.markUsedNow = false ∧ u.markValidated = none ∧ u.disabled = none ∧
      u.revoked = none ∧ u.possiblyExposed = none ∧ u.exposureNote = none := by
  simp only [lateFields, List.flatMap_cons, List.flatMap_nil, List.append_nil, List.append_eq_nil_iff,
    field_labels_eq_nil]
  cases u.markUsedNow <;> cases u.possiblyExposed <;> simp [field_labels_eq_nil]

/-- A request says nothing exactly when it asks for nothing. -/
theorem labels_eq_nil_iff {name : Option Str} {keyCreatedAt expiresAt : Option (Option Str)}
    (hname : checkedName u db row = .ok name) (hkey : checkedDate env u.keyCreatedAt = .ok keyCreatedAt)
    (hexpires : checkedDate env u.expiresAt = .ok expiresAt) :
    labels env u row name keyCreatedAt expiresAt = [] ↔ u = .none := by
  simp only [labels, List.append_eq_nil_iff, elim_labels_eq_nil, lateFields_eq_nil, earlyFields, List.flatMap_cons,
    List.flatMap_nil, field_labels_eq_nil, checked_none_iff hname, checked_none_iff hkey, checked_none_iff hexpires]
  obtain ⟨_, _, _, _, _, _, _, _, _, _, _, _, _⟩ := u
  simp only [UpdateCredential.none, UpdateCredential.mk.injEq]
  tauto

end

/-! ## What is shown of a credential -/

/-- What `credential_model` can fail on. -/
structure Shape where
  id : Str
  projectId : Str
  fingerprint : List UInt8
  environment : Str
  linkedCredentialId : Option Str
  createdAt : Str

def shape (row : CredentialRow) : Shape :=
  ⟨row.id, row.projectId, row.fingerprint, row.environment, row.linkedCredentialId, row.createdAt⟩

/-- What a database holds of it. -/
def Db.shapes (db : Db) : List ProjectRow × List Shape := (db.projects, db.credentials.map shape)

def Shape.Shown (env : Surroundings) (view : List ProjectRow × List Shape) (c : Shape) : Prop :=
  (view.1.find? (·.id = c.projectId)).isSome = true ∧
    (∀ other ∈ view.2, other.fingerprint = c.fingerprint → other.id ≠ c.id →
      (view.1.find? (·.id = other.projectId)).isSome = true → (parseEnvironment other.environment).isOk = true) ∧
    (parseEnvironment c.environment).isOk = true ∧
    (∀ targetId, c.linkedCredentialId = some targetId → ∃ target, view.2.find? (·.id = targetId) = some target ∧
      (view.1.find? (·.id = target.projectId)).isSome = true) ∧
    (env.parseRfc3339 c.createdAt).isSome = true

section

variable {env : Surroundings} {db db' : Db} {id : Str} {row : CredentialRow}

theorem isOk_projectNameOf {projectId : Str} :
    (projectNameOf db projectId).isOk = (db.projects.find? (·.id = projectId)).isSome := by
  unfold projectNameOf projectOf
  cases db.projects.find? (·.id = projectId) <;> rfl

theorem firstError_eq_none {α β : Type} {f : α → Except CoreError β} {xs : List α} :
    firstError f xs = none ↔ ∀ x ∈ xs, (f x).isOk = true := by
  unfold firstError
  rw [List.findSome?_eq_none_iff]
  refine forall_congr' fun x => imp_congr_right fun _ => ?_
  cases f x <;> simp [Except.isOk, Except.toBool]

theorem reuseMatches_parse : firstError (fun m => parseEnvironment m.2.2) (findReuseMatches db row) = none ↔
    ∀ other ∈ db.shapes.2, other.fingerprint = (shape row).fingerprint → other.id ≠ (shape row).id →
      (db.shapes.1.find? (·.id = other.projectId)).isSome = true → (parseEnvironment other.environment).isOk = true := by
  rw [firstError_eq_none]
  simp only [findReuseMatches, List.mem_insertionSort, List.mem_filterMap, Db.shapes, List.mem_map]
  constructor
  · rintro h _ ⟨c, hc, rfl⟩ hfingerprint hid hproject
    obtain ⟨p, hp⟩ := Option.isSome_iff_exists.1 hproject
    refine h (p.name, c.name, c.environment) ⟨c, hc, ?_⟩
    rw [if_pos ⟨hfingerprint, hid⟩, projectOf, show db.projects.find? (·.id = c.projectId) = some p from hp]
    rfl
  · rintro h m ⟨c, hc, hm⟩
    split_ifs at hm with hmatch
    obtain ⟨p, hp, rfl⟩ := Option.map_eq_some_iff.1 hm
    exact h (shape c) ⟨c, hc, rfl⟩ hmatch.1 hmatch.2 (Option.isSome_iff_exists.2 ⟨p, hp⟩)

theorem find?_shape {targetId : Str} :
    db.shapes.2.find? (·.id = targetId) = (db.credentials.find? (·.id = targetId)).map shape := by
  rw [Db.shapes, List.find?_map]
  rfl

theorem isOk_credentialModel :
    (credentialModel env db row).isOk = true ↔ (shape row).Shown env db.shapes := by
  have hproject : (db.shapes.1.find? (·.id = (shape row).projectId)).isSome = (projectNameOf db row.projectId).isOk :=
    isOk_projectNameOf.symm
  unfold Shape.Shown
  rw [hproject, ← reuseMatches_parse]
  unfold credentialModel
  cases projectNameOf db row.projectId with
  | error e => simp [bind, Except.bind, Except.isOk, Except.toBool]
  | ok name =>
      cases firstError (fun m => parseEnvironment m.2.2) (findReuseMatches db row) with
      | some e => simp [bind, Except.bind, Except.isOk, Except.toBool, throw, throwThe, MonadExceptOf.throw]
      | none =>
          have henvironment : (shape row).environment = row.environment := rfl
          rw [henvironment]
          cases parseEnvironment row.environment with
          | error e => simp [bind, Except.bind, Except.isOk, Except.toBool]
          | ok environment =>
              have hcreated : (shape row).createdAt = row.createdAt := rfl
              have hlinked : (shape row).linkedCredentialId = row.linkedCredentialId := rfl
              rw [hcreated, hlinked]
              cases row.linkedCredentialId with
              | none =>
                  cases env.parseRfc3339 row.createdAt <;>
                    simp [bind, Except.bind, Except.isOk, Except.toBool, pure, Except.pure, throw, throwThe, MonadExceptOf.throw]
              | some targetId =>
                  simp only [Option.some.injEq, forall_eq', find?_shape]
                  cases db.credentials.find? (·.id = targetId) with
                  | none => simp [bind, Except.bind, Except.isOk, Except.toBool, throw, throwThe, MonadExceptOf.throw]
                  | some target =>
                      have htarget : (db.shapes.1.find? (·.id = (shape target).projectId)).isSome
                          = (projectNameOf db target.projectId).isOk := isOk_projectNameOf.symm
                      simp only [Option.map_some, Option.some.injEq, exists_eq_left', htarget]
                      cases projectNameOf db target.projectId <;> cases env.parseRfc3339 row.createdAt <;>
                        simp [bind, Except.bind, Except.isOk, Except.toBool, pure, Except.pure, throw, throwThe, MonadExceptOf.throw]

theorem isOk_getCredential (h : db.credentials.find? (·.id = id) = some row) :
    (getCredential env db id).isOk = true ↔ (shape row).Shown env db.shapes := by
  rw [← isOk_credentialModel, getCredential, resolveCredential, h]
  rfl

variable (env) in
/-- Whether a credential can be shown depends on the shapes alone. -/
theorem isOk_getCredential_congr (h : db.credentials.find? (·.id = id) ≠ none) (hshapes : db.shapes = db'.shapes) :
    (getCredential env db id).isOk = (getCredential env db' id).isOk := by
  obtain ⟨row, hrow⟩ := Option.ne_none_iff_exists'.1 h
  have hfind : (db'.credentials.find? (·.id = id)).map shape = some (shape row) := by
    rw [← find?_shape, ← hshapes, find?_shape, hrow]
    rfl
  obtain ⟨row', hrow', hsame⟩ := Option.map_eq_some_iff.1 hfind
  rw [Bool.eq_iff_iff, isOk_getCredential hrow, isOk_getCredential hrow', hsame, hshapes]

end

/-! ## What the late fields keep -/

section

variable {env : Surroundings} {u : UpdateCredential} {db : Db} {id : Str} {edit : Edit} {row : CredentialRow}

/-- What is not touched by the fields that nothing checks. -/
def Db.view (db : Db) : (List ProjectRow × List Shape) × List AuditEvent := (db.shapes, db.auditEvents)

theorem view_setCredential_congr (edit' : Edit) (h : ∀ row, shape (edit.1 row) = shape (edit'.1 row)) :
    (db.setCredential id edit).view = (db.setCredential id edit').view := by
  have hshapes : (Keyed.modify CredentialRow.id id edit.1 db.credentials).map shape
      = (Keyed.modify CredentialRow.id id edit'.1 db.credentials).map shape := by
    rw [Keyed.modify, Keyed.modify, List.map_map, List.map_map]
    refine List.map_congr_left fun row _ => ?_
    by_cases hid : row.id = id
    · simp [hid, h]
    · simp [hid]
  simp only [Db.view, Db.shapes, Db.setCredential, hshapes]

theorem view_setCredential (h : ∀ row, shape (edit.1 row) = shape row) : (db.setCredential id edit).view = db.view :=
  (view_setCredential_congr .none h).trans (congrArg Db.view setCredential_none)

theorem view_field {β : Type} {value : Option β} {write : β → Db → Db} {label : β → String}
    (h : ∀ b db, (write b db).view = db.view) : ((field value write label).1 db).view = db.view := by
  cases value with
  | none => rfl
  | some b => exact h b db

theorem view_lateFields : ((lateFields env row u).foldl (fun db w => w.1 db) db).view = db.view := by
  refine foldl_writes Db.view (fun w hw db => ?_) db
  simp only [lateFields, List.mem_cons, List.not_mem_nil, or_false] at hw
  obtain rfl | rfl | rfl | rfl | rfl | rfl | rfl := hw
  · exact view_field fun _ _ => view_setCredential fun _ => rfl
  · exact view_field fun _ _ => view_setCredential fun _ => rfl
  · exact view_field fun _ _ => view_setCredential fun _ => rfl
  · exact view_field fun _ _ => view_setCredential fun _ => rfl
  · refine view_field fun disabled db => ?_
    exact @view_setCredential db row.id ⟨fun row => { row with manuallyDisabled := disabled }, fun _ => rfl⟩ fun _ => rfl
  · exact view_field fun _ _ => view_setCredential fun _ => rfl
  · cases u.possiblyExposed with
    | none => exact view_field fun _ _ => view_setCredential fun _ => rfl
    | some exposed => exact view_field fun _ _ => view_setCredential fun _ => rfl

/-- Of the checked fields, only the environment is shown with a check. -/
theorem view_checkedFields {name : Option Str} {keyCreatedAt expiresAt : Option (Option Str)} :
    (db.setCredential id ((datedEdit env u name keyCreatedAt).andThen (editOf expiresAt setExpiresAt))).view
      = (db.setCredential id (editOf u.environment setEnvironment)).view := by
  refine view_setCredential_congr _ fun row => ?_
  unfold datedEdit earlyEdit
  cases name <;> cases u.provider <;> cases u.environment <;> cases keyCreatedAt <;> cases expiresAt <;> rfl

end

/-! ## Updating a credential -/

section

variable {env : Surroundings} {u : UpdateCredential} {db : Db} {selector : Str}

/-- The request fails before it writes, or what it wrote was there, or what it leaves can be shown. -/
def UpdateCredential.Clean (env : Surroundings) (u : UpdateCredential) (selector : Str) (db : Db) : Prop :=
  match resolveCredential db selector with
  | .error _ => True
  | .ok row =>
      match checkedName u db row with
      | .error _ => True
      | .ok name =>
          match checkedDate env u.keyCreatedAt with
          | .error _ => (earlyEdit env u name).1 row = row
          | .ok keyCreatedAt =>
              match checkedDate env u.expiresAt with
              | .error _ => (datedEdit env u name keyCreatedAt).1 row = row
              | .ok _ => u = .none ∨
                  (getCredential env (db.setCredential row.id (editOf u.environment setEnvironment)) row.id).isOk = true

theorem not_audit_eq {db db' : Db} {event : AuditEvent} (h : db.auditEvents = db'.auditEvents) : db.audit event ≠ db' := by
  intro heq
  have hlength := congrArg (fun d : Db => d.auditEvents.length) heq
  simp [Db.audit, h] at hlength

theorem error_iff_not_isOk {α : Type} {r : Except CoreError α} : (∃ e, r = .error e) ↔ ¬r.isOk = true := by
  cases r <;> simp [Except.isOk, Except.toBool]

theorem updateCredential_unchanged_iff :
    Unchanged (updateCredential env selector u) db ↔ u.Clean env selector db := by
  unfold Unchanged UpdateCredential.Clean updateCredential
  cases hrow : resolveCredential db selector with
  | error e => simp
  | ok row =>
      have hmem := mem_of_resolveCredential hrow
      dsimp only
      rw [run_credentialFields]
      cases hname : checkedName u db row with
      | error e => simp
      | ok name =>
          dsimp only
          cases hkey : checkedDate env u.keyCreatedAt with
          | error e => simpa using setCredential_eq_self_iff hmem
          | ok keyCreatedAt =>
              dsimp only
              cases hexpires : checkedDate env u.expiresAt with
              | error e => simpa using setCredential_eq_self_iff hmem
              | ok expiresAt =>
                  have hnil := labels_eq_nil_iff hname hkey hexpires
                  have hview := (@view_lateFields env u
                    (db.setCredential row.id ((datedEdit env u name keyCreatedAt).andThen (editOf expiresAt setExpiresAt)))
                      row).trans view_checkedFields
                  dsimp only
                  by_cases hnone : u = .none
                  · rw [hnil.2 hnone]
                    subst hnone
                    obtain rfl := Except.ok.inj hname
                    obtain rfl := Except.ok.inj hkey
                    obtain rfl := Except.ok.inj hexpires
                    exact iff_of_true (fun _ _ => (setCredential_eq_self_iff hmem).2 rfl) (.inl rfl)
                  · obtain ⟨label, rest, hlabels⟩ := List.exists_cons_of_ne_nil fun h => hnone (hnil.1 h)
                    rw [hlabels]
                    dsimp only
                    simp only [hnone, false_or]
                    generalize (lateFields env row u).foldl (fun db w => w.1 db) _ = written at hview ⊢
                    have hstamped := (@view_setCredential written row.id
                      ⟨fun row => { row with updatedAt := env.now 3 }, fun _ => rfl⟩ fun _ => rfl).trans hview
                    have hshown := isOk_getCredential_congr env (exists_setCredential hmem)
                      (congrArg Prod.fst hstamped).symm
                    rw [hshown]
                    constructor
                    · intro h
                      by_contra hfails
                      obtain ⟨e, he⟩ := error_iff_not_isOk.2 hfails
                      exact @not_audit_eq _ db _ (congrArg Prod.snd hstamped) (h e he)
                    · intro hok e he
                      exact absurd hok (error_iff_not_isOk.1 ⟨e, he⟩)

end

/-! ## Updating a project -/

section

variable {env : Surroundings} {u : UpdateProject} {db : Db} {ident : Str} {row : ProjectRow}

theorem mem_of_projectRowByIdent (h : projectRowByIdent db ident = .ok row) : row ∈ db.projects := by
  unfold projectRowByIdent at h
  split at h
  · rename_i found hfind
    obtain rfl := Except.ok.inj h
    exact List.mem_of_find?_eq_some hfind
  · split at h
    · rename_i found hfind
      obtain rfl := Except.ok.inj h
      exact List.mem_of_find?_eq_some hfind
    · cases h

/-- What a project is shown with a check, and what is recorded. -/
def Db.projectView (db : Db) : List (Str × Str) × List AuditEvent :=
  (db.projects.map fun p => (p.id, p.environmentsJson), db.auditEvents)

theorem projectView_setProject {id : Str} {edit : ProjectEdit}
    (h : ∀ row, (edit.1 row).environmentsJson = row.environmentsJson) : (db.setProject id edit).projectView = db.projectView := by
  simp only [Db.projectView, Db.setProject, Keyed.modify, List.map_map]
  congr 1
  refine List.map_congr_left fun row _ => ?_
  by_cases hid : row.id = id
  · simp [hid, h, edit.2]
  · simp [hid]

/-- The environments of a project set to a text, if there is one. -/
def withEnvironments (id : Str) (text : Option Str) (view : List (Str × Str) × List AuditEvent) :
    List (Str × Str) × List AuditEvent :=
  (view.1.map fun p => if p.1 = id then (p.1, text.getD p.2) else p, view.2)

theorem projectView_setEnvironments {id text : Str} :
    (db.setProject id (setEnvironmentsJson text)).projectView = withEnvironments id (some text) db.projectView := by
  simp only [Db.projectView, Db.setProject, Keyed.modify, withEnvironments, List.map_map]
  congr 1
  refine List.map_congr_left fun row _ => ?_
  by_cases hid : row.id = id
  · simp [hid, setEnvironmentsJson]
  · simp [hid]

theorem withEnvironments_none {id : Str} {view : List (Str × Str) × List AuditEvent} : withEnvironments id none view = view := by
  simp [withEnvironments]

theorem projectView_field {β : Type} {value : Option β} {write : β → Db → Db} {label : β → String}
    (h : ∀ b db, (write b db).projectView = db.projectView) : ((field value write label).1 db).projectView = db.projectView := by
  cases value with
  | none => rfl
  | some b => exact h b db

variable (env u) in
theorem projectView_writes (id : Str) (db : Db) :
    ((projectWrites env id u).foldl (fun db w => w.1 db) db).projectView
      = withEnvironments id (u.environments.map environmentsText) db.projectView := by
  have hrepos : ∀ db : Db,
      ((u.removeRepoPaths.map fun repo => (removeRepo env id repo, ["repos"])).foldl
        (fun (db : Db) (w : (Db → Db) × List String) => w.1 db)
        ((u.addRepoPaths.map fun repo => (addRepo env id repo, ["repos"])).foldl
          (fun (db : Db) (w : (Db → Db) × List String) => w.1 db) db)).projectView = db.projectView := by
    intro db
    refine (foldl_writes Db.projectView (fun w hw db => ?_) _).trans (foldl_writes Db.projectView (fun w hw db => ?_) _)
    · obtain ⟨repo, -, rfl⟩ := List.mem_map.1 hw
      rfl
    · obtain ⟨repo, -, rfl⟩ := List.mem_map.1 hw
      dsimp only [addRepo]
      split <;> rfl
  simp only [projectWrites, List.foldl_append, List.foldl_cons, List.foldl_nil]
  rw [hrepos]
  have hearly : ((field u.notes (fun notes db => db.setProject id ⟨fun row => { row with notes }, fun _ => rfl⟩)
      fun _ => "notes").1 ((field u.description (fun description db => db.setProject id
        ⟨fun row => { row with description := trim description }, fun _ => rfl⟩) fun _ => "description").1 db)).projectView
        = db.projectView :=
    (projectView_field fun _ _ => projectView_setProject fun _ => rfl).trans
      (projectView_field fun _ _ => projectView_setProject fun _ => rfl)
  cases u.environments with
  | none =>
      rw [Option.map_none, withEnvironments_none]
      exact hearly
  | some environments => exact projectView_setEnvironments.trans (congrArg _ hearly)

theorem isOk_getProject {id text : Str} (h : (id, text) ∈ db.projectView.1) :
    (getProject env db id).isOk = (env.parseEnvironments text).isOk := by
  obtain ⟨row, hrow, hpair⟩ := List.mem_map.1 h
  obtain ⟨rfl, rfl⟩ := Prod.mk.inj hpair
  have hfind : db.projects.find? (·.id = row.id) = some row := by
    cases hfound : db.projects.find? (·.id = row.id) with
    | none => simpa using List.find?_eq_none.1 hfound row hrow
    | some found =>
        have hid : found.id = row.id := by simpa using List.find?_some hfound
        rw [List.inj_on_of_nodup_map db.projectIds (List.mem_of_find?_eq_some hfound) hrow hid]
  unfold getProject projectRowByIdent
  rw [hfind]
  simp only [bind, Except.bind, projectModel]
  cases env.parseEnvironments row.environmentsJson <;> rfl

/-- `..Default::default()`. -/
def UpdateProject.none : UpdateProject := ⟨.none, .none, .none, .none, [], []⟩

def checkedProjectName (u : UpdateProject) (db : Db) (row : ProjectRow) : Except CoreError (Option Str) :=
  checked u.name (projectName db row)

def projectLabels (env : Surroundings) (u : UpdateProject) (row : ProjectRow) (name : Option Str) : List String :=
  name.elim [] (fun _ => ["name"]) ++ (projectWrites env row.id u).flatMap Prod.snd

/-- Of the fields of a project, the name alone is checked, and it comes first. -/
theorem run_projectFields :
    run (projectFields env row u) db =
      match checkedProjectName u db row with
      | .error e => (db, .error e)
      | .ok name =>
          ((projectWrites env row.id u).foldl (fun db w => w.1 db)
            (name.elim db fun name => db.setProject row.id (editProjectName name)),
           .ok (projectLabels env u row name)) := by
  have hname : checkedField u.name (fun db name => projectName db row name)
      (fun name db => db.setProject row.id (editProjectName name)) "name" db
        = (checkedProjectName u db row).map fun name =>
            (name.elim db fun name => db.setProject row.id (editProjectName name), name.elim [] fun _ => ["name"]) := by
    unfold checkedField checkedProjectName checked
    cases u.name with
    | none => rfl
    | some name =>
        dsimp only
        cases projectName db row name <;> rfl
  cases hn : checkedProjectName u db row with
  | error e =>
      rw [hn] at hname
      exact run_error hname
  | ok name =>
      rw [hn] at hname
      refine (run_ok hname).trans ?_
      rw [fieldWrites, run_writes]
      rfl

variable (env) in
theorem projectLabels_eq_nil_iff {name : Option Str} (hname : checkedProjectName u db row = .ok name) :
    projectLabels env u row name = [] ↔ u = .none := by
  have hadds : ∀ repos : List Str,
      (repos.map fun repo => ((addRepo env row.id repo, ["repos"]) : (Db → Db) × List String)).flatMap Prod.snd = [] ↔ repos = [] := by
    intro repos
    cases repos <;> simp
  have hremoves : ∀ repos : List Str,
      (repos.map fun repo => ((removeRepo env row.id repo, ["repos"]) : (Db → Db) × List String)).flatMap Prod.snd = [] ↔ repos = [] := by
    intro repos
    cases repos <;> simp
  simp only [projectLabels, List.append_eq_nil_iff, elim_labels_eq_nil, projectWrites, List.flatMap_append,
    List.flatMap_cons, List.flatMap_nil, List.append_nil, field_labels_eq_nil, hadds, hremoves, checked_none_iff hname]
  obtain ⟨_, _, _, _, _, _⟩ := u
  simp only [UpdateProject.none, UpdateProject.mk.injEq]
  tauto

/-- The request fails before it writes, asks for nothing, or leaves environments that can be read. -/
def UpdateProject.Clean (env : Surroundings) (u : UpdateProject) (ident : Str) (db : Db) : Prop :=
  match projectRowByIdent db ident with
  | .error _ => True
  | .ok row =>
      match checkedProjectName u db row with
      | .error _ => True
      | .ok _ => u = .none ∨
          (env.parseEnvironments ((u.environments.map environmentsText).getD row.environmentsJson)).isOk = true

theorem updateProject_unchanged_iff :
    Unchanged (updateProject env ident u) db ↔ u.Clean env ident db := by
  unfold Unchanged UpdateProject.Clean updateProject
  cases hrow : projectRowByIdent db ident with
  | error e => simp
  | ok row =>
      have hmem := mem_of_projectRowByIdent hrow
      dsimp only
      rw [run_projectFields]
      cases hname : checkedProjectName u db row with
      | error e => simp
      | ok name =>
          have hnil := projectLabels_eq_nil_iff env hname
          dsimp only
          by_cases hnone : u = .none
          · rw [hnil.2 hnone]
            subst hnone
            obtain rfl := Except.ok.inj hname
            exact iff_of_true (fun _ _ => rfl) (.inl rfl)
          · obtain ⟨label, rest, hlabels⟩ := List.exists_cons_of_ne_nil fun h => hnone (hnil.1 h)
            have hnamed : (name.elim db fun name => db.setProject row.id (editProjectName name)).projectView = db.projectView := by
              cases name with
              | none => rfl
              | some name => exact projectView_setProject fun _ => rfl
            have hview := (projectView_writes env u row.id
              (name.elim db fun name => db.setProject row.id (editProjectName name))).trans (congrArg _ hnamed)
            rw [hlabels]
            dsimp only
            simp only [hnone, false_or]
            generalize (projectWrites env row.id u).foldl (fun db w => w.1 db) _ = written at hview ⊢
            have hstamped := (@projectView_setProject written row.id
              ⟨fun row => { row with updatedAt := env.now 0 }, fun _ => rfl⟩ fun _ => rfl).trans hview
            have hpair : (row.id, (u.environments.map environmentsText).getD row.environmentsJson)
                ∈ (withEnvironments row.id (u.environments.map environmentsText) db.projectView).1 :=
              List.mem_map.2 ⟨(row.id, row.environmentsJson), List.mem_map.2 ⟨row, hmem, rfl⟩, if_pos rfl⟩
            rw [← hstamped] at hpair
            rw [← isOk_getProject hpair]
            constructor
            · intro h
              by_contra hfails
              obtain ⟨e, he⟩ := error_iff_not_isOk.2 hfails
              exact @not_audit_eq _ db _ (congrArg Prod.snd hstamped) (h e he)
            · intro hok e he
              exact absurd hok (error_iff_not_isOk.1 ⟨e, he⟩)

end

/-! ## Adding a destination -/

section

variable {env : Surroundings} {kind name config : Str} {auth : Option Str} {db : Db}

theorem insert_ok {db' : Db} {id : Str} (h : insert env kind name config db = .ok (db', id)) :
    db' = { db with destinations := db.destinations ++ [⟨env.newId, kind, name, config, none, none, env.now 0, env.now 0⟩] } ∧
      id = env.newId := by
  unfold insert at h
  cases hkind : kindInfo env.os kind with
  | error e =>
      rw [hkind] at h
      cases h
  | ok info =>
      rw [hkind] at h
      simp only [bind, Except.bind, throw, throwThe, MonadExceptOf.throw] at h
      split_ifs at h
      obtain ⟨rfl, rfl⟩ := Prod.mk.inj (Except.ok.inj h)
      exact ⟨rfl, rfl⟩

theorem isOk_destination {id : Str} (h : id ∈ db.destinations.map DestinationRow.id) : (destination db id).isOk = true := by
  obtain ⟨row, hrow, rfl⟩ := List.mem_map.1 h
  unfold destination
  split
  · rfl
  · rename_i hnone
    simpa using List.find?_eq_none.1 hnone row hrow

/-- A blank credential is refused after the row is inserted; nothing else fails once the row is there. -/
def destinationClean (env : Surroundings) (kind name config : Str) (auth : Option Str) (db : Db) : Prop :=
  ∀ auth', auth = some auth' → trim auth' = [] →
    match destinationName env kind name with
    | .error _ => True
    | .ok name => (insert env kind name config db).isOk = false

theorem destinationAdd_unchanged_iff :
    Unchanged (destinationAdd env kind name config auth) db ↔ destinationClean env kind name config auth db := by
  unfold Unchanged destinationClean destinationAdd
  cases hname : destinationName env kind name with
  | error e => simp
  | ok name =>
      dsimp only
      cases hinsert : insert env kind name config db with
      | error e => simp [Except.isOk, Except.toBool]
      | ok inserted =>
          obtain ⟨db', id⟩ := inserted
          obtain ⟨rfl, rfl⟩ := insert_ok hinsert
          dsimp only
          cases auth with
          | none =>
              refine iff_of_true (fun e he => ?_) (fun _ h => by cases h)
              refine absurd (isOk_destination ?_) (error_iff_not_isOk.1 ⟨e, he⟩)
              simp [Db.audit]
          | some auth =>
              by_cases hblank : trim auth = []
              · refine iff_of_false (fun h => ?_) fun h => ?_
                · simp only [hblank, if_true] at h
                  have hlength := congrArg (fun d : Db => d.destinations.length) (h _ rfl)
                  simp at hlength
                · exact Bool.noConfusion (h auth rfl hblank)
              · refine iff_of_true (fun e he => ?_) fun auth' h hblank' => absurd (Option.some.inj h ▸ hblank') hblank
                simp only [hblank, if_false] at he
                refine absurd (isOk_destination ?_) (error_iff_not_isOk.1 ⟨e, he⟩)
                dsimp only [Db.audit]
                rw [Keyed.keys_modify]
                · simp
                · exact fun _ h => h

end

/-! ## The requests -/

inductive Request where
  | updateCredential (selector : Str) (u : UpdateCredential)
  | updateProject (ident : Str) (u : UpdateProject)
  | destinationAdd (kind name config : Str) (auth : Option Str)

inductive Response where
  | credential (row : CredentialRow)
  | project (row : ProjectRow)
  | destination (row : DestinationRow)

def Request.run (env : Surroundings) (db : Db) : Request → Db × Except CoreError Response
  | .updateCredential selector u => Prod.map id (Except.map .credential) (Metadata.updateCredential env selector u db)
  | .updateProject ident u => Prod.map id (Except.map .project) (Metadata.updateProject env ident u db)
  | .destinationAdd kind name config auth =>
      Prod.map id (Except.map .destination) (Metadata.destinationAdd env kind name config auth db)

def Request.Clean (env : Surroundings) (db : Db) : Request → Prop
  | .updateCredential selector u => u.Clean env selector db
  | .updateProject ident u => u.Clean env ident db
  | .destinationAdd kind name config auth => destinationClean env kind name config auth db

theorem unchanged_map {α β : Type} {op : Db → Db × Except CoreError α} {f : α → β} {db : Db} :
    Unchanged (fun db => Prod.map id (Except.map f) (op db)) db ↔ Unchanged op db := by
  refine forall_congr' fun e => imp_congr_left ?_
  dsimp only [Prod.map]
  cases (op db).2 <;> simp [Except.map]

/-- A request that fails changes nothing exactly when its error comes before its first write, when what it wrote
    before was there, or when what it leaves can be shown. -/
theorem failed_unchanged_iff (env : Surroundings) (req : Request) (db : Db) :
    Unchanged (fun db => req.run env db) db ↔ req.Clean env db := by
  cases req with
  | updateCredential selector u => exact unchanged_map.trans updateCredential_unchanged_iff
  | updateProject ident u => exact unchanged_map.trans updateProject_unchanged_iff
  | destinationAdd kind name config auth => exact unchanged_map.trans destinationAdd_unchanged_iff

/-- No date parses. -/
def Surroundings.dateless : Surroundings :=
  { reader := ⟨fun _ => false, id⟩
    parseUserDate := fun _ => none
    parseRfc3339 := fun _ => none
    toRfc3339 := fun _ => []
    parseEnvironments := fun _ => .ok []
    canonicalRepoPath := id
    now := fun _ => []
    newId := "d1".toList
    encrypt := fun _ _ => []
    os := .linux }

def Db.oneCredential : Db :=
  { projects := []
    projectRepos := []
    credentials := [{
      id := "c1".toList
      projectId := "p1".toList
      provider := "openai".toList
      name := "key".toList
      environment := "development".toList
      linkedCredentialId := none
      fingerprint := []
      createdAt := []
      updatedAt := []
      keyCreatedAt := none
      expiresAt := none
      lastValidatedAt := none
      lastUsedAt := none
      docsUrl := []
      notes := []
      manuallyDisabled := false
      revoked := false
      markedInvalid := false
      possiblyExposed := false
      exposureNote := [] }]
    destinations := []
    auditEvents := []
    activityEvents := []
    projectIds := List.nodup_nil
    credentialIds := List.nodup_singleton _ }

/-- A malformed date is refused after the environment is written. -/
theorem malformed_date_environment_written :
    ¬∀ (env : Surroundings) (req : Request) (db : Db), Unchanged (fun db => req.run env db) db := by
  intro h
  have hdb := h .dateless (.updateCredential "c1".toList { UpdateCredential.none with
    environment := some .production
    expiresAt := some (some "soon".toList) }) .oneCredential _ rfl
  have henvironment := congrArg (fun db : Db => db.credentials.map CredentialRow.environment) hdb
  revert henvironment
  decide

end Tethra.Metadata
