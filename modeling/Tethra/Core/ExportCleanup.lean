import Tethra.Core.ClockOrder
import Tethra.Core.EnvFile
import Tethra.Lib.Runs

set_option autoImplicit false

/-! # Cleaning up exports (`core/src/envgov.rs`, `cleanup_exports`; `core/src/vault.rs`, `env_export`)

A record is kept for each export, and a file for each path. A cleanup goes by the records: it removes the file of
an expired one whose hash is that of the file, whatever other records of the path say. As long as no live record
shares its path and content with an expired one, the texts of times are in the order of the times, and every file
can be looked at, the cleanups of a run respect the live exports (`cleanups_respect_exports`). -/

namespace Tethra.Exports

open Clock Core.EnvFile Runs

/-! ## Files and records -/

/-- What stands at a path. An `unread` file is not text; a `hidden` one cannot be looked at, so that
    `Path::exists` is false. -/
inductive FileState where
  | absent
  | text (content : Str)
  | unread
  | hidden
  deriving DecidableEq, Repr

/-- `Path::exists`. -/
def FileState.exists : FileState → Bool
  | .text _ | .unread => true
  | .absent | .hidden => false

/-- `read_to_string(..).unwrap_or_default()`. -/
def FileState.read : FileState → Str
  | .text content => content
  | _ => []

/-- A row of `env_exports`, with the hash of what was exported. -/
structure ExportRow (δ : Type) where
  id : Str
  projectId : Str
  path : Str
  varNames : List Str
  contentHash : δ
  createdAt : Timestamp
  expiresAt : Option Timestamp
  cleanedAt : Option Timestamp

structure Store (δ : Type) where
  files : Str → FileState
  rows : List (ExportRow δ)

/-! ## Exporting -/

def exportHeader : Str :=
  ("# Written by `tethra env export`. This file contains PLAINTEXT secrets.\n" ++
    "# Prefer `tethra run`, which injects credentials without a file.\n").toList

/-- The text of an export: the header, and an entry for each variable. -/
def exportText (vars : List (Str × Str)) : Str :=
  (vars.foldl (fun doc v => doc.set v.1 v.2) (EnvDocument.parse exportHeader)).render

structure ExportRequest where
  id : Str
  projectId : Str
  path : Str
  vars : List (Str × Str)
  overwrite : Bool
  at_ : Timestamp
  expiresAt : Option Timestamp

section

variable {δ : Type} [DecidableEq δ] (hash : Str → δ)

/-- `record_export`; the id is the primary key. -/
def recordExport (rows : List (ExportRow δ)) (req : ExportRequest) : Except CoreError (List (ExportRow δ)) :=
  if rows.any (·.id = req.id) then .error (.db "UNIQUE constraint failed: env_exports.id".toList)
  else .ok (rows ++ [{
    id := req.id
    projectId := req.projectId
    path := req.path
    varNames := req.vars.map Prod.fst
    contentHash := hash (exportText req.vars)
    createdAt := req.at_
    expiresAt := req.expiresAt
    cleanedAt := none }])

/-- The write and the record of `env_export`. -/
def envExport (s : Store δ) (req : ExportRequest) : Store δ × Except CoreError Unit :=
  if s.files req.path ≠ .absent ∧ !req.overwrite then
    (s, .error (.invalidInput (req.path ++ " already exists; pass the overwrite flag to replace it".toList)))
  else
    let files := Function.update s.files req.path (.text (exportText req.vars))
    match recordExport hash s.rows req with
    | .error e => (⟨files, s.rows⟩, .error e)
    | .ok rows => (⟨files, rows⟩, .ok ())

/-! ## Cleaning up -/

inductive CleanupOutcome where
  | removed
  | alreadyGone
  | modifiedSinceExport
  | notYetExpired
  deriving DecidableEq, Repr

structure CleanupResult where
  exportId : Str
  path : Str
  outcome : CleanupOutcome

/-- What the disk does in a cleanup: the files it does not let go, and those not touched for an hour. -/
structure Surroundings where
  refuses : Str → Option CoreError
  hourOld : Str → Bool

/-- The export has expired, by the texts of the times. -/
def ExportRow.expired (now : Timestamp) (row : ExportRow δ) : Bool :=
  row.expiresAt.any fun e => decide (e.toRfc3339 ≤ now.toRfc3339)

/-- `list_exports`: the records that are not cleaned, the newest first. -/
def listExports (rows : List (ExportRow δ)) : List (ExportRow δ) :=
  (rows.filter (·.cleanedAt.isNone)).insertionSort fun a b => b.createdAt.toRfc3339 ≤ a.createdAt.toRfc3339

def cleanOutcome (env : Surroundings) (force : Bool) (files : Str → FileState) (row : ExportRow δ) :
    Except CoreError CleanupOutcome :=
  if !(files row.path).exists then .ok .alreadyGone
  else if hash (files row.path).read ≠ row.contentHash ∧ !force then .ok .modifiedSinceExport
  else
    match env.refuses row.path with
    | some e => .error e
    | none => .ok .removed

/-- `UPDATE env_exports SET cleaned_at`. -/
def mark (now : Timestamp) (id : Str) (rows : List (ExportRow δ)) : List (ExportRow δ) :=
  rows.map fun r => if r.id = id then { r with cleanedAt := some now } else r

/-- What an outcome leaves behind. -/
def Store.settle (now : Timestamp) (row : ExportRow δ) (outcome : CleanupOutcome) (s : Store δ) : Store δ :=
  match outcome with
  | .removed => ⟨Function.update s.files row.path .absent, mark now row.id s.rows⟩
  | .alreadyGone => ⟨s.files, mark now row.id s.rows⟩
  | .modifiedSinceExport | .notYetExpired => s

/-- The loop of `cleanup_exports`; an error ends it, and what was done stays. -/
def cleanRows (env : Surroundings) (all force : Bool) (now : Timestamp) :
    List (ExportRow δ) → Store δ → Store δ × Except CoreError (List CleanupResult)
  | [], s => (s, .ok [])
  | row :: rest, s =>
      if !all && !row.expired now then
        let (t, results) := cleanRows env all force now rest s
        (t, results.map fun rs => if row.expiresAt.isSome then ⟨row.id, row.path, .notYetExpired⟩ :: rs else rs)
      else
        match cleanOutcome hash env force s.files row with
        | .error e => (s, .error e)
        | .ok outcome =>
            let (t, results) := cleanRows env all force now rest (s.settle now row outcome)
            (t, results.map (⟨row.id, row.path, outcome⟩ :: ·))

def fileName (path : Str) : Str := path.rtakeWhile (· ≠ '/')

def parent (path : Str) : Str := path.rdropWhile (· ≠ '/')

/-- The name of a temporary file of `atomic_write`. -/
def isTemp (name : Str) : Bool := name.head? = some '.' && decide (".api-tracker-tmp-".toList <:+: name)

/-- `sweep_orphaned_temp_files` takes the file. -/
def sweeps (env : Surroundings) (rows : List (ExportRow δ)) (path : Str) : Bool :=
  isTemp (fileName path) && env.hourOld path && (env.refuses path).isNone && rows.any (parent ·.path = parent path)

/-- `cleanup_exports`. -/
def cleanupExports (env : Surroundings) (all force : Bool) (now : Timestamp) (s : Store δ) :
    Store δ × Except CoreError (List CleanupResult) :=
  let (t, results) := cleanRows hash env all force now (listExports s.rows) s
  match results with
  | .error e => (t, .error e)
  | .ok results => (⟨fun path => if sweeps env t.rows path then .absent else t.files path, t.rows⟩, .ok results)

end

/-! ## An export is not empty -/

theorem mem_intercalate {sep : Str} {parts : List Str} {part : Str} {c : Char} (hpart : part ∈ parts) (hc : c ∈ part) :
    c ∈ sep.intercalate parts := by
  induction parts with
  | nil => cases hpart
  | cons head rest ih =>
      cases rest with
      | nil =>
          obtain rfl := List.mem_singleton.1 hpart
          simpa [List.intercalate] using hc
      | cons next rest =>
          rw [List.intercalate_cons_cons, List.mem_append, List.mem_append]
          rcases List.mem_cons.1 hpart with rfl | hpart
          · exact .inl (.inl hc)
          · exact .inr (ih hpart)

/-- A comment stays where it is when a variable is set. -/
theorem comment_mem_set {doc : EnvDocument} {raw key value : Str} (h : .comment raw ∈ doc.lines) :
    .comment raw ∈ (doc.set key value).lines := by
  unfold EnvDocument.set
  split
  · exact List.mem_map.2 ⟨_, h, rfl⟩
  · exact List.mem_append_left _ h

theorem exportText_ne_nil (vars : List (Str × Str)) : exportText vars ≠ [] := by
  have hkept : ∀ doc : EnvDocument, EnvLine.comment "# Prefer `tethra run`, which injects credentials without a file.".toList ∈ doc.lines →
      EnvLine.comment "# Prefer `tethra run`, which injects credentials without a file.".toList ∈
        (vars.foldl (fun doc v => doc.set v.1 v.2) doc).lines := by
    induction vars with
    | nil => exact fun doc h => h
    | cons v vars ih => exact fun doc h => ih _ (comment_mem_set h)
  have hraw := hkept (EnvDocument.parse exportHeader) (by decide +kernel)
  intro hnil
  have hhash : '#' ∈ exportText vars := by
    unfold exportText EnvDocument.render
    refine List.mem_append_left _ (mem_intercalate (List.mem_map.2 ⟨_, hraw, rfl⟩) ?_)
    decide
  rw [hnil] at hhash
  cases hhash

/-! ## What a cleanup owes to the exports -/

section

variable {δ : Type} [DecidableEq δ] {hash : Str → δ}

/-- The file at a path may go: it is as some export left it, and every record of the path that is not cleaned has
    expired. -/
structure MayGo (exported : List (Str × Str)) (now : Timestamp) (s : Store δ) (path : Str) : Prop where
  unchanged : ∃ content, (path, content) ∈ exported ∧ s.files path = .text content
  noneLive : ∀ r ∈ s.rows, r.path = path → r.cleanedAt = none → ∃ e ∈ r.expiresAt, e ≤ now

/-- A cleanup from `s` to `t` respects the exports: an exported file goes only when it may, and a record is marked
    only when its file is gone. No other file goes, the temporary files of `atomic_write` aside. -/
structure Respects (exported : List (Str × Str)) (now : Timestamp) (s t : Store δ) : Prop where
  removes : ∀ path, (∃ r ∈ s.rows, r.path = path) → s.files path ≠ .absent → t.files path = .absent →
    MayGo exported now s path
  others : ∀ path, (¬∃ r ∈ s.rows, r.path = path) → t.files path ≠ s.files path → isTemp (fileName path) = true
  marks : ∀ r ∈ s.rows, r.cleanedAt = none → ∀ r' ∈ t.rows, r'.id = r.id → r'.cleanedAt ≠ none →
    t.files r.path = .absent

variable (hash) in
/-- Where an automatic cleanup does no harm: no record of a path outlives an expired one with the file's content, the
    file of an expired record can be looked at, and no exported file is named like a temporary one. -/
structure Harmless (env : Surroundings) (now : Timestamp) (s : Store δ) : Prop where
  outlived : ∀ r ∈ s.rows, r.cleanedAt = none → r.expired now = true →
    ∀ content, s.files r.path = .text content → hash content = r.contentHash →
      ∀ r' ∈ s.rows, r'.path = r.path → r'.cleanedAt = none → ∃ e ∈ r'.expiresAt, e ≤ now
  visible : ∀ r ∈ s.rows, r.cleanedAt = none → r.expired now = true → s.files r.path ≠ .hidden
  unswept : ∀ r ∈ s.rows, s.files r.path ≠ .absent → (isTemp (fileName r.path) && env.hourOld r.path) = false

variable (hash) in
/-- The records tell what was exported. -/
structure Recorded (exported : List (Str × Str)) (rows : List (ExportRow δ)) : Prop where
  ids : ∀ a ∈ rows, ∀ b ∈ rows, a.id = b.id → a = b
  content : ∀ r ∈ rows, ∃ content, (r.path, content) ∈ exported ∧ r.contentHash = hash content ∧ content ≠ []

/-- What a cleanup that began in `s₀` has done so far. -/
structure Progress (exported : List (Str × Str)) (now : Timestamp) (s₀ s : Store δ) : Prop where
  files : ∀ path, s.files path = s₀.files path ∨
    (∃ r ∈ s₀.rows, r.path = path) ∧ s.files path = .absent ∧ MayGo exported now s₀ path
  rows : ∀ r' ∈ s.rows, ∃ r ∈ s₀.rows, r'.id = r.id ∧ r'.path = r.path ∧
    (r'.cleanedAt = r.cleanedAt ∨ s.files r.path = .absent)

omit [DecidableEq δ] in
theorem Progress.refl (exported : List (Str × Str)) (now : Timestamp) (s₀ : Store δ) :
    Progress exported now s₀ s₀ :=
  ⟨fun _ => .inl rfl, fun r hr => ⟨r, hr, rfl, rfl, .inl rfl⟩⟩

section Loop

variable {exported : List (Str × Str)} {now : Timestamp} {env : Surroundings} {s₀ s : Store δ} {row : ExportRow δ}
  (hhash : Function.Injective hash) (hrecorded : Recorded hash exported s₀.rows)
  (hharmless : Harmless hash env now s₀)
include hrecorded

omit [DecidableEq δ] in
/-- A record may be marked once its file is gone. -/
theorem Progress.mark (h : Progress exported now s₀ s) (hrow : row ∈ s₀.rows) (hgone : s.files row.path = .absent) :
    Progress exported now s₀ ⟨s.files, mark now row.id s.rows⟩ := by
  refine ⟨h.files, fun r' hr' => ?_⟩
  obtain ⟨r₁, hr₁, rfl⟩ := List.mem_map.1 hr'
  obtain ⟨r, hr, hid, hpath, hcleaned⟩ := h.rows r₁ hr₁
  split
  · rename_i hsame
    obtain rfl := hrecorded.ids r hr row hrow (hid.symm.trans hsame)
    exact ⟨r, hr, hid, hpath, .inr hgone⟩
  · exact ⟨r, hr, hid, hpath, hcleaned⟩

omit [DecidableEq δ] hrecorded in
/-- A file that may go is taken away. -/
theorem Progress.remove (h : Progress exported now s₀ s) (hrow : row ∈ s₀.rows)
    (hmay : MayGo exported now s₀ row.path) :
    Progress exported now s₀ ⟨Function.update s.files row.path .absent, s.rows⟩ := by
  refine ⟨fun path => ?_, fun r' hr' => ?_⟩
  · by_cases hpath : path = row.path
    · subst hpath
      exact .inr ⟨⟨row, hrow, rfl⟩, Function.update_self .., hmay⟩
    · dsimp only
      rw [Function.update_of_ne hpath]
      exact h.files path
  · obtain ⟨r, hr, hid, hpath, hcleaned⟩ := h.rows r' hr'
    refine ⟨r, hr, hid, hpath, hcleaned.imp_right fun hgone => ?_⟩
    by_cases hsame : r.path = row.path
    · rw [hsame]
      exact Function.update_self ..
    · dsimp only
      rw [Function.update_of_ne hsame]
      exact hgone

include hhash hharmless

omit [DecidableEq δ] in
/-- A file whose hash is that of an expired record is as it was exported, and may go. -/
theorem mayGo_of_match (h : Progress exported now s₀ s) (hrow : row ∈ s₀.rows) (hopen : row.cleanedAt = none)
    (hexpired : row.expired now = true) (hexists : (s.files row.path).exists = true)
    (hmatch : hash (s.files row.path).read = row.contentHash) : MayGo exported now s₀ row.path := by
  obtain ⟨content, hin, hcontent, hne⟩ := hrecorded.content row hrow
  have hread : (s.files row.path).read = content := hhash (hmatch.trans hcontent)
  rcases h.files row.path with hfile | ⟨-, hgone, -⟩
  · rw [hfile] at hexists hread
    cases hstate : s₀.files row.path with
    | text text =>
        rw [hstate] at hread
        obtain rfl : text = content := hread
        exact ⟨⟨text, hin, hstate⟩, hharmless.outlived row hrow hopen hexpired text hstate hcontent.symm⟩
    | unread =>
        rw [hstate] at hread
        exact absurd hread.symm hne
    | absent | hidden =>
        rw [hstate] at hexists
        cases hexists
  · rw [hgone] at hexists
    cases hexists

theorem Progress.settle (h : Progress exported now s₀ s) (hrow : row ∈ s₀.rows) (hopen : row.cleanedAt = none)
    (hexpired : row.expired now = true) {outcome : CleanupOutcome}
    (houtcome : cleanOutcome hash env false s.files row = .ok outcome) :
    Progress exported now s₀ (s.settle now row outcome) := by
  unfold cleanOutcome at houtcome
  split_ifs at houtcome with hgone hmodified
  · obtain rfl := Except.ok.inj houtcome
    refine Progress.mark hrecorded h hrow ?_
    -- not there, and not hidden either
    have hfile := h.files row.path
    have hvisible := hharmless.visible row hrow hopen hexpired
    cases hstate : s.files row.path with
    | absent => rfl
    | hidden =>
        rw [hstate] at hfile
        rcases hfile with hfile | ⟨-, hfile, -⟩
        · exact absurd hfile.symm hvisible
        · cases hfile
    | text content => simp [hstate, FileState.exists] at hgone
    | unread => simp [hstate, FileState.exists] at hgone
  · obtain rfl := Except.ok.inj houtcome
    exact h
  · cases hrefuse : env.refuses row.path with
    | some e =>
        rw [hrefuse] at houtcome
        cases houtcome
    | none =>
        rw [hrefuse] at houtcome
        obtain rfl := Except.ok.inj houtcome
        have hexists : (s.files row.path).exists = true := by simpa using hgone
        have hmatch : hash (s.files row.path).read = row.contentHash := by simpa using hmodified
        have hmay := mayGo_of_match hhash hrecorded hharmless h hrow hopen hexpired hexists hmatch
        exact Progress.mark hrecorded (h.remove hrow hmay) hrow (Function.update_self ..)

theorem Progress.cleanRows {todo : List (ExportRow δ)} (htodo : ∀ r ∈ todo, r ∈ s₀.rows ∧ r.cleanedAt = none)
    (h : Progress exported now s₀ s) :
    Progress exported now s₀ (Exports.cleanRows hash env false false now todo s).1 := by
  induction todo generalizing s with
  | nil => exact h
  | cons row rest ih =>
      obtain ⟨hrow, hopen⟩ := htodo row (List.mem_cons_self ..)
      have hrest : ∀ r ∈ rest, r ∈ s₀.rows ∧ r.cleanedAt = none := fun r hr => htodo r (List.mem_cons_of_mem _ hr)
      rw [Exports.cleanRows]
      split
      · exact ih hrest h
      · rename_i hexpired
        have hexpired' : row.expired now = true := by simpa using hexpired
        cases houtcome : cleanOutcome hash env false s.files row with
        | error e => exact h
        | ok outcome => exact ih hrest (h.settle hhash hrecorded hharmless hrow hopen hexpired' houtcome)

/-- One automatic cleanup. -/
theorem cleanup_respects : Respects exported now s₀ (cleanupExports hash env false false now s₀).1 := by
  have htodo : ∀ r ∈ listExports s₀.rows, r ∈ s₀.rows ∧ r.cleanedAt = none := by
    intro r hr
    rw [listExports, List.mem_insertionSort, List.mem_filter] at hr
    exact ⟨hr.1, Option.isNone_iff_eq_none.1 hr.2⟩
  have hprogress := Progress.cleanRows hhash hrecorded hharmless htodo (Progress.refl exported now s₀)
  have hmarks : ∀ {t : Store δ}, Progress exported now s₀ t → ∀ r ∈ s₀.rows, r.cleanedAt = none →
      ∀ r' ∈ t.rows, r'.id = r.id → r'.cleanedAt ≠ none → t.files r.path = .absent := by
    intro t ht r hr hopen r' hr' hid hcleaned
    obtain ⟨r₁, hr₁, hid', -, hsame⟩ := ht.rows r' hr'
    obtain rfl := hrecorded.ids r₁ hr₁ r hr (hid'.symm.trans hid)
    exact hsame.resolve_left fun heq => hcleaned (heq.trans hopen)
  unfold cleanupExports
  cases hrun : cleanRows hash env false false now (listExports s₀.rows) s₀ with
  | mk t results =>
      rw [hrun] at hprogress
      have hplain : Respects exported now s₀ t := by
        refine ⟨fun path _ hthere hgone => ?_, fun path hnone hchanged => ?_, hmarks hprogress⟩
        · rcases hprogress.files path with hsame | ⟨-, -, hmay⟩
          · exact absurd (hsame.symm.trans hgone) hthere
          · exact hmay
        · rcases hprogress.files path with hsame | ⟨hsome, -, -⟩
          · exact absurd hsame hchanged
          · exact absurd hsome hnone
      cases results with
      | error e => exact hplain
      | ok results =>
          have hsweeps : ∀ path, sweeps env t.rows path = true → isTemp (fileName path) = true ∧ env.hourOld path = true := by
            intro path hpath
            simp only [sweeps, Bool.and_eq_true] at hpath
            exact ⟨hpath.1.1.1, hpath.1.1.2⟩
          refine ⟨fun path hsome hthere hgone => ?_, fun path hnone hchanged => ?_, fun r hr hopen r' hr' hid hcleaned => ?_⟩
          · dsimp only at hgone
            split at hgone
            · rename_i hswept
              obtain ⟨r, hr, rfl⟩ := hsome
              have hnot := hharmless.unswept r hr hthere
              obtain ⟨htemp, hold⟩ := hsweeps _ hswept
              rw [htemp, hold] at hnot
              cases hnot
            · exact hplain.removes path hsome hthere hgone
          · dsimp only at hchanged
            split at hchanged
            · rename_i hswept
              exact (hsweeps _ hswept).1
            · exact hplain.others path hnone hchanged
          · dsimp only
            split
            · rfl
            · exact hplain.marks r hr hopen r' hr' hid hcleaned

end Loop

end

/-! ## Runs -/

/-- A cleanup of the past: what had been exported before it, its time, and the store before and after it. -/
structure Cleanup (δ : Type) where
  exported : List (Str × Str)
  now : Timestamp
  before : Store δ
  after : Store δ

/-- The store, with what was exported to where, and the cleanups so far. -/
structure World (δ : Type) extends Store δ where
  exported : List (Str × Str)
  cleanups : List (Cleanup δ)

inductive Op where
  | export (req : ExportRequest)
  | edit (path : Str) (state : FileState)
  | cleanup (now : Timestamp) (env : Surroundings)

def World.initial {δ : Type} : World δ := ⟨⟨fun _ => .absent, []⟩, [], []⟩

section

variable {δ : Type} [DecidableEq δ] (hash : Str → δ)

/-- One operation. A cleanup is the automatic one, without `all` and `force`. -/
def World.step (w : World δ) : Op → World δ
  | .export req =>
      match envExport hash w.toStore req with
      | (s, .ok _) => { w with toStore := s, exported := w.exported ++ [(req.path, exportText req.vars)] }
      | (s, .error _) => { w with toStore := s }
  | .edit path state => { w with files := Function.update w.files path state }
  | .cleanup now env =>
      let after := (cleanupExports hash env false false now w.toStore).1
      { w with toStore := after, cleanups := w.cleanups ++ [⟨w.exported, now, w.toStore, after⟩] }

/-- The world after the operations. -/
def World.run (w : World δ) (ops : List Op) : World δ := ops.foldl (World.step hash) w

/-- Each cleanup of the run comes where it does no harm. -/
def HarmlessRun : World δ → List Op → Prop
  | _, [] => True
  | w, op :: ops => (match op with
      | .cleanup now env => Harmless hash env now w.toStore
      | _ => True) ∧ HarmlessRun (w.step hash op) ops

variable {hash}

omit [DecidableEq δ] in
/-- A new record stands for what was just exported. -/
theorem Recorded.recordExport {exported : List (Str × Str)} {rows rows' : List (ExportRow δ)} {req : ExportRequest}
    (h : Recorded hash exported rows) (hok : Exports.recordExport hash rows req = .ok rows') :
    Recorded hash (exported ++ [(req.path, exportText req.vars)]) rows' := by
  unfold Exports.recordExport at hok
  split_ifs at hok with hany
  obtain rfl := Except.ok.inj hok
  have hfresh : ∀ r ∈ rows, r.id ≠ req.id := fun r hr hid => hany (List.any_eq_true.2 ⟨r, hr, decide_eq_true hid⟩)
  refine ⟨fun a ha b hb hsame => ?_, fun r hr => ?_⟩
  · rcases List.mem_append.1 ha with ha | ha <;> rcases List.mem_append.1 hb with hb | hb
    · exact h.ids a ha b hb hsame
    · obtain rfl := List.mem_singleton.1 hb
      exact absurd hsame (hfresh a ha)
    · obtain rfl := List.mem_singleton.1 ha
      exact absurd hsame.symm (hfresh b hb)
    · exact (List.mem_singleton.1 ha).trans (List.mem_singleton.1 hb).symm
  · rcases List.mem_append.1 hr with hr | hr
    · exact (h.content r hr).imp fun _ hc => ⟨List.mem_append_left _ hc.1, hc.2⟩
    · obtain rfl := List.mem_singleton.1 hr
      exact ⟨_, List.mem_append_right _ (List.mem_singleton_self _), rfl, exportText_ne_nil req.vars⟩

/-- A cleanup changes nothing of what the records tell. -/
theorem Recorded.cleanRows {exported : List (Str × Str)} {env : Surroundings} {all force : Bool} {now : Timestamp}
    {todo : List (ExportRow δ)} {s : Store δ} (h : Recorded hash exported s.rows) :
    Recorded hash exported (Exports.cleanRows hash env all force now todo s).1.rows := by
  have hmark : ∀ {rows : List (ExportRow δ)} (id : Str), Recorded hash exported rows →
      Recorded hash exported (mark now id rows) := by
    intro rows id hrows
    have hkeeps : ∀ r : ExportRow δ, (if r.id = id then { r with cleanedAt := some now } else r).id = r.id := by
      intro r
      split <;> rfl
    refine ⟨fun a ha b hb hsame => ?_, fun r hr => ?_⟩
    · obtain ⟨a, ha', rfl⟩ := List.mem_map.1 ha
      obtain ⟨b, hb', rfl⟩ := List.mem_map.1 hb
      rw [hkeeps, hkeeps] at hsame
      rw [hrows.ids a ha' b hb' hsame]
    · obtain ⟨r, hr', rfl⟩ := List.mem_map.1 hr
      obtain ⟨content, hcontent⟩ := hrows.content r hr'
      refine ⟨content, ?_⟩
      split <;> exact hcontent
  induction todo generalizing s with
  | nil => exact h
  | cons row rest ih =>
      rw [Exports.cleanRows]
      split
      · exact ih h
      · cases cleanOutcome hash env force s.files row with
        | error e => exact h
        | ok outcome =>
            refine ih ?_
            cases outcome with
            | removed => exact hmark row.id h
            | alreadyGone => exact hmark row.id h
            | modifiedSinceExport => exact h
            | notYetExpired => exact h

theorem Recorded.step {w : World δ} (h : Recorded hash w.exported w.rows) (op : Op) :
    Recorded hash (w.step hash op).exported (w.step hash op).rows := by
  cases op with
  | edit path state => exact h
  | «export» req =>
      unfold World.step envExport
      dsimp only
      split_ifs with hclash
      · exact h
      · cases hrecord : Exports.recordExport hash w.rows req with
        | error e => exact h
        | ok rows => exact h.recordExport hrecord
  | cleanup now env =>
      have hrows : (cleanupExports hash env false false now w.toStore).1.rows
          = (Exports.cleanRows hash env false false now (listExports w.rows) w.toStore).1.rows := by
        unfold cleanupExports
        cases Exports.cleanRows hash env false false now (listExports w.rows) w.toStore with
        | mk t results => cases results <;> rfl
      show Recorded hash w.exported (cleanupExports hash env false false now w.toStore).1.rows
      rw [hrows]
      exact h.cleanRows

theorem cleanups_export (w : World δ) (req : ExportRequest) :
    (w.step hash (.export req)).cleanups = w.cleanups := by
  unfold World.step
  dsimp only
  cases envExport hash w.toStore req with
  | mk s result => cases result <;> rfl

/-- In every run of exports, edits and automatic cleanups in which each cleanup comes where it does no harm, every
    cleanup has respected the exports. -/
theorem cleanups_respect_exports (hhash : Function.Injective hash) {ops : List Op}
    (hrun : HarmlessRun hash World.initial ops) :
    ∀ c ∈ (World.initial.run hash ops).cleanups, Respects c.exported c.now c.before c.after := by
  have hall : ∀ (ops : List Op) (w : World δ), Recorded hash w.exported w.rows →
      (∀ c ∈ w.cleanups, Respects c.exported c.now c.before c.after) → HarmlessRun hash w ops →
      ∀ c ∈ (w.run hash ops).cleanups, Respects c.exported c.now c.before c.after := by
    intro ops
    induction ops with
    | nil => exact fun w _ h _ => h
    | cons op ops ih =>
        rintro w hrecorded h ⟨hop, hops⟩
        refine ih (w.step hash op) (hrecorded.step op) ?_ hops
        cases op with
        | edit path state => exact h
        | «export» req =>
            rw [cleanups_export]
            exact h
        | cleanup now env =>
            intro c hc
            rcases List.mem_append.1 hc with hc | hc
            · exact h c hc
            · rw [List.mem_singleton.1 hc]
              exact cleanup_respects hhash hrecorded hop
  exact hall ops World.initial ⟨by simp [World.initial], by simp [World.initial]⟩ (by simp [World.initial]) hrun

end

/-! ## A permanent export of the same content -/

def may (day : Nat) (h : day < 32) : Timestamp :=
  .ofFields 2026 5 day 0 0 0 0 ⟨by decide, by decide, h, by decide, by decide, by decide, by decide⟩

def exportRequest (id : String) (expiresAt : Option Timestamp) : ExportRequest where
  id := id.toList
  projectId := "p".toList
  path := "/app/.env".toList
  vars := [("KEY".toList, "value".toList)]
  overwrite := true
  at_ := may 1 (by decide)
  expiresAt := expiresAt

def openDisk : Surroundings := ⟨fun _ => none, fun _ => false⟩

def exportsThenCleanup (expiresAt : Option Timestamp) : List Op :=
  [.export (exportRequest "a" (some (may 2 (by decide)))), .export (exportRequest "b" expiresAt),
    .cleanup (may 3 (by decide)) openDisk]

theorem cleanups_respect_exports_expired :
    HarmlessRun id World.initial (exportsThenCleanup (some (may 3 (by decide)))) ∧
      ∀ c ∈ (World.initial.run id (exportsThenCleanup (some (may 3 (by decide))))).cleanups,
        Respects c.exported c.now c.before c.after := by
  have hrun : HarmlessRun id World.initial (exportsThenCleanup (some (may 3 (by decide)))) := by
    refine ⟨trivial, trivial, ⟨?_, ?_, ?_⟩, trivial⟩
    · intro r hr _ _ content _ _ r' hr' _ _
      have hall : ∀ r' ∈ ((World.initial.step id (.export (exportRequest "a" (some (may 2 (by decide)))))).step id
          (.export (exportRequest "b" (some (may 3 (by decide)))))).rows,
          ∃ e ∈ r'.expiresAt, e ≤ may 3 (by decide) := by decide +kernel
      exact hall r' hr'
    · decide +kernel
    · decide +kernel
  exact ⟨hrun, cleanups_respect_exports Function.injective_id hrun⟩

/-- A temporary export, then a permanent one over the same path with the same content: the cleanup after the first has
    expired removes the file. -/
theorem permanent_export_removed :
    ¬∀ c ∈ (World.initial.run id (exportsThenCleanup none)).cleanups,
      Respects c.exported c.now c.before c.after := by
  have hremoved : ∃ c ∈ (World.initial.run id (exportsThenCleanup none)).cleanups,
      (∃ r ∈ c.before.rows, r.path = "/app/.env".toList ∧ r.cleanedAt = none ∧ r.expiresAt = none) ∧
        c.before.files "/app/.env".toList ≠ .absent ∧ c.after.files "/app/.env".toList = .absent := by decide +kernel
  intro hall
  obtain ⟨c, hc, ⟨r, hr, hpath, hopen, hpermanent⟩, hthere, hgone⟩ := hremoved
  obtain ⟨e, he, -⟩ := ((hall c hc).removes _ ⟨r, hr, hpath⟩ hthere hgone).noneLive r hr hpath hopen
  rw [hpermanent] at he
  cases he

end Tethra.Exports
