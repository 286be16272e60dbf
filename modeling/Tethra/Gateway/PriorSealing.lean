import Tethra.Gateway.ApplyLink
import Tethra.Lib.Runs

set_option autoImplicit false

/-! # What a restore record keeps (`gateway/src/envlink.rs`)

A restore record is written by a link, which seals a fresh record and merges it over the stored one, and
by the scrub of records of older builds. Each of them keeps what a variable was first found with
(`Keeps`), and leaves no plaintext value in the fields for the prior state. -/

namespace Tethra.Gateway

open Text Tethra.Core.EnvFile

/-! ## The writers -/

/-- The part of `applyLink` that writes to the database. An error leaves what was written before it; the
    files are written after it. -/
def recordLink (env : Env) (disk : Disk) (db : Db) (crypto : Option RestoreCrypto)
    (req : LinkRequest) (approved : LinkPlan) (fresh : Str) :
    Db × Except CoreError (LinkPlan × PriorEnv) :=
  match planLinkWithSlug env disk db req approved.linkSlug fresh with
  | .error e => (db, .error e)
  | .ok replanned =>
      if replanned.digest ≠ approved.digest then
        (db, .error (.invalidInput
          ("the environment files changed since the preview; re-run the link to see "
            ++ "the current diff").toList))
      else
        match ensureLinkRow db req replanned with
        | .error e => (db, .error e)
        | .ok db =>
            match sealPriorFiles crypto replanned.linkSlug (replanned.files.map FilePlan.prior),
              existingPrior db crypto replanned.linkSlug with
            | .error e, _ => (db, .error e)
            | .ok _, .error e => (db, .error e)
            | .ok fresh, .ok stored =>
                let prior : PriorEnv :=
                  { v := priorEnvVersion, port := replanned.port, files := mergePrior stored fresh }
                (updateLinkEnv db replanned.linkSlug (replanned.files.head?.map FilePlan.path)
                  (some prior), .ok (replanned, prior))

/-- A link is its part on the database, then the files. -/
theorem applyLink_eq_recordLink (env : Env) (disk : Disk) (db : Db) (crypto : Option RestoreCrypto)
    (req : LinkRequest) (approved : LinkPlan) (fresh : Str) :
    applyLink env disk db crypto req approved fresh = (do
      let (plan, prior) ← (recordLink env disk db crypto req approved fresh).2
      let disk' ← plan.files.foldlM writePlanned disk
      pure (disk', (recordLink env disk db crypto req approved fresh).1, prior)) := by
  unfold applyLink recordLink
  cases planLinkWithSlug env disk db req approved.linkSlug fresh with
  | error e => rfl
  | ok plan =>
      dsimp only [bind, Except.bind]
      split
      · rfl
      · cases ensureLinkRow db req plan with
        | error e => rfl
        | ok db₁ =>
            dsimp only
            cases sealPriorFiles crypto plan.linkSlug (plan.files.map FilePlan.prior) with
            | error e => rfl
            | ok sealedFiles =>
                dsimp only
                cases existingPrior db₁ crypto plan.linkSlug with
                | error e => rfl
                | ok stored => rfl

/-- What a link leaves in the database: the table as it was, with the new row at most, or the record in
    the row of its slug. -/
theorem recordLink_cases (env : Env) (disk : Disk) (db : Db) (crypto : Option RestoreCrypto)
    (req : LinkRequest) (approved : LinkPlan) (fresh : Str) :
    (∃ db₁ e, recordLink env disk db crypto req approved fresh = (db₁, .error e) ∧
      (db₁ = db ∨ ∃ plan, planLinkWithSlug env disk db req approved.linkSlug fresh = .ok plan ∧
        ensureLinkRow db req plan = .ok db₁)) ∨
    ∃ plan db₁ sealedFiles stored,
      planLinkWithSlug env disk db req approved.linkSlug fresh = .ok plan ∧
      ensureLinkRow db req plan = .ok db₁ ∧
      sealPriorFiles crypto plan.linkSlug (plan.files.map FilePlan.prior) = .ok sealedFiles ∧
      existingPrior db₁ crypto plan.linkSlug = .ok stored ∧
      recordLink env disk db crypto req approved fresh =
        (updateLinkEnv db₁ plan.linkSlug (plan.files.head?.map FilePlan.path)
          (some ⟨priorEnvVersion, plan.port, mergePrior stored sealedFiles⟩),
          .ok (plan, ⟨priorEnvVersion, plan.port, mergePrior stored sealedFiles⟩)) := by
  unfold recordLink
  cases hplan : planLinkWithSlug env disk db req approved.linkSlug fresh with
  | error e => exact .inl ⟨db, e, rfl, .inl rfl⟩
  | ok plan =>
      dsimp only
      split
      · exact .inl ⟨db, _, rfl, .inl rfl⟩
      · cases hensure : ensureLinkRow db req plan with
        | error e => exact .inl ⟨db, e, rfl, .inl rfl⟩
        | ok db₁ =>
            dsimp only
            cases hseal : sealPriorFiles crypto plan.linkSlug (plan.files.map FilePlan.prior) with
            | error e => exact .inl ⟨db₁, e, rfl, .inr ⟨plan, rfl, hensure⟩⟩
            | ok sealedFiles =>
                cases hstored : existingPrior db₁ crypto plan.linkSlug with
                | error e => exact .inl ⟨db₁, e, rfl, .inr ⟨plan, rfl, hensure⟩⟩
                | ok stored => exact .inr ⟨plan, db₁, sealedFiles, stored, rfl, hensure, hseal, hstored, rfl⟩

/-- Re-seal a stored record, or redact it without a key. -/
def resealFiles (crypto : Option RestoreCrypto) (slug : Str) (files : List PriorFile) :
    Except CoreError (List PriorFile) :=
  match crypto with
  | some _ => sealPriorFiles crypto slug files
  | none => pure (redactAllPlaintext files)

def hadPlaintext (prior : PriorEnv) : Bool :=
  prior.files.any fun f => f.vars.any fun v => v.prior.isSome || !v.priorAll.isEmpty

/-- The record of a link is written, and nothing else. -/
def writePriorEnv (db : Db) (slug : Str) (prior : PriorEnv) : Db :=
  let record := fun row : ProjectLinkRow => { row with priorEnv := some prior }
  { db with links := Keyed.modify ProjectLinkRow.linkSlug slug record db.links }

/-- The loop of the scrub: an error ends it, and what was rewritten so far stays. -/
def scrubRows (crypto : Option RestoreCrypto) :
    List (Str × PriorEnv) → Db → Nat → Db × Except CoreError Nat
  | [], db, scrubbed => (db, .ok scrubbed)
  | (slug, prior) :: rows, db, scrubbed =>
      if priorEnvVersion < prior.v || !hadPlaintext prior then scrubRows crypto rows db scrubbed
      else
        match resealFiles crypto slug prior.files with
        | .error e => (db, .error e)
        | .ok files =>
            scrubRows crypto rows
              (writePriorEnv db slug { prior with v := priorEnvVersion, files }) (scrubbed + 1)

/-- `scrub_stored_prior_env`: upgrade every stored restore record so it holds no plaintext value. -/
def scrubStoredPriorEnv (db : Db) (crypto : Option RestoreCrypto) : Db × Except CoreError Nat :=
  scrubRows crypto (db.links.filterMap fun row => row.priorEnv.map (row.linkSlug, ·)) db 0

theorem existingPrior_eq (db : Db) (crypto : Option RestoreCrypto) (slug : Str) :
    existingPrior db crypto slug =
      match (db.links.find? (·.linkSlug = slug)).bind ProjectLinkRow.priorEnv with
      | none => .ok []
      | some prior => (do
          checkPriorEnvVersion prior.v
          resealFiles crypto slug prior.files) := by
  unfold existingPrior resealFiles
  cases crypto with
  | none => rfl
  | some c => rfl

/-! ## What is kept of one variable -/

/-- Nothing of the prior state is in the clear. -/
def PriorVar.Veiled (v : PriorVar) : Prop := v.prior = none ∧ v.priorAll = []

/-- `stored` records the variable as it was `found`: a value found in the clear is sealed, or withheld;
    what was sealed or withheld stays so, and what had no value has none. -/
structure Keeps (c : RestoreCrypto) (slug path : Str) (found stored : PriorVar) : Prop where
  key : stored.key = found.key
  value : ∀ x, found.prior = some x → found.sealed = none → found.sealedAll = [] →
    (stored.priorWithheld = true ∧ stored.sealed = none) ∨
      ∃ ct, stored.sealed = some ct ∧ c.openValue slug path found.key ct = .ok x
  values : found.sealed = none → found.sealedAll = [] →
    stored.sealedAll = [] ∨
      List.Forall₂ (fun x ct => c.openValue slug path found.key ct = .ok x) found.priorAll
        stored.sealedAll
  sealed : found.sealed.isSome = true ∨ found.sealedAll ≠ [] →
    stored.sealed = found.sealed ∧ stored.sealedAll = found.sealedAll
  withheld : found.priorWithheld = true → stored.priorWithheld = true
  absent : found.prior = none → found.sealed = none → stored.sealed = none

/-- The two records differ in what was written at most. -/
def SamePrior (v w : PriorVar) : Prop := w = { v with written := w.written }

theorem SamePrior.trans {u v w : PriorVar} (h : SamePrior u v) (h' : SamePrior v w) :
    SamePrior u w := by
  unfold SamePrior at h h' ⊢
  rw [h', h]

theorem Keeps.samePrior {c : RestoreCrypto} {slug path : Str} {found v w : PriorVar}
    (h : Keeps c slug path found v) (hw : SamePrior v w) : Keeps c slug path found w := by
  rw [hw]
  exact ⟨h.key, h.value, h.values, h.sealed, h.withheld, h.absent⟩

/-- What a pass over one variable does: it keeps the variable, veils it, and leaves a veiled one alone. -/
structure Veils (c : RestoreCrypto) (slug path : Str) (v w : PriorVar) : Prop where
  keeps : Keeps c slug path v w
  veiled : w.Veiled
  written : w.written = v.written
  same : v.Veiled → w = v

theorem opens_of_mapM {c : RestoreCrypto} {slug path key : Str} {xs : List Str}
    {cts : List SealedValue} (h : xs.mapM (c.sealValue slug path key) = .ok cts) :
    List.Forall₂ (fun x ct => c.openValue slug path key ct = .ok x) xs cts :=
  (forall₂_of_mapM h).imp fun _ _ hseal => c.open_seal hseal

theorem veils_sealPriorVar {c : RestoreCrypto} {slug path : Str} {v w : PriorVar}
    (h : sealPriorVar (some c) slug path v = .ok w) : Veils c slug path v w := by
  unfold sealPriorVar at h
  dsimp only at h
  split at h
  · rename_i hsealed
    obtain rfl := Except.ok.inj h
    have hany : v.sealed ≠ none ∨ v.sealedAll ≠ [] := by simpa [Option.isSome_iff_ne_none] using hsealed
    refine ⟨⟨rfl, ?_, ?_, fun _ => ⟨rfl, rfl⟩, id, fun _ => id⟩, ⟨rfl, rfl⟩, rfl, ?_⟩
    · exact fun _ _ hs hall => (hany.elim (absurd hs) (absurd hall))
    · exact fun _ hall => .inl hall
    · rintro ⟨hp, hall⟩
      rw [← hp, ← hall]
  · rename_i hsealed
    have hnone : v.sealed = none ∧ v.sealedAll = [] := by simpa using hsealed
    obtain ⟨one, hone, hrest⟩ := bind_eq_ok.1 h
    obtain ⟨all, hall, hpure⟩ := bind_eq_ok.1 hrest
    obtain rfl := Except.ok.inj hpure
    refine ⟨⟨rfl, ?_, ?_, ?_, id, ?_⟩, ⟨rfl, rfl⟩, rfl, ?_⟩
    · intro x hx _ _
      rw [hx, Option.mapM_some] at hone
      obtain ⟨ct, hct, hpure⟩ := bind_eq_ok.1 hone
      exact .inr ⟨ct, (Except.ok.inj hpure).symm, c.open_seal hct⟩
    · exact fun _ _ => .inr (opens_of_mapM hall)
    · rintro (hs | hs)
      · rw [hnone.1] at hs
        cases hs
      · exact absurd hnone.2 hs
    · intro hp _
      rw [hp, Option.mapM_none] at hone
      exact (Except.ok.inj hone).symm
    · rintro ⟨hp, hpall⟩
      rw [hp, Option.mapM_none] at hone
      rw [hpall, List.mapM_nil] at hall
      rw [← Except.ok.inj hone, ← Except.ok.inj hall, ← hnone.1, ← hnone.2, ← hp, ← hpall]

theorem veils_redactPriorVar (c : RestoreCrypto) (slug path : Str) (v : PriorVar) :
    Veils c slug path v (redactPriorVar v) := by
  unfold redactPriorVar
  split
  · rename_i hplain
    refine ⟨⟨rfl, ?_, ?_, fun _ => ⟨rfl, rfl⟩, fun _ => rfl, fun _ => id⟩, ⟨rfl, rfl⟩, rfl, ?_⟩
    · exact fun _ _ hs _ => .inl ⟨rfl, hs⟩
    · exact fun _ hall => .inl hall
    · rintro ⟨hp, hall⟩
      simp [hp, hall] at hplain
  · rename_i hplain
    have hnone : v.prior = none ∧ v.priorAll = [] := by simpa using hplain
    refine ⟨⟨rfl, ?_, ?_, fun _ => ⟨rfl, rfl⟩, id, fun _ => id⟩, hnone, rfl, fun _ => rfl⟩
    · intro x hx
      rw [hnone.1] at hx
      cases hx
    · exact fun _ hall => .inl hall

/-- Without a key, what a plan found is withheld. -/
theorem keeps_withheld {c : RestoreCrypto} {slug path key written : Str} {prior : Option Str}
    {priorAll : List Str} {w : PriorVar}
    (h : sealPriorVar none slug path (.fresh key prior priorAll written) = .ok w) :
    Keeps c slug path (.fresh key prior priorAll written) w ∧ w.Veiled ∧ w.written = written := by
  cases prior with
  | none =>
      obtain rfl := Except.ok.inj h
      refine ⟨⟨rfl, ?_, fun _ _ => .inl rfl, ?_, id, fun _ _ => rfl⟩, ⟨rfl, rfl⟩, rfl⟩
      · intro x hx
        cases hx
      · rintro (hs | hs)
        · cases hs
        · exact absurd rfl hs
  | some x =>
      obtain rfl := Except.ok.inj h
      refine ⟨⟨rfl, fun _ _ _ _ => .inl ⟨rfl, rfl⟩, fun _ _ => .inl rfl, ?_, fun _ => rfl, ?_⟩,
        ⟨rfl, rfl⟩, rfl⟩
      · rintro (hs | hs)
        · cases hs
        · exact absurd rfl hs
      · intro hp
        cases hp

/-! ## What is kept of a record -/

/-- The first entry of a variable in the records of a path. -/
def foundVar (files : List PriorFile) (path key : Str) : Option PriorVar :=
  (files.flatMap fun f => if f.path = path then f.vars else []).find? (·.key = key)

/-- A record of the path has `v` as its entry of the variable. -/
def Holds (files : List PriorFile) (path key : Str) (v : PriorVar) : Prop :=
  ∃ f ∈ files, f.path = path ∧ f.vars.find? (·.key = key) = some v

/-- The records keep what the variables were found with, path by path and key by key. -/
structure Faithful (c : RestoreCrypto) (slug : Str) (found files : List PriorFile) : Prop where
  paths : (files.map PriorFile.path).Nodup
  kept : ∀ path key v₀, foundVar found path key = some v₀ →
    ∃ v, Holds files path key v ∧ Keeps c slug path v₀ v
  only : ∀ path key v, Holds files path key v → (foundVar found path key).isSome = true

theorem foundVar_append (a b : List PriorFile) (path key : Str) :
    foundVar (a ++ b) path key = (foundVar a path key).or (foundVar b path key) := by
  rw [foundVar, List.flatMap_append, List.find?_append]
  rfl

theorem foundVar_singleton (f : PriorFile) (path key : Str) :
    foundVar [f] path key = if f.path = path then f.vars.find? (·.key = key) else none := by
  rw [foundVar, List.flatMap_singleton]
  split <;> rfl

theorem foundVar_isSome_of_holds {files : List PriorFile} {path key : Str} {v : PriorVar}
    (h : Holds files path key v) : (foundVar files path key).isSome = true := by
  obtain ⟨f, hf, hpath, hv⟩ := h
  rw [foundVar, List.find?_isSome]
  have hkey : decide (v.key = key) = true := List.find?_some (p := fun v : PriorVar => decide (v.key = key)) hv
  refine ⟨v, List.mem_flatMap.2 ⟨f, hf, ?_⟩, hkey⟩
  rw [if_pos hpath]
  exact List.mem_of_find?_eq_some hv

theorem holds_of_foundVar {files : List PriorFile} (hpaths : (files.map PriorFile.path).Nodup)
    {path key : Str} {v : PriorVar} (h : foundVar files path key = some v) :
    Holds files path key v := by
  induction files with
  | nil => cases h
  | cons f files ih =>
      obtain ⟨hf, hpaths'⟩ := List.nodup_cons.1 hpaths
      rw [← List.singleton_append, foundVar_append, foundVar_singleton] at h
      by_cases hpath : f.path = path
      · rw [if_pos hpath] at h
        cases hv : f.vars.find? (·.key = key) with
        | some w =>
            rw [hv, Option.some_or] at h
            exact ⟨f, List.mem_cons_self .., hpath, hv.trans h⟩
        | none =>
            rw [hv, Option.none_or] at h
            obtain ⟨g, hg, hgp, -⟩ := ih hpaths' h
            exact absurd (List.mem_map.2 ⟨g, hg, hgp.trans hpath.symm⟩) hf
      · rw [if_neg hpath, Option.none_or] at h
        obtain ⟨g, hg, hgp, hgv⟩ := ih hpaths' h
        exact ⟨g, List.mem_cons_of_mem _ hg, hgp, hgv⟩

/-! ## Passes over records -/

/-- Two records of one file correspond variable by variable. -/
def FileRel (R : Str → PriorVar → PriorVar → Prop) (f g : PriorFile) : Prop :=
  g = { f with vars := g.vars } ∧ List.Forall₂ (R f.path) f.vars g.vars

theorem FileRel.path {R : Str → PriorVar → PriorVar → Prop} {f g : PriorFile} (h : FileRel R f g) :
    g.path = f.path := by
  rw [h.1]

theorem find?_of_forall₂ {R : PriorVar → PriorVar → Prop} (hkey : ∀ v w, R v w → w.key = v.key)
    {vs ws : List PriorVar} (h : List.Forall₂ R vs ws) (key : Str) :
    (vs.find? (·.key = key) = none ∧ ws.find? (·.key = key) = none) ∨
      ∃ v w, vs.find? (·.key = key) = some v ∧ ws.find? (·.key = key) = some w ∧ R v w := by
  induction h with
  | nil => exact .inl ⟨rfl, rfl⟩
  | @cons v w vs ws hvw _ ih =>
      have hk := hkey v w hvw
      by_cases hv : v.key = key
      · exact .inr ⟨v, w, by simp [hv], by simp [hk, hv], hvw⟩
      · have hw : w.key ≠ key := hk ▸ hv
        rw [List.find?_cons_of_neg (by simpa using hv), List.find?_cons_of_neg (by simpa using hw)]
        exact ih

theorem fileRel_of_sealPriorFile {crypto : Option RestoreCrypto} {slug : Str} {f g : PriorFile}
    (h : sealPriorFile crypto slug f = .ok g) :
    FileRel (fun path v w => sealPriorVar crypto slug path v = .ok w) f g := by
  obtain ⟨vars, hvars, hpure⟩ := bind_eq_ok.1 h
  obtain rfl := Except.ok.inj hpure
  exact ⟨rfl, forall₂_of_mapM hvars⟩

theorem fileRel_of_resealFiles {c : RestoreCrypto} {keyed : Bool} {slug : Str}
    {files files' : List PriorFile}
    (h : resealFiles (if keyed then some c else none) slug files = .ok files') :
    List.Forall₂ (FileRel (Veils c slug)) files files' := by
  cases keyed with
  | true =>
      refine (forall₂_of_mapM h).imp fun f g hfg => ?_
      obtain ⟨hpath, hvars⟩ := fileRel_of_sealPriorFile hfg
      exact ⟨hpath, hvars.imp fun _ _ hseal => veils_sealPriorVar hseal⟩
  | false =>
      obtain rfl := Except.ok.inj h
      unfold redactAllPlaintext
      rw [List.forall₂_map_right_iff, List.forall₂_same]
      intro f _
      refine ⟨rfl, ?_⟩
      rw [List.forall₂_map_right_iff, List.forall₂_same]
      exact fun v _ => veils_redactPriorVar c slug f.path v

theorem paths_of_fileRel {R : Str → PriorVar → PriorVar → Prop} {fs gs : List PriorFile}
    (h : List.Forall₂ (FileRel R) fs gs) : gs.map PriorFile.path = fs.map PriorFile.path :=
  (map_eq_of_forall₂ h fun _ _ hfg => hfg.path.symm).symm

theorem holds_of_fileRel {R : Str → PriorVar → PriorVar → Prop}
    (hkey : ∀ path v w, R path v w → w.key = v.key) {fs gs : List PriorFile}
    (h : List.Forall₂ (FileRel R) fs gs) {path key : Str} :
    (∀ v, Holds fs path key v → ∃ w, Holds gs path key w ∧ R path v w) ∧
      ∀ w, Holds gs path key w → ∃ v, Holds fs path key v ∧ R path v w := by
  constructor
  · rintro v ⟨f, hf, rfl, hv⟩
    obtain ⟨g, hg, hfg⟩ := exists_right_of_forall₂ h hf
    rcases find?_of_forall₂ (hkey f.path) hfg.2 key with ⟨hnone, -⟩ | ⟨v', w, hv', hw, hR⟩
    · rw [hnone] at hv
      cases hv
    · obtain rfl := Option.some.inj (hv'.symm.trans hv)
      exact ⟨w, ⟨g, hg, hfg.path, hw⟩, hR⟩
  · rintro w ⟨g, hg, hpath, hw⟩
    obtain ⟨f, hf, hfg⟩ := exists_left_of_forall₂ h hg
    obtain rfl : f.path = path := hfg.path.symm.trans hpath
    rcases find?_of_forall₂ (hkey f.path) hfg.2 key with ⟨-, hnone⟩ | ⟨v, w', hv, hw', hR⟩
    · rw [hnone] at hw
      cases hw
    · obtain rfl := Option.some.inj (hw'.symm.trans hw)
      exact ⟨v, ⟨f, hf, rfl, hv⟩, hR⟩

/-- A first pass over a record keeps what it holds. -/
theorem faithful_of_veils {c : RestoreCrypto} {slug : Str} {fs gs : List PriorFile}
    (hpaths : (fs.map PriorFile.path).Nodup) (h : List.Forall₂ (FileRel (Veils c slug)) fs gs) :
    Faithful c slug fs gs where
  paths := by rwa [paths_of_fileRel h]
  kept path key v₀ hv₀ := by
    obtain ⟨w, hw, hveils⟩ := (holds_of_fileRel (fun _ _ _ h => h.keeps.key) h).1 v₀
      (holds_of_foundVar hpaths hv₀)
    exact ⟨w, hw, hveils.keeps⟩
  only path key w hw := by
    obtain ⟨v, hv, -⟩ := (holds_of_fileRel (fun _ _ _ h => h.keeps.key) h).2 w hw
    exact foundVar_isSome_of_holds hv

/-- A pass over veiled records changes nothing. -/
theorem eq_of_veils {c : RestoreCrypto} {slug : Str} {fs gs : List PriorFile}
    (hveiled : ∀ f ∈ fs, ∀ v ∈ f.vars, v.Veiled) (h : List.Forall₂ (FileRel (Veils c slug)) fs gs) :
    gs = fs := by
  have hvars : ∀ {path : Str} {vs ws : List PriorVar}, (∀ v ∈ vs, v.Veiled) →
      List.Forall₂ (Veils c slug path) vs ws → ws = vs := by
    intro path vs ws hvs hvw
    induction hvw with
    | nil => rfl
    | cons hvw _ ih =>
        rw [hvw.same (hvs _ (List.mem_cons_self ..)), ih fun v hv => hvs v (List.mem_cons_of_mem _ hv)]
  induction h with
  | nil => rfl
  | cons hfg _ ih =>
      rw [ih fun f hf => hveiled f (List.mem_cons_of_mem _ hf), hfg.1,
        hvars (hveiled _ (List.mem_cons_self ..)) hfg.2]

/-! ## The link table over a run -/

/-- A link writes proper variables, and its marker is one line. -/
structure LinkRequest.Proper (env : Env) (db : Db) (req : LinkRequest) : Prop where
  vars : ∀ providerId vars, linkVars env providerId req.varOverride = .ok vars → LinkVars vars
  provider : ∀ custom providerId, routeProvider db req.routePrefix = some (providerId, custom) → '\n' ∉ providerId
  project : '\n' ∉ req.projectName

/-- What changes the link table, failures included. -/
inductive LinkStep (env : Env) (db : Db) : Db → Prop where
  | link (disk : Disk) (crypto : Option RestoreCrypto) {req : LinkRequest} (approved : LinkPlan) (fresh : Str)
      (h : req.Proper env db) : LinkStep env db (recordLink env disk db crypto req approved fresh).1
  | unlink (disk : Disk) (crypto : Option RestoreCrypto) (projectId prefix_ : Str) :
      LinkStep env db (unlink disk db crypto projectId prefix_).2.1
  | scrub (crypto : Option RestoreCrypto) : LinkStep env db (scrubStoredPriorEnv db crypto).1
  /-- A project or a route goes, with its links, or something else of the database changes. -/
  | drop {db' : Db} (h : db'.links.Sublist db.links) : LinkStep env db db'

/-- The constraints of the link table hold, and each record is distinct. -/
structure Db.LinksSound (db : Db) : Prop where
  wellFormed : db.WellFormed
  distinct : db.RecordsDistinct

section

variable {env : Env} {disk : Disk} {db db' : Db} {crypto : Option RestoreCrypto} {req : LinkRequest}
  {slug fresh : Str} {plan : LinkPlan}

theorem Db.LinksSound.sublist (h : db.LinksSound) (hsub : db'.links.Sublist db.links) : db'.LinksSound :=
  ⟨⟨(hsub.map _).nodup h.wellFormed.slug, (hsub.map _).nodup h.wellFormed.pair⟩,
    fun row hrow => h.distinct row (hsub.subset hrow)⟩

theorem Db.LinksSound.record (h : db.LinksSound) (slug : Str) {g : ProjectLinkRow → ProjectLinkRow}
    (hslug : ∀ row, (g row).linkSlug = row.linkSlug)
    (hpair : ∀ row, ((g row).projectId, (g row).routePrefix) = (row.projectId, row.routePrefix))
    (hfiles : ∀ row, Distinct (g row).files) :
    { db with links := Keyed.modify ProjectLinkRow.linkSlug slug g db.links }.LinksSound := by
  refine ⟨h.wellFormed.modify slug hslug hpair, fun row hrow => ?_⟩
  obtain ⟨x, hx, rfl⟩ := Keyed.mem_modify.1 hrow
  split
  · exact hfiles x
  · exact h.distinct x hx

/-- Sealing and redacting leave the paths and the keys. -/
theorem Distinct.resealFiles {files files' : List PriorFile}
    (hfiles : Distinct files) (h : resealFiles crypto slug files = .ok files') : Distinct files' := by
  have hsame : List.Forall₂ (fun f g : PriorFile =>
      (f.path, f.vars.map PriorVar.key) = (g.path, g.vars.map PriorVar.key)) files files' := by
    cases crypto with
    | none =>
        obtain rfl := Except.ok.inj h
        refine List.forall₂_map_right_iff.2 (List.forall₂_same.2 fun f _ => Prod.ext rfl ?_)
        rw [List.map_map]
        refine List.map_congr_left fun v _ => ?_
        rw [Function.comp_apply, redactPriorVar]
        split <;> rfl
    | some c =>
        refine (forall₂_of_mapM h).imp fun f g hfg => ?_
        obtain ⟨hpath, hkeys⟩ := sealPriorFile_same hfg
        exact Prod.ext hpath.symm hkeys.symm
  refine ⟨?_, fun g hg => ?_⟩
  · rw [← map_eq_of_forall₂ hsame fun f g hfg => congrArg Prod.fst hfg]
    exact hfiles.paths
  · obtain ⟨f, hf, hfg⟩ := exists_left_of_forall₂ hsame hg
    rw [← (Prod.mk.inj hfg).2]
    exact hfiles.keys f hf

theorem Db.LinksSound.ensureLinkRow (h : db.LinksSound) (hplan : planLinkWithSlug env disk db req slug fresh = .ok plan)
    (hensure : Gateway.ensureLinkRow db req plan = .ok db') : db'.LinksSound := by
  refine ⟨h.wellFormed.ensureLinkRow (plannedWith_of_planLinkWithSlug hplan).existing hensure, ?_⟩
  rcases ensureLinkRow_eq_ok hensure with ⟨-, rfl⟩ | ⟨-, -, hlinks⟩
  · exact h.distinct
  · intro row hrow
    rw [hlinks] at hrow
    rcases List.mem_append.1 hrow with hrow | hrow
    · exact h.distinct row hrow
    · rw [List.mem_singleton.1 hrow]
      exact ⟨List.nodup_nil, fun _ hf => by cases hf⟩

theorem Db.LinksSound.recordLink (h : db.LinksSound) (hreq : req.Proper env db) :
    (Gateway.recordLink env disk db crypto req plan fresh).1.LinksSound := by
  rcases recordLink_cases env disk db crypto req plan fresh with
    ⟨db₁, e, hrun, rfl | ⟨plan, hplan, hensure⟩⟩ | ⟨plan, db₁, sealedFiles, stored, hplan, hensure, hseal, hstored, hrun⟩
  · rw [hrun]
    exact h
  · rw [hrun]
    exact h.ensureLinkRow hplan hensure
  · have hspec := plannedWith_of_planLinkWithSlug hplan
    have hrow := h.ensureLinkRow hplan hensure
    have hkept : Distinct stored := by
      rw [existingPrior_eq] at hstored
      split at hstored
      · obtain rfl := Except.ok.inj hstored
        exact ⟨List.nodup_nil, fun _ hf => by cases hf⟩
      · rename_i prior hprior
        obtain ⟨row, hmem, hp⟩ := Option.bind_eq_some_iff.1 hprior
        obtain ⟨_, -, hreseal⟩ := bind_eq_ok.1 hstored
        have hfiles := hrow.distinct row (List.mem_of_find?_eq_some hmem)
        rw [ProjectLinkRow.files, hp] at hfiles
        exact Distinct.resealFiles hfiles hreseal
    have hfresh : ∀ f ∈ sealedFiles, (f.vars.map PriorVar.key).Nodup := by
      intro f hf
      obtain ⟨g, hg, hsame⟩ := exists_left_of_forall₂ (forall₂_of_mapM hseal) hf
      obtain ⟨file, hfile, rfl⟩ := List.mem_map.1 hg
      obtain ⟨custom, hroute⟩ := hspec.route
      have hlink := hreq.vars _ _ hspec.vars
      have hm := markerLine_markerComment (hreq.provider custom _ hroute) hreq.project
      obtain ⟨-, -, hrecords⟩ := planFile_eq_ok (hspec.files file hfile)
      have hplanned : Planned hm _ (linkItems plan.vars plan.baseUrl _) _ :=
        planDocument_spec hlink hm (faithful_parse file.oldContent)
      rw [(sealPriorFile_same hsame).2, hrecords, hplanned.records, List.map_map]
      exact nodup_linkItems hlink plan.baseUrl (EnvDocument.parse file.oldContent)
    rw [hrun]
    exact hrow.record _ (fun _ => rfl) (fun _ => rfl) fun _ => distinct_mergePrior hkept.keys hfresh

theorem Db.LinksSound.scrubRows {rows : List (Str × PriorEnv)} {n : Nat} (h : db.LinksSound) (hrows : ∀ r ∈ rows, Distinct r.2.files) : (Gateway.scrubRows crypto rows db n).1.LinksSound := by
  induction rows generalizing db n with
  | nil => exact h
  | cons r rows ih =>
      obtain ⟨slug, prior⟩ := r
      obtain ⟨hprior, hrest⟩ := List.forall_mem_cons.1 hrows
      unfold Gateway.scrubRows
      split
      · exact ih h hrest
      · cases hreseal : Gateway.resealFiles crypto slug prior.files with
        | error e => exact h
        | ok files =>
            refine ih (h.record slug (fun _ => rfl) (fun _ => rfl) fun _ => ?_) hrest
            exact Distinct.resealFiles hprior hreseal

theorem Db.LinksSound.step (h : db.LinksSound) (hstep : LinkStep env db db') : db'.LinksSound := by
  cases hstep with
  | link disk crypto approved fresh hreq => exact h.recordLink hreq
  | unlink disk crypto projectId prefix_ =>
      refine h.sublist ?_
      unfold Gateway.unlink
      split
      · exact .refl _
      · split
        · exact .refl _
        · split
          · exact .refl _
          · exact List.filter_sublist
  | scrub crypto =>
      refine h.scrubRows fun r hr => ?_
      obtain ⟨row, hrow, hr⟩ := List.mem_filterMap.1 hr
      obtain ⟨prior, hprior, rfl⟩ := Option.map_eq_some_iff.1 hr
      have hfiles := h.distinct row hrow
      rwa [ProjectLinkRow.files, hprior] at hfiles
  | drop hsub => exact h.sublist hsub

/-- Whatever links, unlinks and scrubs a link table has seen, failed ones included: its constraints hold, and an unlink
    finds records that name each path and variable once. -/
theorem linksSound_of_steps {start : Db} (hstart : start.links = []) (hrun : Runs.Steps (LinkStep env) start db) :
    db.LinksSound :=
  hrun.invariant (fun _ _ h => h.step) (by
    refine ⟨⟨?_, ?_⟩, fun row hrow => ?_⟩
    · simp [hstart]
    · simp [hstart]
    · rw [hstart] at hrow
      cases hrow)

end

theorem linksSound_of_steps_groq : ∃ db, Runs.Steps (LinkStep manifestEnv) (groqDbWith []) db ∧
    db.links.map ProjectLinkRow.linkSlug = ["web-1".toList] ∧ db.LinksSound := by
  obtain ⟨⟨approved, disk, db, prior⟩, happly, hslugs⟩ := exists_ok_of_map (by decide +kernel :
    (applyGroq []).toOption.map (fun r => r.2.2.1.links.map ProjectLinkRow.linkSlug) = some ["web-1".toList])
  have hdone := (applyGroq_eq_ok happly).2
  rw [applyLink_eq_recordLink] at hdone
  obtain ⟨_, -, hdone⟩ := bind_eq_ok.1 hdone
  obtain ⟨_, -, hdone⟩ := bind_eq_ok.1 hdone
  have hdb : (recordLink ..).1 = db := congrArg (·.2.1) (Except.ok.inj hdone)
  have hproper : groqRequest.Proper manifestEnv (groqDbWith []) :=
    ⟨fun _ _ h => linkVars_of_manifest rfl h, by rintro _ _ ⟨⟩; decide, by decide⟩
  have hrun : Runs.Steps (LinkStep manifestEnv) (groqDbWith []) db := hdb ▸ .single (.link _ _ _ _ hproper)
  exact ⟨db, hrun, hslugs, linksSound_of_steps rfl hrun⟩

end Tethra.Gateway
