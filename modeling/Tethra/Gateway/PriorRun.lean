import Tethra.Gateway.PriorSealing
import Tethra.Gateway.PriorText

set_option autoImplicit false

/-! # Restore records over a run (`gateway/src/envlink.rs`)

Links, re-links, scrubs and reads in any order, each with the vault key or without, on files that change
between them. What a record keeps of a variable is what its first link found (`recorded_run`): sealed or
withheld, and never replaced. The one text that a record holds in the clear is what was written; it is the
writer's own text unless a `NO_PROXY` list was extended (`ownText_of_quiet`). -/

namespace Tethra.Gateway

open Text Tethra.Core.EnvFile

/-! ## Merging keeps the first record -/

theorem mem_keys_iff_find? {vars : List PriorVar} {key : Str} :
    key ∈ vars.map PriorVar.key ↔ (vars.find? (·.key = key)).isSome = true := by
  simp [List.find?_isSome]

theorem find?_mergeVar_of_some {vars : List PriorVar} (w : PriorVar) {v : PriorVar} {key : Str}
    (h : vars.find? (·.key = key) = some v) :
    ∃ v', (mergeVar vars w).find? (·.key = key) = some v' ∧ SamePrior v v' := by
  unfold mergeVar Keyed.upsert
  split
  · have hkeys : (fun x : PriorVar => decide (x.key = key)) ∘
        (fun x => if x.key = w.key then { x with written := w.written } else x)
        = fun x => decide (x.key = key) := by
      funext x
      dsimp only [Function.comp]
      split <;> rfl
    rw [Keyed.modify, List.find?_map, hkeys, h]
    refine ⟨_, rfl, ?_⟩
    dsimp only
    split <;> rfl
  · exact ⟨v, by rw [List.find?_append, h, Option.some_or], rfl⟩

theorem find?_mergeVar_of_none {vars : List PriorVar} (w : PriorVar) {key : Str}
    (h : vars.find? (·.key = key) = none) :
    (mergeVar vars w).find? (·.key = key) = if w.key = key then some w else none := by
  have hkey : (key ∈ (mergeVar vars w).map PriorVar.key) ↔
      key ∈ vars.map PriorVar.key ∨ key = w.key := by
    refine Keyed.mem_keys_upsert ?_ rfl
    exact fun _ hk => hk
  rw [mem_keys_iff_find?, mem_keys_iff_find?, h] at hkey
  split
  · rename_i hw
    have hnot : vars.any (·.key = w.key) = false := by
      rw [hw]
      simpa using h
    unfold mergeVar Keyed.upsert
    rw [if_neg (by simp [hnot]), List.find?_append, h]
    simp [hw]
  · rename_i hw
    rw [Option.eq_none_iff_forall_ne_some]
    intro v hv
    rw [hv] at hkey
    simpa [Ne.symm hw] using hkey

theorem find?_mergeVars_of_some {vars : List PriorVar} (fresh : List PriorVar) {v : PriorVar}
    {key : Str} (h : vars.find? (·.key = key) = some v) :
    ∃ v', (mergeVars vars fresh).find? (·.key = key) = some v' ∧ SamePrior v v' := by
  induction fresh generalizing vars v with
  | nil => exact ⟨v, h, rfl⟩
  | cons w fresh ih =>
      obtain ⟨v₁, hv₁, hsame₁⟩ := find?_mergeVar_of_some w h
      obtain ⟨v₂, hv₂, hsame₂⟩ := ih hv₁
      exact ⟨v₂, hv₂, hsame₁.trans hsame₂⟩

theorem find?_mergeVars_of_none {fresh vars : List PriorVar} {w : PriorVar} {key : Str}
    (h : vars.find? (·.key = key) = none) (hw : fresh.find? (·.key = key) = some w) :
    ∃ v', (mergeVars vars fresh).find? (·.key = key) = some v' ∧ SamePrior w v' := by
  induction fresh generalizing vars with
  | nil => cases hw
  | cons u fresh ih =>
      have hstep := find?_mergeVar_of_none u h
      by_cases hu : u.key = key
      · rw [List.find?_cons_of_pos (by simpa using hu)] at hw
        obtain rfl := Option.some.inj hw
        rw [if_pos hu] at hstep
        exact find?_mergeVars_of_some fresh hstep
      · rw [List.find?_cons_of_neg (by simpa using hu)] at hw
        rw [if_neg hu] at hstep
        exact ih hstep hw

/-- Merging the record of a file keeps what was found before, and adds what the file was found with. -/
theorem Faithful.mergeFile {c : RestoreCrypto} {slug : Str} {found files : List PriorFile}
    (h : Faithful c slug found files) {f s : PriorFile} (hs : FileRel (Keeps c slug) f s) :
    Faithful c slug (found ++ [f]) (mergeFile files s) where
  paths := Keyed.nodup_keys_upsert (fun _ hx => hx) rfl h.paths
  kept path key v₀ hv₀ := by
    rw [foundVar_append, foundVar_singleton] at hv₀
    cases hfound : foundVar found path key with
    | some v =>
        rw [hfound, Option.some_or] at hv₀
        obtain rfl := Option.some.inj hv₀
        obtain ⟨w, ⟨g, hg, hpath, hw⟩, hkeeps⟩ := h.kept path key v hfound
        have hmem : (if g.path = s.path then { g with vars := mergeVars g.vars s.vars } else g) ∈
            Gateway.mergeFile files s := Keyed.mem_upsert_of_mem hg
        split at hmem
        · obtain ⟨w', hw', hsame⟩ := find?_mergeVars_of_some s.vars hw
          exact ⟨w', ⟨_, hmem, hpath, hw'⟩, hkeeps.samePrior hsame⟩
        · exact ⟨w, ⟨g, hmem, hpath, hw⟩, hkeeps⟩
    | none =>
        rw [hfound, Option.none_or] at hv₀
        split at hv₀
        · rename_i hpath
          subst hpath
          rcases find?_of_forall₂ (fun _ _ hk => hk.key) hs.2 key with
            ⟨hnone, -⟩ | ⟨v, w, hv, hw, hkeeps⟩
          · rw [hnone] at hv₀
            cases hv₀
          · obtain rfl := Option.some.inj (hv.symm.trans hv₀)
            have hmerged : (∃ g ∈ files, g.path = s.path ∧
                { g with vars := mergeVars g.vars s.vars } ∈ Gateway.mergeFile files s) ∨
                s ∈ Gateway.mergeFile files s := Keyed.exists_mem_upsert ..
            rcases hmerged with ⟨g, hg, hgp, hmem⟩ | hmem
            · -- the path is recorded, and not this variable of it
              have hnot : g.vars.find? (·.key = key) = none := by
                rw [Option.eq_none_iff_forall_ne_some]
                intro u hu
                have hsome := h.only f.path key u ⟨g, hg, hgp.trans hs.path, hu⟩
                rw [hfound] at hsome
                cases hsome
              obtain ⟨w', hw', hsame⟩ := find?_mergeVars_of_none hnot hw
              exact ⟨w', ⟨_, hmem, hgp.trans hs.path, hw'⟩, hkeeps.samePrior hsame⟩
            · exact ⟨w, ⟨s, hmem, hs.path, hw⟩, hkeeps⟩
        · cases hv₀
  only path key v hv := by
    obtain ⟨g, hg, hpath, hv⟩ := hv
    have hfresh : ∀ w, s.path = path → s.vars.find? (·.key = key) = some w →
        (foundVar (found ++ [f]) path key).isSome = true := by
      intro w hsp hw
      rcases find?_of_forall₂ (fun _ _ hk => hk.key) hs.2 key with
        ⟨-, hnone⟩ | ⟨v, w', hv, -, -⟩
      · rw [hnone] at hw
        cases hw
      · rw [foundVar_append, foundVar_singleton, if_pos (hs.path.symm.trans hsp), hv, Option.isSome_or]
        simp
    have hold : ∀ x ∈ files, x.path = path → ∀ w, x.vars.find? (·.key = key) = some w →
        (foundVar (found ++ [f]) path key).isSome = true := by
      intro x hx hxp w hw
      rw [foundVar_append, Option.isSome_or, h.only path key w ⟨x, hx, hxp, hw⟩, Bool.true_or]
    rcases Keyed.mem_upsert hg with hmem | ⟨x, hx, hxp, rfl⟩ | rfl
    · exact hold g hmem hpath v hv
    · have hkey : key ∈ (mergeVars x.vars s.vars).map PriorVar.key :=
        mem_keys_iff_find?.2 (by rw [hv]; rfl)
      rcases mem_keys_mergeVars.1 hkey with hkey | hkey
      · obtain ⟨w, hw⟩ := Option.isSome_iff_exists.1 (mem_keys_iff_find?.1 hkey)
        exact hold x hx hpath w hw
      · obtain ⟨w, hw⟩ := Option.isSome_iff_exists.1 (mem_keys_iff_find?.1 hkey)
        exact hfresh w (hxp.symm.trans hpath) hw
    · exact hfresh v hpath hv

theorem Faithful.foldl_mergeFile {c : RestoreCrypto} {slug : Str} {fs ss : List PriorFile}
    (hs : List.Forall₂ (FileRel (Keeps c slug)) fs ss) {found files : List PriorFile}
    (h : Faithful c slug found files) :
    Faithful c slug (found ++ fs) (ss.foldl Gateway.mergeFile files) := by
  induction hs generalizing found files with
  | nil => simpa using h
  | cons hfs _ ih => simpa using ih (h.mergeFile hfs)

theorem foldl_insertFile {stored files : List PriorFile}
    (h : ((files ++ stored).map PriorFile.path).Nodup) :
    stored.foldl insertFile files = files ++ stored := by
  induction stored generalizing files with
  | nil => simp
  | cons f stored ih =>
      have hnot : files.any (·.path = f.path) = false := by
        rw [List.map_append, List.nodup_append] at h
        rw [List.any_eq_false]
        intro g hg heq
        exact h.2.2 _ (List.mem_map_of_mem hg) _ (List.mem_map_of_mem (List.mem_cons_self ..))
          (of_decide_eq_true heq)
      have hinsert : insertFile files f = files ++ [f] := by
        rw [insertFile, Keyed.upsert, if_neg (by simp [hnot])]
      rw [List.foldl_cons, hinsert, ih (by simpa using h)]
      simp

theorem Faithful.perm {c : RestoreCrypto} {slug : Str} {found files files' : List PriorFile}
    (h : Faithful c slug found files) (hperm : files'.Perm files) : Faithful c slug found files' where
  paths := ((hperm.map PriorFile.path).nodup_iff).2 h.paths
  kept path key v₀ hv₀ := by
    obtain ⟨v, ⟨f, hf, hv⟩, hkeeps⟩ := h.kept path key v₀ hv₀
    exact ⟨v, ⟨f, hperm.mem_iff.2 hf, hv⟩, hkeeps⟩
  only path key v hv := by
    obtain ⟨f, hf, hv⟩ := hv
    exact h.only path key v ⟨f, hperm.mem_iff.1 hf, hv⟩

/-- Merging fresh records keeps what was found before, and adds what the files were found with. -/
theorem Faithful.mergePrior {c : RestoreCrypto} {slug : Str} {fs ss : List PriorFile}
    (hs : List.Forall₂ (FileRel (Keeps c slug)) fs ss) {found stored : List PriorFile}
    (h : Faithful c slug found stored) : Faithful c slug (found ++ fs) (mergePrior stored ss) := by
  rw [Gateway.mergePrior, foldl_insertFile (by simpa using h.paths), List.nil_append]
  exact (h.foldl_mergeFile hs).perm (List.perm_insertionSort _ _)

/-! ## The run -/

/-- The link table, and what the links of each slug found in their files, in their order. -/
structure LinkWorld where
  db : Db
  found : Str → List PriorFile

/-- The table of an older build: its records are what was found first. -/
def Db.world (db : Db) : LinkWorld where
  db := db
  found slug :=
    (((db.links.find? (·.linkSlug = slug)).bind ProjectLinkRow.priorEnv).map PriorEnv.files).getD []

inductive PriorOp where
  | link (keyed : Bool) (disk : Disk) (req : LinkRequest) (approved : LinkPlan) (fresh : Str)
  | scrub (keyed : Bool)
  | read (keyed : Bool) (slug : Str)

/-- The vault's key, where it is at hand. -/
def keyOf (c : RestoreCrypto) (keyed : Bool) : Option RestoreCrypto := if keyed then some c else none

/-- One operation; a link that commits to a row has found what its plan recorded, a read changes
    nothing. -/
def PriorOp.run (env : Env) (c : RestoreCrypto) : PriorOp → LinkWorld → LinkWorld
  | .link keyed disk req approved fresh, w =>
      match recordLink env disk w.db (keyOf c keyed) req approved fresh with
      | (db, .error _) => { w with db }
      | (db, .ok (plan, _)) =>
          if db.links.any (·.linkSlug = plan.linkSlug) then
            { db, found := Function.update w.found plan.linkSlug
                (w.found plan.linkSlug ++ plan.files.map FilePlan.prior) }
          else { w with db }
  | .scrub keyed, w => { w with db := (scrubStoredPriorEnv w.db (keyOf c keyed)).1 }
  | .read _ _, w => w

/-- Nothing of the prior state is in the clear, and what was written is as `P` says. -/
def Clear (P : Str → Prop) (files : List PriorFile) : Prop :=
  ∀ f ∈ files, ∀ v ∈ f.vars, v.Veiled ∧ P v.written

/-- What holds of the record of a row: it is as it was at the start, or it is clear and keeps what was
    found. -/
def RecordOk (c : RestoreCrypto) (P : Str → Prop) (start : Db) (w : LinkWorld)
    (row : ProjectLinkRow) (rec : PriorEnv) : Prop :=
  (row ∈ start.links ∧ w.found row.linkSlug = rec.files ∧ (rec.files.map PriorFile.path).Nodup ∧
      ∀ f ∈ rec.files, ∀ v ∈ f.vars, P v.written) ∨
    (Clear P rec.files ∧ Faithful c row.linkSlug (w.found row.linkSlug) rec.files)

structure Recorded (c : RestoreCrypto) (P : Str → Prop) (start : Db) (w : LinkWorld) : Prop where
  slugs : (w.db.links.map ProjectLinkRow.linkSlug).Nodup
  rows : ∀ row ∈ w.db.links, ∀ rec, row.priorEnv = some rec → RecordOk c P start w row rec
  unlinked : ∀ slug, (∀ row ∈ w.db.links, row.linkSlug = slug → row.priorEnv = none) →
    w.found slug = []

variable {c : RestoreCrypto} {P : Str → Prop} {start : Db} {w : LinkWorld}

theorem find?_slug {links : List ProjectLinkRow} (h : (links.map ProjectLinkRow.linkSlug).Nodup)
    {row : ProjectLinkRow} (hrow : row ∈ links) :
    links.find? (·.linkSlug = row.linkSlug) = some row := by
  cases hfind : links.find? (·.linkSlug = row.linkSlug) with
  | none =>
      have hnot := List.find?_eq_none.1 hfind row hrow
      simp at hnot
  | some x =>
      have hx : decide (x.linkSlug = row.linkSlug) = true :=
        List.find?_some (p := fun r : ProjectLinkRow => decide (r.linkSlug = row.linkSlug)) hfind
      rw [List.inj_on_of_nodup_map h (List.mem_of_find?_eq_some hfind) hrow (of_decide_eq_true hx)]

/-- A pass over the record of a row gives a clear record that keeps what was found. -/
theorem Recorded.reseal (h : Recorded c P start w) {row : ProjectLinkRow} (hrow : row ∈ w.db.links)
    {rec : PriorEnv} (hrec : row.priorEnv = some rec) {keyed : Bool} {files : List PriorFile}
    (hfiles : resealFiles (keyOf c keyed) row.linkSlug rec.files = .ok files) :
    Clear P files ∧ Faithful c row.linkSlug (w.found row.linkSlug) files := by
  have hveils := fileRel_of_resealFiles hfiles
  rcases h.rows row hrow rec hrec with ⟨-, hfound, hpaths, hP⟩ | ⟨hclear, hfaithful⟩
  · rw [hfound]
    refine ⟨fun g hg v hv => ?_, faithful_of_veils hpaths hveils⟩
    obtain ⟨f, hf, hfg⟩ := exists_left_of_forall₂ hveils hg
    obtain ⟨u, hu, huv⟩ := exists_left_of_forall₂ hfg.2 hv
    exact ⟨huv.veiled, huv.written ▸ hP f hf u hu⟩
  · rw [eq_of_veils (fun f hf v hv => (hclear f hf v hv).1) hveils]
    exact ⟨hclear, hfaithful⟩

/-- What a read of the existing prior state returns is clear, and keeps what was found. -/
theorem Recorded.existingPrior (h : Recorded c P start w) {keyed : Bool} {slug : Str}
    {stored : List PriorFile} (hstored : existingPrior w.db (keyOf c keyed) slug = .ok stored) :
    Clear P stored ∧ Faithful c slug (w.found slug) stored := by
  rw [existingPrior_eq] at hstored
  cases hfind : w.db.links.find? (·.linkSlug = slug) with
  | none =>
      rw [hfind] at hstored
      obtain rfl := Except.ok.inj hstored
      have hnone : w.found slug = [] := h.unlinked slug fun row hrow hslug =>
        absurd (List.find?_eq_none.1 hfind row hrow) (by simp [hslug])
      rw [hnone]
      exact ⟨fun f hf => (by cases hf), List.nodup_nil, fun _ _ _ hv => (by cases hv),
        fun _ _ _ hv => by obtain ⟨f, hf, -⟩ := hv; cases hf⟩
  | some row =>
      have hrow := List.mem_of_find?_eq_some hfind
      have hslug : row.linkSlug = slug := of_decide_eq_true
        (List.find?_some (p := fun r : ProjectLinkRow => decide (r.linkSlug = slug)) hfind)
      subst hslug
      rw [hfind, Option.bind_some] at hstored
      cases hrec : row.priorEnv with
      | none =>
          rw [hrec] at hstored
          obtain rfl := Except.ok.inj hstored
          have hnone : w.found row.linkSlug = [] := h.unlinked _ fun x hx hslug => by
            rwa [List.inj_on_of_nodup_map h.slugs hx hrow hslug]
          rw [hnone]
          exact ⟨fun f hf => (by cases hf), List.nodup_nil, fun _ _ _ hv => (by cases hv),
            fun _ _ _ hv => by obtain ⟨f, hf, -⟩ := hv; cases hf⟩
      | some rec =>
          rw [hrec] at hstored
          obtain ⟨-, -, hreseal⟩ := bind_eq_ok.1 hstored
          exact h.reseal hrow hrec hreseal

/-- Writing a clear record that keeps what was found, under its slug. -/
theorem Recorded.write (h : Recorded c P start w) {slug : Str} {rec : PriorEnv}
    {found : List PriorFile} (hclear : Clear P rec.files)
    (hfaithful : Faithful c slug found rec.files) {g : ProjectLinkRow → ProjectLinkRow}
    (hslug : ∀ row, (g row).linkSlug = row.linkSlug) (hrec : ∀ row, (g row).priorEnv = some rec)
    (hany : ∃ row ∈ w.db.links, row.linkSlug = slug) :
    Recorded c P start
      ⟨{ w.db with links := Keyed.modify ProjectLinkRow.linkSlug slug g w.db.links },
        Function.update w.found slug found⟩ where
  slugs := by
    show ((Keyed.modify ProjectLinkRow.linkSlug slug g w.db.links).map _).Nodup
    rw [Keyed.keys_modify fun row hrow => (hslug row).trans hrow]
    exact h.slugs
  rows row hrow r hr := by
    obtain ⟨x, hx, rfl⟩ := Keyed.mem_modify.1 hrow
    by_cases hk : x.linkSlug = slug
    · rw [if_pos hk] at hr ⊢
      obtain rfl := Option.some.inj ((hrec x).symm.trans hr)
      refine .inr ⟨hclear, ?_⟩
      rw [hslug x, hk]
      show Faithful c slug (Function.update w.found slug found slug) rec.files
      rwa [Function.update_self]
    · rw [if_neg hk] at hr ⊢
      have hfound : Function.update w.found slug found x.linkSlug = w.found x.linkSlug :=
        Function.update_of_ne hk ..
      dsimp only [RecordOk]
      rw [hfound]
      exact h.rows x hx r hr
  unlinked s hs := by
    have hne : s ≠ slug := by
      rintro rfl
      obtain ⟨row, hrow, hk⟩ := hany
      have hmem : g row ∈ Keyed.modify ProjectLinkRow.linkSlug s g w.db.links :=
        Keyed.mem_modify.2 ⟨row, hrow, by rw [if_pos hk]⟩
      have hnone := hs (g row) hmem ((hslug row).trans hk)
      rw [hrec row] at hnone
      cases hnone
    show Function.update w.found slug found s = []
    rw [Function.update_of_ne hne]
    refine h.unlinked s fun row hrow hk => ?_
    refine hs row (Keyed.mem_modify.2 ⟨row, hrow, ?_⟩) hk
    rw [if_neg fun hk' => hne (hk.symm.trans hk')]

/-! ## What each operation keeps -/

theorem Recorded.ensureLinkRow (h : Recorded c P start w) {req : LinkRequest} {plan : LinkPlan}
    {db : Db} (hdb : ensureLinkRow w.db req plan = .ok db) :
    Recorded c P start { w with db } := by
  rcases ensureLinkRow_eq_ok hdb with ⟨-, rfl⟩ | ⟨-, hnew, hlinks⟩
  · exact h
  · refine ⟨?_, ?_, ?_⟩
    · rw [hlinks, List.map_append, List.map_singleton]
      refine h.slugs.append (List.nodup_singleton _) ?_
      simpa using hnew
    · intro row hrow rec hrec
      rw [hlinks] at hrow
      rcases List.mem_append.1 hrow with hrow | hrow
      · exact h.rows row hrow rec hrec
      · rw [List.mem_singleton.1 hrow] at hrec
        cases hrec
    · intro slug hslug
      refine h.unlinked slug fun row hrow => hslug row ?_
      rw [hlinks]
      exact List.mem_append_left _ hrow

/-- The records of a plan, sealed or withheld, keep what the plan found. -/
theorem keeps_of_seal {keyed : Bool} {slug : Str} {fs ss : List PriorFile}
    (hfresh : ∀ f ∈ fs, ∀ v ∈ f.vars, ∃ key prior priorAll written,
      v = .fresh key prior priorAll written)
    (h : sealPriorFiles (keyOf c keyed) slug fs = .ok ss) :
    List.Forall₂ (FileRel fun path v s => Keeps c slug path v s ∧ s.Veiled ∧ s.written = v.written)
      fs ss := by
  have hvar : ∀ f ∈ fs, ∀ v ∈ f.vars, ∀ s, sealPriorVar (keyOf c keyed) slug f.path v = .ok s →
      Keeps c slug f.path v s ∧ s.Veiled ∧ s.written = v.written := by
    intro f hf v hv s hs
    cases keyed with
    | true =>
        have hveils := veils_sealPriorVar hs
        exact ⟨hveils.keeps, hveils.veiled, hveils.written⟩
    | false =>
        obtain ⟨key, prior, priorAll, written, rfl⟩ := hfresh f hf v hv
        exact keeps_withheld hs
  have hall := forall₂_of_mapM h
  rw [List.forall₂_iff_get] at hall ⊢
  obtain ⟨hlen, hall⟩ := hall
  refine ⟨hlen, fun i hi hi' => ?_⟩
  obtain ⟨hfile, hvars⟩ := fileRel_of_sealPriorFile (hall i hi hi')
  refine ⟨hfile, ?_⟩
  rw [List.forall₂_iff_get] at hvars ⊢
  obtain ⟨hvlen, hvars⟩ := hvars
  exact ⟨hvlen, fun j hj hj' => hvar _ (List.get_mem ..) _ (List.get_mem ..) _ (hvars j hj hj')⟩

theorem Clear.mergePrior {stored ss : List PriorFile} (hstored : Clear P stored) (hss : Clear P ss) :
    Clear P (mergePrior stored ss) := by
  have hinsert : ∀ files, Clear P files → ∀ f, (∀ v ∈ f.vars, v.Veiled ∧ P v.written) →
      Clear P (insertFile files f) := by
    intro files hfiles f hf g hg
    rcases Keyed.mem_upsert hg with hmem | ⟨x, -, -, rfl⟩ | rfl
    · exact hfiles g hmem
    · exact hf
    · exact hf
  have hvars : ∀ (fresh vars : List PriorVar), (∀ v ∈ vars, v.Veiled ∧ P v.written) →
      (∀ v ∈ fresh, v.Veiled ∧ P v.written) → ∀ v ∈ mergeVars vars fresh, v.Veiled ∧ P v.written := by
    intro fresh
    induction fresh with
    | nil => exact fun vars h _ => h
    | cons u fresh ih =>
        intro vars hv hu
        have hhead := hu u (List.mem_cons_self ..)
        refine ih _ ?_ fun v hv => hu v (List.mem_cons_of_mem _ hv)
        intro v hmem
        rcases Keyed.mem_upsert hmem with hmem | ⟨x, hx, -, rfl⟩ | rfl
        · exact hv v hmem
        · exact ⟨(hv x hx).1, hhead.2⟩
        · exact hhead
  have hmerge : ∀ files, Clear P files → ∀ f, (∀ v ∈ f.vars, v.Veiled ∧ P v.written) →
      Clear P (Gateway.mergeFile files f) := by
    intro files hfiles f hf g hg
    rcases Keyed.mem_upsert hg with hmem | ⟨x, hx, -, rfl⟩ | rfl
    · exact hfiles g hmem
    · exact hvars f.vars x.vars (hfiles x hx) hf
    · exact hf
  have hfold : ∀ (step : List PriorFile → PriorFile → List PriorFile),
      (∀ files, Clear P files → ∀ f, (∀ v ∈ f.vars, v.Veiled ∧ P v.written) → Clear P (step files f)) →
      ∀ (fs files : List PriorFile), Clear P files → Clear P fs → Clear P (fs.foldl step files) := by
    intro step hstep fs
    induction fs with
    | nil => exact fun files h _ => h
    | cons f fs ih =>
        intro files h hfs
        exact ih _ (hstep files h f (hfs f (List.mem_cons_self ..)))
          fun g hg => hfs g (List.mem_cons_of_mem _ hg)
  have hall := hfold Gateway.mergeFile hmerge ss _
    (hfold insertFile hinsert stored [] (fun _ hf => by cases hf) hstored) hss
  intro f hf
  exact hall f ((List.mem_insertionSort _).1 hf)

theorem modify_of_forall_ne {slug : Str} {g : ProjectLinkRow → ProjectLinkRow}
    {links : List ProjectLinkRow} (h : ∀ row ∈ links, row.linkSlug ≠ slug) :
    Keyed.modify ProjectLinkRow.linkSlug slug g links = links := by
  rw [Keyed.modify]
  conv_rhs => rw [← List.map_id links]
  exact List.map_congr_left fun row hrow => if_neg (h row hrow)

/-- A plan is of the files that the request names. -/
theorem paths_of_plan {env : Env} {disk : Disk} {db : Db} {req : LinkRequest} {slug fresh : Str}
    {plan : LinkPlan} (h : planLinkWithSlug env disk db req slug fresh = .ok plan) :
    ∃ paths, resolveFiles disk req = .ok paths ∧ ∀ file ∈ plan.files, file.path ∈ paths := by
  have hpaths : ∀ (projected : Str → Option Str) {paths : List Str} {vars : List Str}
      {baseUrl marker : Str} {files : List FilePlan},
      paths.mapM (fun path => planFile disk path vars baseUrl marker (projected path)) = .ok files →
      ∀ file ∈ files, file.path ∈ paths := by
    intro projected paths vars baseUrl marker files hfiles file hfile
    obtain ⟨path, hpath, hplan⟩ := exists_left_of_forall₂ (forall₂_of_mapM hfiles) hfile
    rwa [(planFile_eq_ok hplan).1]
  unfold planLinkWithSlug at h
  obtain ⟨first, hfirst, hrest⟩ := bind_eq_ok.1 h
  split at hrest
  · obtain rfl := Except.ok.inj hrest
    unfold planLink at hfirst
    split at hfirst
    · cases hfirst
    · unfold planLinkAsProvider at hfirst
      obtain ⟨vars, -, hbody⟩ := bind_eq_ok.1 hfirst
      split at hbody
      · cases hbody
      · obtain ⟨paths, hresolve, hplans⟩ := bind_eq_ok.1 hbody
        obtain ⟨files, hfiles, hpure⟩ := bind_eq_ok.1 hplans
        obtain rfl := Except.ok.inj hpure
        exact ⟨paths, hresolve, hpaths _ hfiles⟩
  · split at hrest
    · cases hrest
    · obtain ⟨paths, hresolve, hplans⟩ := bind_eq_ok.1 hrest
      obtain ⟨files, hfiles, hpure⟩ := bind_eq_ok.1 hplans
      obtain rfl := Except.ok.inj hpure
      exact ⟨paths, hresolve, hpaths (fun _ => none) hfiles⟩

/-- What a plan has read of a path. -/
theorem oldContent_of_planFile {disk : Disk} {path : Str} {vars : List Str} {baseUrl marker : Str}
    {file : FilePlan} (h : planFile disk path vars baseUrl marker none = .ok file) :
    file.oldContent = [] ∨ disk.file path = .regular file.oldContent := by
  unfold planFile at h
  obtain ⟨⟨exists_, old⟩, hread, hpure⟩ := bind_eq_ok.1 h
  obtain rfl := Except.ok.inj hpure
  unfold readForPlan at hread
  cases hfile : disk.file path with
  | missing =>
      rw [hfile] at hread
      exact .inl (Prod.mk.inj (Except.ok.inj hread)).2.symm
  | statFailed e =>
      rw [hfile] at hread
      exact .inl (Prod.mk.inj (Except.ok.inj hread)).2.symm
  | symlink =>
      rw [hfile] at hread
      cases hread
  | directory =>
      rw [hfile] at hread
      cases hread
  | unreadable e =>
      rw [hfile] at hread
      cases hread
  | regular content =>
      rw [hfile] at hread
      rw [(Prod.mk.inj (Except.ok.inj hread)).2]
      exact .inr rfl

/-- The files that a link reads extend no `NO_PROXY` list to a text other than `P` says. -/
def PriorOp.Meets (env : Env) (P : Str → Prop) (w : LinkWorld) : PriorOp → Prop
  | .link _ disk req _ _ => ∀ paths providerId custom vars,
      resolveFiles disk req = .ok paths →
      routeProvider w.db req.routePrefix = some (providerId, custom) →
      linkVars env providerId req.varOverride = .ok vars →
      ∀ path ∈ paths, ∀ content, disk.file path = .regular content →
        ∀ k, isNoProxy k = true → k ∉ vars →
          QuietList P (effective (EnvDocument.parse content) k)
  | .scrub _ => True
  | .read _ _ => True

/-- The texts that a link writes whatever the files hold are as `P` says. -/
structure OwnTexts (env : Env) (P : Str → Prop) : Prop where
  url : ∀ port slug prefix_ providerId, P (linkBaseUrl env port slug prefix_ providerId)
  extended : ∀ port slug prefix_ providerId,
    P (extendNoProxy (linkBaseUrl env port slug prefix_ providerId))
  list : P loopbackList

theorem effective_parse_nil (k : Str) : effective (EnvDocument.parse []) k = [] := rfl

/-- The records of a plan are fresh, of texts as `P` says. -/
theorem fresh_of_plan {env : Env} (hown : OwnTexts env P) {keyed : Bool} {disk : Disk}
    {req : LinkRequest} {approved : LinkPlan} {fresh : Str} {plan : LinkPlan}
    (hmeets : (PriorOp.link keyed disk req approved fresh).Meets env P w)
    (h : planLinkWithSlug env disk w.db req approved.linkSlug fresh = .ok plan) :
    ∀ f ∈ plan.files.map FilePlan.prior, ∀ v ∈ f.vars, FreshRecord P v := by
  intro f hf v hv
  obtain ⟨file, hfile, rfl⟩ := List.mem_map.1 hf
  have hspec := plannedWith_of_planLinkWithSlug h
  obtain ⟨paths, hresolve, hpaths⟩ := paths_of_plan h
  obtain ⟨custom, hroute⟩ := hspec.route
  have hplan := hspec.files file hfile
  obtain ⟨-, -, hvars⟩ := planFile_eq_ok hplan
  rw [hvars] at hv
  refine planDocument_records ?_ ?_ hown.list ?_ v hv
  · rw [hspec.baseUrl]
    exact hown.url ..
  · rw [hspec.baseUrl]
    exact hown.extended ..
  · intro k hk hnot
    rcases oldContent_of_planFile hplan with hnil | hregular
    · rw [hnil, effective_parse_nil]
      have hblank : extendNoProxy [] = loopbackList := extendNoProxy_blank rfl
      exact .inr (hblank ▸ hown.list)
    · exact hmeets paths plan.providerId custom plan.vars hresolve hroute hspec.vars file.path
        (hpaths file hfile) _ hregular k hk hnot

theorem Recorded.link {env : Env} (hown : OwnTexts env P) (h : Recorded c P start w) {keyed : Bool}
    {disk : Disk} {req : LinkRequest} {approved : LinkPlan} {fresh : Str}
    (hmeets : (PriorOp.link keyed disk req approved fresh).Meets env P w) :
    Recorded c P start ((PriorOp.link keyed disk req approved fresh).run env c w) := by
  unfold PriorOp.run
  dsimp only
  rcases recordLink_cases env disk w.db (keyOf c keyed) req approved fresh with
    ⟨db, e, hrun, hdb⟩ | ⟨plan, db, sealedFiles, stored, hplan, hensure, hseal, hstored, hrun⟩
  · rw [hrun]
    rcases hdb with rfl | ⟨plan, -, hensure⟩
    · exact h
    · exact h.ensureLinkRow hensure
  · have hfresh := fresh_of_plan hown hmeets hplan
    have hrow : Recorded c P start { w with db } := h.ensureLinkRow hensure
    obtain ⟨hclear, hfaithful⟩ := hrow.existingPrior hstored
    have hkeeps := keeps_of_seal (fun f hf v hv => by
      obtain ⟨key, prior, priorAll, written, hv, -⟩ := hfresh f hf v hv
      exact ⟨key, prior, priorAll, written, hv⟩) hseal
    have hsealed : Clear P sealedFiles := by
      intro g hg s hs
      obtain ⟨f, hf, hfg⟩ := exists_left_of_forall₂ hkeeps hg
      obtain ⟨v, hv, -, hveiled, hwritten⟩ := exists_left_of_forall₂ hfg.2 hs
      obtain ⟨key, prior, priorAll, written, rfl, hP⟩ := hfresh f hf v hv
      exact ⟨hveiled, hwritten ▸ hP⟩
    have hmerged := hfaithful.mergePrior
      (hkeeps.imp fun _ _ hfg => ⟨hfg.1, hfg.2.imp fun _ _ hk => hk.1⟩)
    let prior : PriorEnv := ⟨priorEnvVersion, plan.port, mergePrior stored sealedFiles⟩
    let g := fun row : ProjectLinkRow =>
      { row with envPath := plan.files.head?.map FilePlan.path, priorEnv := some prior }
    have hany : (Keyed.modify ProjectLinkRow.linkSlug plan.linkSlug g db.links).any
        (·.linkSlug = plan.linkSlug) = true ↔ ∃ row ∈ db.links, row.linkSlug = plan.linkSlug := by
      have hkeys : (Keyed.modify ProjectLinkRow.linkSlug plan.linkSlug g db.links).map
          ProjectLinkRow.linkSlug = db.links.map ProjectLinkRow.linkSlug :=
        Keyed.keys_modify fun _ hx => hx
      have hmem := congrArg (plan.linkSlug ∈ ·) hkeys
      simpa [List.mem_map, List.any_eq_true] using hmem
    rw [hrun]
    dsimp only [updateLinkEnv]
    split
    · rename_i hsome
      exact hrow.write (hclear.mergePrior hsealed) hmerged (g := g) (fun _ => rfl) (fun _ => rfl)
        (hany.1 hsome)
    · rename_i hnone
      have hsame : Keyed.modify ProjectLinkRow.linkSlug plan.linkSlug g db.links = db.links :=
        modify_of_forall_ne fun row hx hk => hnone (hany.2 ⟨row, hx, hk⟩)
      let table := Keyed.modify ProjectLinkRow.linkSlug plan.linkSlug g db.links
      show Recorded c P start ⟨{ db with links := table }, w.found⟩
      rw [show table = db.links from hsame]
      exact hrow

theorem Recorded.scrubRows {keyed : Bool} {rows : List (Str × PriorEnv)} {n : Nat}
    (h : Recorded c P start w) (hnodup : (rows.map Prod.fst).Nodup)
    (hrows : ∀ r ∈ rows, ∃ row ∈ w.db.links, row.linkSlug = r.1 ∧ row.priorEnv = some r.2) :
    Recorded c P start { w with db := (scrubRows (keyOf c keyed) rows w.db n).1 } := by
  induction rows generalizing w n with
  | nil => exact h
  | cons r rows ih =>
      obtain ⟨slug, prior⟩ := r
      obtain ⟨hslug, hnodup'⟩ := List.nodup_cons.1 hnodup
      have hrest : ∀ r ∈ rows, ∃ row ∈ w.db.links, row.linkSlug = r.1 ∧ row.priorEnv = some r.2 :=
        fun r hr => hrows r (List.mem_cons_of_mem _ hr)
      unfold Gateway.scrubRows
      split
      · exact ih h hnodup' hrest
      · obtain ⟨row, hrow, rfl, hrec⟩ := hrows (slug, prior) (List.mem_cons_self ..)
        cases hreseal : resealFiles (keyOf c keyed) row.linkSlug prior.files with
        | error e => exact h
        | ok files =>
            obtain ⟨hclear, hfaithful⟩ := h.reseal hrow hrec hreseal
            let next : PriorEnv := { prior with v := priorEnvVersion, files }
            have hwritten : Recorded c P start { w with db := writePriorEnv w.db row.linkSlug next } := by
              have hwrite : Recorded c P start ⟨writePriorEnv w.db row.linkSlug next,
                  Function.update w.found row.linkSlug (w.found row.linkSlug)⟩ :=
                h.write hclear hfaithful (fun _ => rfl) (fun _ => rfl) ⟨row, hrow, rfl⟩
              rwa [Function.update_eq_self] at hwrite
            refine ih hwritten hnodup' fun r hr => ?_
            obtain ⟨x, hx, hxs, hxr⟩ := hrest r hr
            have hne : x.linkSlug ≠ row.linkSlug := fun heq =>
              hslug (List.mem_map.2 ⟨r, hr, hxs.symm.trans heq⟩)
            exact ⟨x, Keyed.mem_modify.2 ⟨x, hx, by rw [if_neg hne]⟩, hxs, hxr⟩

/-- What holds of the records, every operation keeps. -/
theorem Recorded.run {env : Env} (hown : OwnTexts env P) (h : Recorded c P start w) {op : PriorOp}
    (hmeets : op.Meets env P w) : Recorded c P start (op.run env c w) := by
  cases op with
  | link keyed disk req approved fresh => exact h.link hown hmeets
  | read keyed slug => exact h
  | scrub keyed =>
      refine h.scrubRows ?_ ?_
      · have hsub : ((w.db.links.filterMap fun row => row.priorEnv.map (row.linkSlug, ·)).map
            Prod.fst).Sublist (w.db.links.map ProjectLinkRow.linkSlug) := by
          induction w.db.links with
          | nil => exact List.Sublist.slnil
          | cons row links ih =>
              cases hrec : row.priorEnv with
              | none => simpa [hrec] using ih.cons row.linkSlug
              | some rec => simpa [hrec] using ih.cons_cons row.linkSlug
        exact hsub.nodup h.slugs
      · intro r hr
        obtain ⟨row, hrow, hr⟩ := List.mem_filterMap.1 hr
        obtain ⟨rec, hrec, rfl⟩ := Option.map_eq_some_iff.1 hr
        exact ⟨row, hrow, rfl, hrec⟩

/-! ## Every run -/

/-- One operation that meets `cond`. -/
def PriorStep (env : Env) (c : RestoreCrypto) (cond : LinkWorld → PriorOp → Prop)
    (w w' : LinkWorld) : Prop :=
  ∃ op, cond w op ∧ w' = op.run env c w

theorem priorSteps_mono {env : Env} {cond cond' : LinkWorld → PriorOp → Prop}
    (h : ∀ w op, cond w op → cond' w op) {u v : LinkWorld}
    (hrun : Runs.Steps (PriorStep env c cond) u v) : Runs.Steps (PriorStep env c cond') u v := by
  refine Relation.ReflTransGen.mono ?_ u v hrun
  rintro w w' ⟨op, hop, hw'⟩
  exact ⟨op, h w op hop, hw'⟩

/-- A table to start from: slugs are distinct, a record names each path once, and its texts are as `P`
    says. -/
structure Start (P : Str → Prop) (start : Db) : Prop where
  slugs : (start.links.map ProjectLinkRow.linkSlug).Nodup
  paths : ∀ row ∈ start.links, ∀ rec, row.priorEnv = some rec → (rec.files.map PriorFile.path).Nodup
  texts : ∀ row ∈ start.links, ∀ rec, row.priorEnv = some rec →
    ∀ f ∈ rec.files, ∀ v ∈ f.vars, P v.written

theorem Start.recorded (h : Start P start) : Recorded c P start start.world where
  slugs := h.slugs
  rows row hrow rec hrec := by
    refine .inl ⟨hrow, ?_, h.paths row hrow rec hrec, h.texts row hrow rec hrec⟩
    dsimp only [Db.world]
    rw [find?_slug h.slugs hrow, Option.bind_some, hrec]
    rfl
  unlinked slug hslug := by
    dsimp only [Db.world]
    cases hfind : start.links.find? (·.linkSlug = slug) with
    | none => rfl
    | some row =>
        have hk : row.linkSlug = slug := of_decide_eq_true
          (List.find?_some (p := fun r : ProjectLinkRow => decide (r.linkSlug = slug)) hfind)
        rw [Option.bind_some, hslug row (List.mem_of_find?_eq_some hfind) hk]
        rfl

theorem recorded_run {env : Env} (hown : OwnTexts env P) (hstart : Start P start)
    (h : Runs.Steps (PriorStep env c (PriorOp.Meets env P)) start.world w) :
    Recorded c P start w := by
  refine Runs.Steps.invariant ?_ hstart.recorded h
  rintro u v hu ⟨op, hmeets, rfl⟩
  exact hu.run hown hmeets

/-- No file that a link reads has a `NO_PROXY` list with entries that lacks the loopback, apart from the
    linked variables. -/
def PriorOp.Quiet (env : Env) (w : LinkWorld) : PriorOp → Prop
  | .link _ disk req _ _ => ∀ paths providerId custom vars,
      resolveFiles disk req = .ok paths →
      routeProvider w.db req.routePrefix = some (providerId, custom) →
      linkVars env providerId req.varOverride = .ok vars →
      ∀ path ∈ paths, ∀ content, disk.file path = .regular content → QuietProxy vars content
  | .scrub _ => True
  | .read _ _ => True

theorem PriorOp.Quiet.meets {env : Env} {op : PriorOp} (h : op.Quiet env w) :
    op.Meets env (OwnText env) w := by
  cases op with
  | link keyed disk req approved fresh =>
      intro paths providerId custom vars hresolve hroute hvars path hpath content hcontent k hk hnot
      exact (h paths providerId custom vars hresolve hroute hvars path hpath content hcontent).quietList
        hk hnot
  | scrub keyed => trivial
  | read keyed slug => trivial

theorem ownTexts (env : Env) : OwnTexts env (OwnText env) where
  url port slug prefix_ providerId := .inr ⟨port, slug, prefix_, providerId, .inl rfl⟩
  extended port slug prefix_ providerId := .inr ⟨port, slug, prefix_, providerId, .inr rfl⟩
  list := .inl rfl

theorem RecordOk.kept {row : ProjectLinkRow} {rec : PriorEnv} (h : RecordOk c P start w row rec) :
    row ∈ start.links ∨ ((∀ f ∈ rec.files, ∀ v ∈ f.vars, v.Veiled) ∧
      Faithful c row.linkSlug (w.found row.linkSlug) rec.files) := by
  rcases h with ⟨hrow, -⟩ | ⟨hclear, hfaithful⟩
  · exact .inl hrow
  · exact .inr ⟨fun f hf v hv => (hclear f hf v hv).1, hfaithful⟩

/-- Over every run of links, re-links, scrubs and reads, with the key or without: a record that was
    written since the start has no prior value in the clear, holds each variable as its first link found
    it, sealed or withheld, and a read of any record gives it so. If moreover no link extends a `NO_PROXY`
    list that has entries, what stands in a record as written is the writer's own text. -/
theorem prior_sealed_run (env : Env) (c : RestoreCrypto) (start : Db)
    (hstart : Start (fun _ => True) start) :
    (∀ w, Runs.Steps (PriorStep env c fun _ _ => True) start.world w →
      (∀ row ∈ w.db.links, ∀ rec, row.priorEnv = some rec →
        row ∈ start.links ∨ ((∀ f ∈ rec.files, ∀ v ∈ f.vars, v.Veiled) ∧
          Faithful c row.linkSlug (w.found row.linkSlug) rec.files)) ∧
      ∀ keyed slug stored, existingPrior w.db (keyOf c keyed) slug = .ok stored →
        (∀ f ∈ stored, ∀ v ∈ f.vars, v.Veiled) ∧ Faithful c slug (w.found slug) stored) ∧
    (Start (OwnText env) start → ∀ w, Runs.Steps (PriorStep env c (PriorOp.Quiet env)) start.world w →
      ∀ row ∈ w.db.links, ∀ rec, row.priorEnv = some rec →
        ∀ f ∈ rec.files, ∀ v ∈ f.vars, OwnText env v.written) := by
  constructor
  · intro w hrun
    have hany : ∀ w (op : PriorOp), op.Meets env (fun _ => True) w := by
      intro w op
      cases op with
      | link keyed disk req approved fresh => exact fun _ _ _ _ _ _ _ _ _ _ _ _ _ _ => .inr trivial
      | scrub keyed => trivial
      | read keyed slug => trivial
    have hrecorded : Recorded c (fun _ => True) start w := by
      have hown : OwnTexts env fun _ => True :=
        ⟨fun _ _ _ _ => trivial, fun _ _ _ _ => trivial, trivial⟩
      exact recorded_run hown hstart (priorSteps_mono (fun w op _ => hany w op) hrun)
    refine ⟨fun row hrow rec hrec => (hrecorded.rows row hrow rec hrec).kept, ?_⟩
    intro keyed slug stored hstored
    obtain ⟨hclear, hfaithful⟩ := hrecorded.existingPrior hstored
    exact ⟨fun f hf v hv => (hclear f hf v hv).1, hfaithful⟩
  · intro hown w hrun row hrow rec hrec
    have hrecorded : Recorded c (OwnText env) start w :=
      recorded_run (ownTexts env) hown (priorSteps_mono (fun _ _ hop => hop.meets) hrun)
    rcases hrecorded.rows row hrow rec hrec with ⟨-, -, -, htexts⟩ | ⟨hclear, -⟩
    · exact htexts
    · exact fun f hf v hv => (hclear f hf v hv).2

theorem start_groq : Start (fun _ => True) (groqDbWith []) :=
  ⟨List.nodup_nil, fun _ h => (by cases h), fun _ h => (by cases h)⟩

/-- One link with the key at hand. -/
def linkGroq (disk : Disk) (approved : LinkPlan) : LinkWorld :=
  (PriorOp.link true disk groqRequest approved "web-3".toList).run manifestEnv plainCrypto
    (groqDbWith []).world

theorem steps_linkGroq (disk : Disk) (approved : LinkPlan) :
    Runs.Steps (PriorStep manifestEnv plainCrypto fun _ _ => True) (groqDbWith []).world
      (linkGroq disk approved) :=
  .single ⟨_, trivial, rfl⟩

/-- The value that a linked variable had is sealed. -/
theorem prior_sealed_run_groq : ∃ approved,
    planLink manifestEnv (Disk.single ".env".toList "GROQ_BASE_URL=https://corp.internal\n".toList)
      (groqDbWith []) groqRequest "web-1".toList = .ok approved ∧
    let w := linkGroq (Disk.single ".env".toList "GROQ_BASE_URL=https://corp.internal\n".toList) approved
    w.db.links.length = 1 ∧ ∀ row ∈ w.db.links, ∀ rec, row.priorEnv = some rec →
      row ∈ (groqDbWith []).links ∨ ((∀ f ∈ rec.files, ∀ v ∈ f.vars, v.Veiled) ∧
        Faithful plainCrypto row.linkSlug (w.found row.linkSlug) rec.files) := by
  obtain ⟨approved, hplan, hone⟩ := exists_ok_of_map (by decide +kernel :
    (planLink manifestEnv (Disk.single ".env".toList "GROQ_BASE_URL=https://corp.internal\n".toList)
      (groqDbWith []) groqRequest "web-1".toList).toOption.map (fun approved =>
        (linkGroq (Disk.single ".env".toList "GROQ_BASE_URL=https://corp.internal\n".toList)
          approved).db.links.length) = some 1)
  exact ⟨approved, hplan, hone, ((prior_sealed_run manifestEnv plainCrypto (groqDbWith [])
    start_groq).1 _ (steps_linkGroq _ approved)).1⟩

/-- A record holds a text in which the value that a variable was found with stands. -/
def reveals (w : LinkWorld) : Bool :=
  w.db.links.any fun row => row.priorEnv.any fun rec => rec.files.any fun f => f.vars.any fun v =>
    (foundVar (w.found row.linkSlug) f.path v.key).any fun v₀ => v₀.prior.any fun x =>
      !x.isEmpty && decide (x <:+: v.written)

def corpDisk : Disk := Disk.single ".env".toList "NO_PROXY=corp.internal\n".toList

/-- One link of a file with a `NO_PROXY` list: the list stands in the record as it was. -/
theorem prior_revealed_by_written : ¬∀ (env : Env) (c : RestoreCrypto) (start : Db) (w : LinkWorld),
    Start (fun _ => True) start → Runs.Steps (PriorStep env c fun _ _ => True) start.world w →
      reveals w = false := by
  intro h
  obtain ⟨approved, -, hreveals⟩ := exists_ok_of_map (by decide +kernel :
    (planLink manifestEnv corpDisk (groqDbWith []) groqRequest "web-1".toList).toOption.map
      (fun approved => reveals (linkGroq corpDisk approved)) = some true)
  rw [h manifestEnv plainCrypto (groqDbWith []) _ start_groq (steps_linkGroq corpDisk approved)]
    at hreveals
  cases hreveals

end Tethra.Gateway
