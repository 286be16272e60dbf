import Tethra.Gateway.ApplyLink
import Tethra.Lib.Runs

set_option autoImplicit false

/-! # One `.env` file of several linked providers (`gateway/src/envlink.rs`)

Every link extends the spellings of `NO_PROXY` that lack a loopback entry, and records what they held;
its unlink puts that back. The provider that is linked first records the value of the user, the later
ones find nothing to extend: the list covers the loopback host for all of them as long as the record
is not restored before the last of them is unlinked. -/

namespace Tethra.Gateway

open Text Slots Runs Tethra.Core.EnvFile

/-! ## The file and its links -/

/-- The disk, and the linked providers with what each recorded of the file. -/
structure SharedFile where
  disk : Disk
  links : List (Str × PriorFile)

/-- A provider is linked in the file, or unlinked again. -/
inductive FileOp where
  | link (provider : Str) (vars : List Str) (baseUrl marker : Str)
  | unlink (provider : Str)

/-- The record of a link is merged into that of an earlier link of the provider. -/
def keepRecord (links : List (Str × PriorFile)) (provider : Str) (fresh : PriorFile) :
    List (Str × PriorFile) :=
  Keyed.upsert Prod.fst provider
    (fun l => (l.1, { l.2 with vars := mergeVars l.2.vars fresh.vars })) (provider, fresh) links

/-- An operation on the file `path` that succeeds. -/
def FileOp.run (path : Str) : FileOp → SharedFile → Option SharedFile
  | .link provider vars baseUrl marker, w =>
      match planFile w.disk path vars baseUrl marker none with
      | .error _ => none
      | .ok plan =>
          match writePlanned w.disk plan with
          | .error _ => none
          | .ok disk => some ⟨disk, keepRecord w.links provider plan.prior⟩
  | .unlink provider, w =>
      match w.links.find? fun l => l.1 = provider with
      | none => none
      | some l =>
          let r := restoreFile ⟨w.disk, [], false⟩ l.2
          if r.anyFailure || !r.outcomes.all outcomeIsSettled then none
          else some ⟨r.disk, w.links.filter fun l => l.1 ≠ provider⟩

def SharedFile.values (w : SharedFile) (path key : Str) : List Str := (w.disk.file path).values key

/-- The value that a program reads for `key`. -/
def SharedFile.value (w : SharedFile) (path key : Str) : Option Str := (w.values path key).getLast?

/-- A spelling of `NO_PROXY` is there, and each that is there has all loopback entries. -/
def SharedFile.Covers (w : SharedFile) (path : Str) : Prop :=
  (∃ k, isNoProxy k = true ∧ w.values path k ≠ []) ∧
    ∀ k, isNoProxy k = true → ∀ v, w.value path k = some v → missingEntries v = []

/-- The variables of a link are distinct names that are no spelling of `NO_PROXY`, and its marker is one
    comment line. A provider is unlinked before another one only when what its record puts back has the
    loopback entries. -/
def FileOp.Ordered (w : SharedFile) : FileOp → Prop
  | .link _ vars _ marker => LinkVars vars ∧ MarkerLine (renderMarker marker)
  | .unlink provider => ∀ l ∈ w.links, l.1 = provider → (∀ l' ∈ w.links, l'.1 = provider) ∨
      ∀ var ∈ l.2.vars, isNoProxy var.key = true → ∃ v, var.prior = some v ∧ missingEntries v = []

/-- An operation that meets a condition. -/
def SharedStep (path : Str) (cond : SharedFile → FileOp → Prop) (w w' : SharedFile) : Prop :=
  ∃ op : FileOp, cond w op ∧ op.run path w = some w'

/-! ## Merging records -/

theorem mem_mergeVar {vars : List PriorVar} {w v : PriorVar} (h : v ∈ mergeVar vars w) :
    (v ∈ vars ∧ v.key ≠ w.key) ∨ v.key = w.key ∧ (v = w ∨ w.key ∈ vars.map PriorVar.key) := by
  unfold mergeVar Keyed.upsert at h
  split at h
  · rename_i hany
    obtain ⟨x, hx, rfl⟩ := Keyed.mem_modify.1 h
    obtain ⟨y, hy, hkey⟩ := List.any_eq_true.1 hany
    have hmem : w.key ∈ vars.map PriorVar.key := of_decide_eq_true hkey ▸ List.mem_map_of_mem hy
    split
    · rename_i hk
      exact .inr ⟨hk, .inr hmem⟩
    · rename_i hk
      exact .inl ⟨hx, hk⟩
  · rename_i hany
    rcases List.mem_append.1 h with h | h
    · refine .inl ⟨h, fun hk => hany (List.any_eq_true.2 ⟨v, h, decide_eq_true hk⟩)⟩
    · obtain rfl := List.mem_singleton.1 h
      exact .inr ⟨rfl, .inl rfl⟩

theorem keys_mergeVar {vars : List PriorVar} {w : PriorVar} {k : Str} :
    k ∈ (mergeVar vars w).map PriorVar.key ↔ k ∈ vars.map PriorVar.key ∨ k = w.key := by
  refine Keyed.mem_keys_upsert ?_ rfl
  exact fun _ hk => hk

/-- A merged record is an old one or a fresh one, unless its key has both. -/
theorem mem_mergeVars {vars fresh : List PriorVar} (hnodup : (fresh.map PriorVar.key).Nodup)
    {v : PriorVar} (h : v ∈ mergeVars vars fresh) : v ∈ vars ∨ v ∈ fresh ∨
      v.key ∈ vars.map PriorVar.key ∧ v.key ∈ fresh.map PriorVar.key := by
  induction fresh generalizing vars with
  | nil => exact .inl h
  | cons w fresh ih =>
      obtain ⟨hw, hnodup'⟩ := List.nodup_cons.1 hnodup
      rw [mergeVars, List.foldl_cons] at h
      rcases ih hnodup' h with hold | hnew | ⟨hold, hnew⟩
      · rcases mem_mergeVar hold with ⟨hold, -⟩ | ⟨hkey, rfl | hmem⟩
        · exact .inl hold
        · exact .inr (.inl (List.mem_cons_self ..))
        · exact .inr (.inr ⟨hkey ▸ hmem, hkey ▸ List.mem_cons_self ..⟩)
      · exact .inr (.inl (List.mem_cons_of_mem _ hnew))
      · refine .inr (.inr ⟨?_, List.mem_cons_of_mem _ hnew⟩)
        exact (keys_mergeVar.1 hold).resolve_right fun heq => hw (heq ▸ hnew)

/-! ## The values that a link leaves -/

theorem value_of_mem_proxyKeys {d : EnvDocument} {k : Str} (h : k ∈ proxyKeys d) :
    (d.values k).getLast? = some (effective d k) := by
  obtain ⟨v, hv⟩ := Option.ne_none_iff_exists'.1 fun hnone =>
    (mem_proxyKeys.1 h).1 (List.getLast?_eq_none_iff.1 hnone)
  rw [effective_eq, hv]
  rfl

/-- What a link records of a spelling of `NO_PROXY`, and what it leaves there. -/
structure ProxyRecord (d d' : EnvDocument) (var : PriorVar) : Prop where
  prior : var.prior = (d.values var.key).getLast?
  priorAll : var.priorAll = []
  shown : var.priorWithheld = false
  extended : extendNoProxy var.written = var.written
  written : (d'.values var.key).getLast? = some var.written
  lacking : ∀ v, (d.values var.key).getLast? = some v → extendNoProxy v ≠ v

/-- What a link does to the spellings of `NO_PROXY`. -/
structure ProxyLinked (d d' : EnvDocument) (vars : List PriorVar) : Prop where
  nodup : (vars.map PriorVar.key).Nodup
  records : ∀ var ∈ vars, isNoProxy var.key = true → ProxyRecord d d' var
  other : ∀ k, isNoProxy k = true → k ∉ vars.map PriorVar.key → d'.values k = d.values k
  covers : (∃ k, isNoProxy k = true ∧ d'.values k ≠ []) ∧
    ∀ k, isNoProxy k = true → ∀ v, (d'.values k).getLast? = some v → extendNoProxy v = v

theorem extendNoProxy_loopback : extendNoProxy ([','].intercalate noProxyEntries)
    = [','].intercalate noProxyEntries := by decide

theorem proxyLinked {vars : List Str} (hvars : LinkVars vars) {baseUrl marker : Str}
    (hm : MarkerLine (renderMarker marker)) {d : EnvDocument} (hd : d.Faithful) :
    ProxyLinked d (planDocument vars baseUrl marker d).1 (planDocument vars baseUrl marker d).2 := by
  have hspec : Planned hm d (linkItems vars baseUrl d) _ := planDocument_spec hvars hm hd
  have hnodup := nodup_linkItems hvars baseUrl d
  have hkeys : (planDocument vars baseUrl marker d).2.map PriorVar.key
      = (linkItems vars baseUrl d).map Item.key := by
    rw [hspec.records, List.map_map]
    rfl
  have hvalues : ∀ k, (planDocument vars baseUrl marker d).1.values k
      = Slots.values k (linkAll (marking hm) (linkItems vars baseUrl d) (d.slots fun _ => true)) := by
    intro k
    rw [← hspec.slots (fun _ => true) (fun _ _ => rfl), values_slots rfl]
  have hother : ∀ k, k ∉ (linkItems vars baseUrl d).map Item.key →
      (planDocument vars baseUrl marker d).1.values k = d.values k := by
    intro k hk
    rw [hvalues, values_linkAll_ne _ hk, values_slots rfl]
  have hwritten : ∀ it ∈ linkItems vars baseUrl d,
      ((planDocument vars baseUrl marker d).1.values it.key).getLast? = some it.written := by
    intro it hit
    obtain ⟨n, hn⟩ := values_linkAll_mem (marking hm) hnodup hit (d.slots fun _ => true)
    rw [hvalues, hn, List.getLast?_replicate, if_neg (Nat.succ_ne_zero n)]
  -- The edits of spellings of `NO_PROXY`: a new one, or those that lack an entry.
  have hproxy : ∀ it ∈ linkItems vars baseUrl d, isNoProxy it.key = true →
      (proxyKeys d = [] ∧ it = newProxyItem) ∨ ∃ k ∈ proxyKeys d, needsEntries d k ∧ it = proxyItem d k := by
    intro it hit hno
    rcases mem_linkItems.1 hit with ⟨v, hv, rfl⟩ | h | h
    · have hfree : isNoProxy v = false := hvars.proxyFree v hv
      have hno' : isNoProxy v = true := hno
      rw [hfree] at hno'
      cases hno'
    · exact .inl h
    · exact .inr h
  have hfixed : ∀ it ∈ linkItems vars baseUrl d, isNoProxy it.key = true →
      extendNoProxy it.written = it.written := by
    intro it hit hno
    rcases hproxy it hit hno with ⟨-, rfl⟩ | ⟨k, -, -, rfl⟩
    · exact extendNoProxy_loopback
    · exact extendNoProxy_idem _
  refine ⟨?_, ?_, ?_, ?_, ?_⟩
  · exact hkeys.symm ▸ hnodup
  · intro var hvar hno
    rw [hspec.records] at hvar
    obtain ⟨it, hit, rfl⟩ := List.mem_map.1 hvar
    refine ⟨?_, ?_, rfl, hfixed it hit hno, hwritten it hit, ?_⟩
    · rcases hproxy it hit hno with ⟨hnone, rfl⟩ | ⟨k, hk, -, rfl⟩
      · have hempty : d.values "NO_PROXY".toList = [] := by
          by_contra hne
          have hmem := mem_proxyKeys.2 ⟨hne, isNoProxy_noProxy⟩
          rw [hnone] at hmem
          cases hmem
        show none = (d.values "NO_PROXY".toList).getLast?
        rw [hempty]
        rfl
      · exact (value_of_mem_proxyKeys hk).symm
    · rcases hproxy it hit hno with ⟨-, rfl⟩ | ⟨k, -, -, rfl⟩
      · rfl
      · rfl
    · rcases hproxy it hit hno with ⟨hnone, rfl⟩ | ⟨k, hk, hneeds, rfl⟩
      · intro v hlast
        have hne : d.values "NO_PROXY".toList ≠ [] := by
          intro hnil
          have hlast' : (d.values "NO_PROXY".toList).getLast? = some v := hlast
          rw [hnil] at hlast'
          cases hlast'
        have hmem := mem_proxyKeys.2 ⟨hne, isNoProxy_noProxy⟩
        rw [hnone] at hmem
        cases hmem
      · intro v hlast
        obtain rfl := Option.some.inj ((value_of_mem_proxyKeys hk).symm.trans hlast)
        exact hneeds
  · intro k _ hk
    exact hother k (hkeys ▸ hk)
  · cases hk : proxyKeys d with
    | nil =>
        have hit : newProxyItem ∈ linkItems vars baseUrl d := mem_linkItems.2 (.inr (.inl ⟨hk, rfl⟩))
        refine ⟨"NO_PROXY".toList, isNoProxy_noProxy, fun hnil => ?_⟩
        have hlast := hwritten _ hit
        rw [show newProxyItem.key = "NO_PROXY".toList from rfl, hnil] at hlast
        cases hlast
    | cons k ks =>
        have hmem : k ∈ proxyKeys d := hk ▸ List.mem_cons_self ..
        refine ⟨k, (mem_proxyKeys.1 hmem).2, fun hnil => ?_⟩
        by_cases hkey : k ∈ (linkItems vars baseUrl d).map Item.key
        · obtain ⟨it, hit, rfl⟩ := List.mem_map.1 hkey
          have hlast := hwritten it hit
          rw [hnil] at hlast
          cases hlast
        · exact (mem_proxyKeys.1 hmem).1 ((hother k hkey).symm.trans hnil)
  · intro k hno v hlast
    by_cases hkey : k ∈ (linkItems vars baseUrl d).map Item.key
    · obtain ⟨it, hit, rfl⟩ := List.mem_map.1 hkey
      obtain rfl := Option.some.inj ((hwritten it hit).symm.trans hlast)
      exact hfixed it hit hno
    · rw [hother k hkey] at hlast
      have hne : d.values k ≠ [] := by
        intro hnil
        rw [hnil] at hlast
        cases hlast
      have hmem : k ∈ proxyKeys d := mem_proxyKeys.2 ⟨hne, hno⟩
      obtain rfl := Option.some.inj ((value_of_mem_proxyKeys hmem).symm.trans hlast)
      by_contra hneeds
      have hitem : proxyItem d k ∈ linkItems vars baseUrl d :=
        mem_linkItems.2 (.inr (.inr ⟨k, hmem, hneeds, rfl⟩))
      exact hkey (List.mem_map_of_mem hitem)

/-- Applying a plan of a file that is not there leaves what was planned. -/
theorem file_writeCreated {disk disk' : Disk} {plan : FilePlan} (hexists : plan.exists_ = false)
    (hold : plan.oldContent = []) (hchanged : plan.changed = decide (plan.newContent ≠ plan.oldContent))
    (hnone : ∀ k, (disk.file plan.path).values k = []) (h : writePlanned disk plan = .ok disk') (k : Str) :
    (disk'.file plan.path).values k = (EnvDocument.parse plan.newContent).values k := by
  unfold writePlanned at h
  simp only [hexists, Bool.false_eq_true, if_false] at h
  split at h
  · rename_i hsame
    obtain rfl := Except.ok.inj h
    have heq : plan.newContent = [] := by simpa [hchanged, hold] using hsame
    rw [hnone, heq]
    rfl
  · unfold writeNew at h
    split at h
    · cases h
    · obtain rfl := Except.ok.inj h
      simp [Disk.setFile, FileState.values]
    · cases h

/-- A link that succeeds plans over what the file holds, and leaves what it planned. -/
theorem link_written {disk disk' : Disk} {path : Str} {vars : List Str} {baseUrl marker : Str}
    (hvars : LinkVars vars) (hm : MarkerLine (renderMarker marker)) {plan : FilePlan}
    (hplan : planFile disk path vars baseUrl marker none = .ok plan)
    (hwrite : writePlanned disk plan = .ok disk') :
    ∃ d d', (∀ k, (disk.file path).values k = d.values k) ∧
      (∀ k, (disk'.file path).values k = d'.values k) ∧ plan.prior.path = path ∧
      ProxyLinked d d' plan.prior.vars := by
  have hlinked : ∀ content, ProxyLinked (EnvDocument.parse content)
      (planDocument vars baseUrl marker (EnvDocument.parse content)).1
      (planDocument vars baseUrl marker (EnvDocument.parse content)).2 :=
    fun content => proxyLinked hvars hm (faithful_parse content)
  have hrendered : ∀ content k,
      (EnvDocument.parse (planDocument vars baseUrl marker (EnvDocument.parse content)).1.render).values k
        = (planDocument vars baseUrl marker (EnvDocument.parse content)).1.values k :=
    fun content => values_parse_render (planDocument_spec hvars hm (faithful_parse content)).faithful
  -- A file that is not there is planned from nothing.
  have hcreated : ∀ s, disk.file path = s → (∀ k, s.values k = []) →
      readForPlan disk path none = .ok (false, []) → ∃ d d',
        (∀ k, (disk.file path).values k = d.values k) ∧
        (∀ k, (disk'.file path).values k = d'.values k) ∧ plan.prior.path = path ∧
        ProxyLinked d d' plan.prior.vars := by
    intro s hs hnone hread
    unfold planFile at hplan
    rw [hread] at hplan
    obtain rfl := Except.ok.inj hplan
    refine ⟨_, _, fun k => ?_, fun k => ?_, rfl, hlinked []⟩
    · rw [hs, hnone]
      rfl
    · rw [← hrendered [] k]
      exact file_writeCreated rfl rfl rfl (fun k => by rw [hs, hnone]) hwrite k
  cases hfile : disk.file path with
  | regular content =>
      have hregular := planFile_regular hfile vars baseUrl marker
      rw [hregular] at hplan
      obtain rfl := Except.ok.inj hplan
      obtain ⟨hafter, -⟩ := file_writePlanned hfile rfl rfl hwrite
      refine ⟨_, _, fun k => rfl, fun k => ?_, rfl, hlinked content⟩
      have hafter' : disk'.file path = .regular
          (planDocument vars baseUrl marker (EnvDocument.parse content)).1.render := hafter
      rw [hafter', ← hrendered content k]
      rfl
  | missing =>
      rw [← hfile]
      exact hcreated _ hfile (fun _ => rfl) (by unfold readForPlan; rw [hfile])
  | statFailed e =>
      rw [← hfile]
      exact hcreated _ hfile (fun _ => rfl) (by unfold readForPlan; rw [hfile])
  | symlink => simp [planFile, readForPlan, hfile, bind, Except.bind] at hplan
  | directory => simp [planFile, readForPlan, hfile, bind, Except.bind] at hplan
  | unreadable e => simp [planFile, readForPlan, hfile, bind, Except.bind] at hplan

/-! ## The values that an unlink leaves -/

theorem getLast?_restored {var : PriorVar} {values : List Str} (howns : var.Owns values)
    (hall : var.priorAll = []) : (var.restored values).getLast? = var.prior := by
  have hne : values.length ≠ 0 := by
    intro hlen
    have hlast := howns.1
    rw [List.length_eq_zero_iff.1 hlen] at hlast
    cases hlast
  rw [PriorVar.restored, if_pos howns]
  cases hprior : var.prior with
  | none =>
      rw [filterMap_target_of_none hprior]
      rfl
  | some p =>
      rw [filterMap_target_of_some hprior]
      simp [hall, List.getLast?_replicate, hne]

/-- A variable that was not recorded keeps its values. -/
theorem restoreFile_other {file : PriorFile} (hnodup : (file.vars.map PriorVar.key).Nodup)
    (r : RestoreResult) {k : Str} (hk : k ∉ file.vars.map PriorVar.key) :
    ((restoreFile r file).disk.file file.path).values k = (r.disk.file file.path).values k := by
  unfold restoreFile
  cases hfile : r.disk.file file.path with
  | regular content =>
      obtain ⟨hfaith, -, hother, -, -⟩ := restoreVars_step file.path hnodup
        ⟨EnvDocument.parse content, false, []⟩ (faithful_parse content)
      have hwritten : FileWritten file.path (restoreDocument file content) r
          (writeRestored file (restoreDocument file content) r) :=
        writeRestored_written file hfaith r
      rcases hwritten.disk with ⟨hdisk, -⟩ | ⟨-, -, s, hdisk, hs⟩
      · show ((writeRestored file _ r).disk.file file.path).values k = _
        rw [hdisk, hfile]
      · show ((writeRestored file _ r).disk.file file.path).values k = _
        rw [hdisk]
        refine Eq.trans ?_ ((hs k).trans (hother k hk))
        simp [Disk.setFile]
  | missing => exact congrArg (FileState.values · k) hfile
  | symlink => exact congrArg (FileState.values · k) hfile
  | directory => exact congrArg (FileState.values · k) hfile
  | statFailed e => exact congrArg (FileState.values · k) hfile
  | unreadable e => exact congrArg (FileState.values · k) hfile

/-! ## The invariant -/

def recordedKeys (file : PriorFile) : List Str := file.vars.map PriorVar.key

/-- What holds of the file between two operations. -/
structure Shared (path : Str) (start w : SharedFile) : Prop where
  providers : (w.links.map Prod.fst).Nodup
  paths : ∀ l ∈ w.links, l.2.path = path
  keys : ∀ l ∈ w.links, (recordedKeys l.2).Nodup
  /-- A recorded spelling of `NO_PROXY` has the written list, and its record holds the first value. -/
  held : ∀ l ∈ w.links, ∀ var ∈ l.2.vars, isNoProxy var.key = true →
    var.prior = start.value path var.key ∧ var.priorAll = [] ∧ var.priorWithheld = false ∧
      extendNoProxy var.written = var.written ∧ w.value path var.key = some var.written
  single : ∀ l ∈ w.links, ∀ l' ∈ w.links, ∀ k, isNoProxy k = true → k ∈ recordedKeys l.2 →
    k ∈ recordedKeys l'.2 → l.1 = l'.1
  free : ∀ k, isNoProxy k = true → (∀ l ∈ w.links, k ∉ recordedKeys l.2) →
    w.value path k = start.value path k
  covers : w.links ≠ [] → w.Covers path

variable {path : Str} {start w w' : SharedFile}

/-- The record of the provider has the fresh keys, and no recorded key is lost. -/
theorem keys_keepRecord (links : List (Str × PriorFile)) (provider : Str) (fresh : PriorFile) {k : Str}
    (h : k ∈ recordedKeys fresh ∨ ∃ l ∈ links, k ∈ recordedKeys l.2) :
    ∃ l ∈ keepRecord links provider fresh, k ∈ recordedKeys l.2 := by
  rcases h with h | ⟨l, hl, hk⟩
  · have hmem : (∃ x ∈ links, x.1 = provider ∧ (x.1, { x.2 with vars := mergeVars x.2.vars fresh.vars })
        ∈ keepRecord links provider fresh) ∨ (provider, fresh) ∈ keepRecord links provider fresh :=
      Keyed.exists_mem_upsert ..
    rcases hmem with ⟨x, -, -, hmem⟩ | hmem
    · exact ⟨_, hmem, mem_keys_mergeVars.2 (.inr h)⟩
    · exact ⟨_, hmem, h⟩
  · have hmem : (if l.1 = provider then (l.1, { l.2 with vars := mergeVars l.2.vars fresh.vars }) else l)
        ∈ keepRecord links provider fresh := Keyed.mem_upsert_of_mem hl
    refine ⟨_, hmem, ?_⟩
    split
    · exact mem_keys_mergeVars.2 (.inl hk)
    · exact hk

/-- A key of a link behind `keepRecord` was recorded before, or by the fresh record. -/
theorem key_of_keepRecord {links : List (Str × PriorFile)} {provider : Str} {fresh : PriorFile}
    {y : Str × PriorFile} (hy : y ∈ keepRecord links provider fresh) {k : Str}
    (hk : k ∈ recordedKeys y.2) : (∃ x ∈ links, x.1 = y.1 ∧ k ∈ recordedKeys x.2) ∨
      y.1 = provider ∧ k ∈ recordedKeys fresh := by
  rcases Keyed.mem_upsert hy with hy | ⟨x, hx, hprovider, rfl⟩ | rfl
  · exact .inl ⟨y, hy, rfl, hk⟩
  · rcases mem_keys_mergeVars.1 hk with hk | hk
    · exact .inl ⟨x, hx, rfl, hk⟩
    · exact .inr ⟨hprovider, hk⟩
  · exact .inr ⟨rfl, hk⟩

theorem Shared.link (h : Shared path start w) {provider : Str} {disk' : Disk} {fresh : PriorFile}
    {d d' : EnvDocument} (hbefore : ∀ k, (w.disk.file path).values k = d.values k)
    (hafter : ∀ k, (disk'.file path).values k = d'.values k) (hpath : fresh.path = path)
    (hlinked : ProxyLinked d d' fresh.vars) :
    Shared path start ⟨disk', keepRecord w.links provider fresh⟩ := by
  -- The link records no spelling that is recorded already.
  have hfresh : ∀ l ∈ w.links, ∀ k, isNoProxy k = true → k ∈ recordedKeys l.2 →
      k ∉ recordedKeys fresh := by
    intro l hl k hno hk hk'
    obtain ⟨var, hvar, rfl⟩ := List.mem_map.1 hk
    obtain ⟨var', hvar', hkey⟩ := List.mem_map.1 hk'
    obtain ⟨-, -, -, hextended, hvalue⟩ := h.held l hl var hvar hno
    have hrecord := hlinked.records var' hvar' (hkey ▸ hno)
    refine hrecord.lacking var.written ?_ hextended
    rw [hkey, ← hbefore]
    exact hvalue
  have hkept : ∀ k, isNoProxy k = true → k ∉ recordedKeys fresh →
      (disk'.file path).values k = (w.disk.file path).values k := by
    intro k hno hk
    rw [hafter, hbefore, hlinked.other k hno hk]
  have hold : ∀ l ∈ w.links, ∀ var ∈ l.2.vars, isNoProxy var.key = true →
      var.prior = start.value path var.key ∧ var.priorAll = [] ∧ var.priorWithheld = false ∧
        extendNoProxy var.written = var.written ∧
          ((disk'.file path).values var.key).getLast? = some var.written := by
    intro l hl var hvar hno
    obtain ⟨hprior, hall, hshown, hextended, hvalue⟩ := h.held l hl var hvar hno
    refine ⟨hprior, hall, hshown, hextended, ?_⟩
    rw [hkept var.key hno (hfresh l hl _ hno (List.mem_map_of_mem hvar))]
    exact hvalue
  have hnew : ∀ var ∈ fresh.vars, isNoProxy var.key = true →
      var.prior = start.value path var.key ∧ var.priorAll = [] ∧ var.priorWithheld = false ∧
        extendNoProxy var.written = var.written ∧
          ((disk'.file path).values var.key).getLast? = some var.written := by
    intro var hvar hno
    have hrecord := hlinked.records var hvar hno
    refine ⟨?_, hrecord.priorAll, hrecord.shown, hrecord.extended, ?_⟩
    · rw [hrecord.prior, ← hbefore]
      exact h.free var.key hno fun l hl hk => hfresh l hl _ hno hk (List.mem_map_of_mem hvar)
    · rw [hafter]
      exact hrecord.written
  refine ⟨Keyed.nodup_keys_upsert (fun _ hk => hk) rfl h.providers, ?_, ?_, ?_, ?_, ?_, ?_⟩
  · intro l hl
    rcases Keyed.mem_upsert hl with hl | ⟨x, hx, -, rfl⟩ | rfl
    · exact h.paths l hl
    · exact h.paths x hx
    · exact hpath
  · intro l hl
    rcases Keyed.mem_upsert hl with hl | ⟨x, hx, -, rfl⟩ | rfl
    · exact h.keys l hl
    · exact nodup_mergeVars (h.keys x hx) _
    · exact hlinked.nodup
  · intro l hl var hvar hno
    rcases Keyed.mem_upsert hl with hl | ⟨x, hx, -, rfl⟩ | rfl
    · exact hold l hl var hvar hno
    · rcases mem_mergeVars hlinked.nodup hvar with hvar | hvar | ⟨hk, hk'⟩
      · exact hold x hx var hvar hno
      · exact hnew var hvar hno
      · exact absurd hk' (hfresh x hx _ hno hk)
    · exact hnew var hvar hno
  · intro l hl l' hl' k hno hk hk'
    rcases key_of_keepRecord hl hk with ⟨x, hx, hxl, hxk⟩ | ⟨hprovider, hf⟩
    · rcases key_of_keepRecord hl' hk' with ⟨x', hx', hxl', hxk'⟩ | ⟨hprovider', hf'⟩
      · rw [← hxl, ← hxl']
        exact h.single x hx x' hx' k hno hxk hxk'
      · exact absurd hf' (hfresh x hx k hno hxk)
    · rcases key_of_keepRecord hl' hk' with ⟨x', hx', hxl', hxk'⟩ | ⟨hprovider', hf'⟩
      · exact absurd hf (hfresh x' hx' k hno hxk')
      · rw [hprovider, hprovider']
  · intro k hno hk
    have hnone : ¬(k ∈ recordedKeys fresh ∨ ∃ l ∈ w.links, k ∈ recordedKeys l.2) := by
      intro hsome
      obtain ⟨l, hl, hkl⟩ := keys_keepRecord w.links provider fresh hsome
      exact hk l hl hkl
    have hnotFresh : k ∉ recordedKeys fresh := fun hf => hnone (.inl hf)
    have hnotOld : ∀ l ∈ w.links, k ∉ recordedKeys l.2 := fun l hl hkl => hnone (.inr ⟨l, hl, hkl⟩)
    refine Eq.trans ?_ (h.free k hno hnotOld)
    exact congrArg List.getLast? (hkept k hno hnotFresh)
  · intro _
    obtain ⟨⟨k, hno, hne⟩, hall⟩ := hlinked.covers
    refine ⟨⟨k, hno, ?_⟩, fun k hno v hv => ?_⟩
    · show (disk'.file path).values k ≠ []
      rw [hafter]
      exact hne
    · have hv' : ((disk'.file path).values k).getLast? = some v := hv
      rw [hafter] at hv'
      rw [← hall k hno v hv']
      exact missingEntries_extendNoProxy v

theorem Shared.unlink (h : Shared path start w) {l : Str × PriorFile} (hl : l ∈ w.links)
    (hcond : (∀ l' ∈ w.links, l'.1 = l.1) ∨
      ∀ var ∈ l.2.vars, isNoProxy var.key = true → ∃ v, var.prior = some v ∧ missingEntries v = [])
    (hcomplete : (restoreFile ⟨w.disk, [], false⟩ l.2).anyFailure = false)
    (hsettled : ∀ o ∈ (restoreFile ⟨w.disk, [], false⟩ l.2).outcomes, outcomeIsSettled o = true) :
    Shared path start
      ⟨(restoreFile ⟨w.disk, [], false⟩ l.2).disk, w.links.filter fun l' => l'.1 ≠ l.1⟩ := by
  have hpath : l.2.path = path := h.paths l hl
  have hnodup : (l.2.vars.map PriorVar.key).Nodup := h.keys l hl
  have hstep := restoreFile_step hnodup ⟨w.disk, [], false⟩
  obtain ⟨os, hos, howned⟩ := hstep.outcomes
  rw [List.nil_append] at hos
  -- A recorded spelling has its recorded value again.
  have hself : ∀ var ∈ l.2.vars, isNoProxy var.key = true →
      (((restoreFile ⟨w.disk, [], false⟩ l.2).disk.file path).values var.key).getLast? = var.prior := by
    intro var hvar hno
    obtain ⟨-, hall, hshown, -, hvalue⟩ := h.held l hl var hvar hno
    have hlast : ((w.disk.file path).values var.key).getLast? = some var.written := hvalue
    have hvalues := hstep.values var hvar
    have hwrite := (howned (fun o ho => hsettled o (hos ▸ ho)) hcomplete var hvar
      (by rw [hpath]; exact hlast)).2
    rw [valuesAfter, if_pos hwrite, hpath] at hvalues
    rw [hvalues]
    exact getLast?_restored ⟨hlast, hshown⟩ hall
  have hother : ∀ k, k ∉ recordedKeys l.2 →
      ((restoreFile ⟨w.disk, [], false⟩ l.2).disk.file path).values k = (w.disk.file path).values k := by
    intro k hk
    have hsame := restoreFile_other hnodup ⟨w.disk, [], false⟩ hk
    rwa [hpath] at hsame
  have hmem : ∀ l', l' ∈ (w.links.filter fun l' => l'.1 ≠ l.1) ↔ l' ∈ w.links ∧ l'.1 ≠ l.1 := by
    intro l'
    simp
  refine ⟨?_, ?_, ?_, ?_, ?_, ?_, ?_⟩
  · exact h.providers.sublist (List.filter_sublist.map _)
  · exact fun l' hl' => h.paths l' ((hmem l').1 hl').1
  · exact fun l' hl' => h.keys l' ((hmem l').1 hl').1
  · intro l' hl' var hvar hno
    obtain ⟨hl', hne⟩ := (hmem l').1 hl'
    obtain ⟨hprior, hall, hshown, hextended, hvalue⟩ := h.held l' hl' var hvar hno
    refine ⟨hprior, hall, hshown, hextended, ?_⟩
    have hk : var.key ∉ recordedKeys l.2 := fun hk =>
      hne (h.single l' hl' l hl var.key hno (List.mem_map_of_mem hvar) hk)
    show (((restoreFile ⟨w.disk, [], false⟩ l.2).disk.file path).values var.key).getLast? = _
    rw [hother _ hk]
    exact hvalue
  · exact fun a ha b hb => h.single a ((hmem a).1 ha).1 b ((hmem b).1 hb).1
  · intro k hno hk
    show (((restoreFile ⟨w.disk, [], false⟩ l.2).disk.file path).values k).getLast? = _
    by_cases hkl : k ∈ recordedKeys l.2
    · obtain ⟨var, hvar, rfl⟩ := List.mem_map.1 hkl
      rw [hself var hvar hno]
      exact (h.held l hl var hvar hno).1
    · rw [hother k hkl]
      refine h.free k hno fun x hx hkx => ?_
      by_cases hprovider : x.1 = l.1
      · obtain rfl : x = l := List.inj_on_of_nodup_map h.providers hx hl hprovider
        exact hkl hkx
      · exact hk x ((hmem x).2 ⟨hx, hprovider⟩) hkx
  · intro hne
    obtain ⟨x, hx⟩ := List.exists_mem_of_ne_nil _ hne
    obtain ⟨hx, hxne⟩ := (hmem x).1 hx
    have hcovering := hcond.resolve_left fun hall => hxne (hall x hx)
    obtain ⟨⟨k, hno, hvalues⟩, hall⟩ := h.covers (List.ne_nil_of_mem hl)
    refine ⟨⟨k, hno, ?_⟩, fun k' hno' v hv => ?_⟩
    · show ((restoreFile ⟨w.disk, [], false⟩ l.2).disk.file path).values k ≠ []
      by_cases hkl : k ∈ recordedKeys l.2
      · obtain ⟨var, hvar, rfl⟩ := List.mem_map.1 hkl
        obtain ⟨v, hprior, -⟩ := hcovering var hvar hno
        intro hnil
        have hlast := hself var hvar hno
        rw [hnil, hprior] at hlast
        cases hlast
      · rw [hother k hkl]
        exact hvalues
    · have hv' : (((restoreFile ⟨w.disk, [], false⟩ l.2).disk.file path).values k').getLast? = some v := hv
      by_cases hkl : k' ∈ recordedKeys l.2
      · obtain ⟨var, hvar, rfl⟩ := List.mem_map.1 hkl
        obtain ⟨p, hprior, hmissing⟩ := hcovering var hvar hno'
        rw [hself var hvar hno', hprior] at hv'
        rw [← Option.some.inj hv']
        exact hmissing
      · rw [hother k' hkl] at hv'
        exact hall k' hno' v hv'

/-- One operation keeps the invariant. -/
theorem Shared.step (h : Shared path start w) (hstep : SharedStep path FileOp.Ordered w w') :
    Shared path start w' := by
  obtain ⟨op, hcond, hrun⟩ := hstep
  cases op with
  | link provider vars baseUrl marker =>
      obtain ⟨hvars, hm⟩ := hcond
      unfold FileOp.run at hrun
      dsimp only at hrun
      split at hrun
      · cases hrun
      · rename_i plan hplan
        split at hrun
        · cases hrun
        · rename_i disk' hwrite
          obtain rfl := Option.some.inj hrun
          obtain ⟨d, d', hbefore, hafter, hpath, hlinked⟩ := link_written hvars hm hplan hwrite
          exact h.link hbefore hafter hpath hlinked
  | unlink provider =>
      unfold FileOp.run at hrun
      dsimp only at hrun
      split at hrun
      · cases hrun
      · rename_i l hfind
        have hl : l ∈ w.links := List.mem_of_find?_eq_some hfind
        obtain rfl : l.1 = provider := by simpa using List.find?_some hfind
        split at hrun
        · cases hrun
        · rename_i hdone
          obtain rfl := Option.some.inj hrun
          rw [Bool.or_eq_true, not_or, Bool.not_eq_true, Bool.not_eq_true', Bool.not_eq_false,
            List.all_eq_true] at hdone
          exact h.unlink hl (hcond l hl rfl) hdone.1 hdone.2

/-- Perform operations that pass a check. -/
def runChecked (path : Str) (check : SharedFile → FileOp → Bool) :
    List FileOp → SharedFile → Option SharedFile
  | [], w => some w
  | op :: ops, w => if check w op then (op.run path w).bind (runChecked path check ops) else none

theorem steps_runChecked {cond : SharedFile → FileOp → Prop} {check : SharedFile → FileOp → Bool}
    (hcheck : ∀ w op, check w op = true → cond w op) {ops : List FileOp}
    (h : runChecked path check ops w = some w') : Steps (SharedStep path cond) w w' := by
  induction ops generalizing w with
  | nil =>
      obtain rfl := Option.some.inj h
      exact .refl
  | cons op ops ih =>
      unfold runChecked at h
      split_ifs at h with hop
      obtain ⟨v, hv, hrest⟩ := Option.bind_eq_some_iff.1 h
      exact .head ⟨op, hcheck w op hop, hv⟩ (ih hrest)

def linkedGroq : FileOp :=
  .link "groq".toList ["GROQ_BASE_URL".toList] "http://127.0.0.1:8787/p/web-1/groq".toList
    (markerComment "groq".toList "web".toList)

def linkedOpenai : FileOp :=
  .link "openai".toList ["OPENAI_BASE_URL".toList] "http://127.0.0.1:8787/p/web-1/openai".toList
    (markerComment "openai".toList "web".toList)

/-- A `.env` without links. -/
def envFile (content : String) : SharedFile := ⟨Disk.single ".env".toList content.toList, []⟩

/-- The providers that are linked, and the values of `NO_PROXY`. -/
def sharedView (w : SharedFile) : List Str × List Str :=
  (w.links.map Prod.fst, w.values ".env".toList "NO_PROXY".toList)

/-- No spelling of `NO_PROXY` is in the file. -/
def proxyFree (w : SharedFile) : Bool :=
  match w.disk.file ".env".toList with
  | .regular content => (proxyKeys (EnvDocument.parse content)).isEmpty
  | _ => true

theorem not_covers_of_proxyFree (h : proxyFree w = true) : ¬w.Covers ".env".toList := by
  rintro ⟨⟨k, hno, hne⟩, -⟩
  unfold SharedFile.values at hne
  unfold proxyFree at h
  split at h
  · rename_i content hfile
    rw [hfile] at hne
    have hmem : k ∈ proxyKeys (EnvDocument.parse content) := mem_proxyKeys.2 ⟨hne, hno⟩
    rw [List.isEmpty_iff.1 h] at hmem
    cases hmem
  · rename_i hother
    cases hfile : w.disk.file ".env".toList with
    | regular content => exact hother content hfile
    | missing => exact hne (by rw [hfile]; rfl)
    | symlink => exact hne (by rw [hfile]; rfl)
    | directory => exact hne (by rw [hfile]; rfl)
    | statFailed e => exact hne (by rw [hfile]; rfl)
    | unreadable e => exact hne (by rw [hfile]; rfl)

/-- Links of these two providers, and unlinks of the one that was linked last. -/
def lastFirst (w : SharedFile) : FileOp → Bool
  | .link _ vars _ marker =>
      decide ((vars, marker) ∈ [(["GROQ_BASE_URL".toList], markerComment "groq".toList "web".toList),
        (["OPENAI_BASE_URL".toList], markerComment "openai".toList "web".toList)])
  | .unlink provider => w.links.all fun l => decide (l.1 ≠ provider) ||
      (w.links.all fun l' => decide (l'.1 = provider)) || l.2.vars.all fun var => !isNoProxy var.key

theorem ordered_of_lastFirst (w : SharedFile) (op : FileOp) (h : lastFirst w op = true) :
    op.Ordered w := by
  cases op with
  | link provider vars baseUrl marker =>
      have hmem := of_decide_eq_true h
      simp only [List.mem_cons, Prod.mk.injEq, List.not_mem_nil, or_false] at hmem
      rcases hmem with ⟨rfl, rfl⟩ | ⟨rfl, rfl⟩
      · exact ⟨⟨by decide, by decide, by decide⟩, markerLine_markerComment (by decide) (by decide)⟩
      · exact ⟨⟨by decide, by decide, by decide⟩, markerLine_markerComment (by decide) (by decide)⟩
  | unlink provider =>
      intro l hl hprovider
      have hl' := List.all_eq_true.1 h l hl
      simp only [hprovider, ne_eq, not_true_eq_false, decide_false, Bool.false_or, Bool.or_eq_true,
        List.all_eq_true, decide_eq_true_eq, Bool.not_eq_true'] at hl'
      rcases hl' with hall | hfree
      · exact .inl hall
      · refine .inr fun var hvar hno => ?_
        rw [hfree var hvar] at hno
        cases hno

end Tethra.Gateway
