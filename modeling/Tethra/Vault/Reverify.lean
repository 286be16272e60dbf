import Tethra.Vault.RepoMonitor
import Tethra.Lib.Keyed

set_option autoImplicit false

/-! # Re-verifying a repository (`core/src/vault.rs`, `reverify_repo_exposure_collected`)

A full re-scan is collected first and judged later, and no lock is held in between. What a monitor run reads of a
repository meanwhile goes into the alert with the same key, which a clean judgement resolves: only the commits that
were collected are known to be clean (`resolved_examined`, `late_alert_resolved`). -/

namespace Tethra.Reverify

open Runs
open RepoMonitor (ScanUnit HistoryScan Finding AlertKind NewAlert RepoScanReport exposureKey coverageGapKey readRange
  coverageGapAlert exposureAlert unsuppressed)

/-! ## Paths -/

/-- Paths with their texts, the directories they lead to and the repositories these are in. -/
structure Places (P D G : Type) where
  ofText : Str → P
  text : P → Str
  canonicalize : P → Option D
  rootOf : D → Option G

/-! ## The vault and the repositories -/

/-- A row of `alerts`; `sources` are the commits that it was raised and refreshed from. -/
structure AlertRow where
  kind : AlertKind
  dedupKey : Str
  detail : Str
  isOpen : Bool
  sources : List Str
  deriving DecidableEq, Repr

/-- What a monitor run has read of a repository, and has still to record. -/
structure Scan where
  path : Str
  head : Str
  gap : Option Str
  findings : Nat
  baselineOnly : Bool
  commits : List Str
  deriving DecidableEq, Repr

/-- `FullRepoScan`, with the commits that were collected. It is `late` once an alert of its repository was raised or
    refreshed from a commit that is not among them. -/
structure FullRepoScan (P : Type) where
  repo : P
  history : HistoryScan
  workingTree : List ScanUnit
  commits : List Str
  late : Bool
  deriving DecidableEq, Repr

structure State (P G : Type) where
  history : G → List Str
  registered : List Str
  positions : Str → Option Str
  suppressions : List Str
  alerts : List AlertRow
  auditEvents : List Str
  reads : List Scan
  collections : List (FullRepoScan P)

/-- The table of alerts behind `alerts::upsert`. -/
def upsert (alert : NewAlert) (sources : List Str) (alerts : List AlertRow) : List AlertRow :=
  if alerts.any fun a => a.isOpen && decide (a.dedupKey = alert.dedupKey) then
    alerts.map fun a =>
      if a.isOpen = true ∧ a.dedupKey = alert.dedupKey then
        { a with detail := alert.detail, sources := a.sources ++ sources }
      else a
  else alerts ++ [⟨alert.kind, alert.dedupKey, alert.detail, true, sources⟩]

/-- `alerts::resolve_by_dedup`, and the number of rows. -/
def resolveByDedup (key : Str) (alerts : List AlertRow) : List AlertRow × Nat :=
  (alerts.map fun a => if a.dedupKey = key ∧ a.isOpen = true then { a with isOpen := false } else a,
   alerts.countP fun a => decide (a.dedupKey = key) && a.isOpen)

/-- The commits behind `last`. -/
def newCommits (last : Str) (history : List Str) : List Str :=
  if last ∈ history then (history.dropWhile (· ≠ last)).tail else history

structure RepoReverifyReport where
  repoPath : Str
  findings : Nat
  clean : Bool
  resolvedAlerts : Nat
  coverageComplete : Bool
  coverageWarnings : List Str
  deriving DecidableEq, Repr

section

variable {P D G : Type} [DecidableEq D] [DecidableEq G] (places : Places P D G) (scanText : ScanUnit → List Finding)
  (matchFinding : Finding → Except CoreError (Option Str))

def Places.repository (p : P) : Option G := (places.canonicalize p).bind places.rootOf

/-- What `scan_repos_incremental` reads of one repository; nothing where there is no repository, no commit or no new
    commit. -/
def scanRepo (s : State P G) (path : Str) (reply : Except CoreError HistoryScan) : Option Scan :=
  match places.repository (places.ofText path) with
  | none => none
  | some g =>
      match (s.history g).getLast? with
      | none => none
      | some head =>
          match s.positions path with
          | none => some ⟨path, head, none, 0, true, []⟩
          | some last =>
              if last = head then none
              else
                let (units, gap) := readRange last head reply
                some ⟨path, head, gap, (unsuppressed scanText units s.suppressions).length, false,
                  newCommits last (s.history g)⟩

/-- `scan_units`. -/
def scanUnits (s : State P G) (units : List ScanUnit) : Except CoreError (List Finding) :=
  (unsuppressed scanText units s.suppressions).mapM fun f => (matchFinding f).map fun _ => f

/-- The registered spelling of a directory, else the path as it was given. -/
def registeredPath (s : State P G) (repo : P) (canon : D) : Str :=
  ((s.registered.dedup.insertionSort (· ≤ ·)).find? fun p =>
    decide (places.canonicalize (places.ofText p) = some canon)).getD (places.text repo)

/-- `reverify_repo_exposure_collected`. -/
def reverifyCollected (s : State P G) (collected : FullRepoScan P) : State P G × Except CoreError RepoReverifyReport :=
  match places.canonicalize collected.repo with
  | none => (s, .error (.invalidInput ("cannot access ".toList ++ places.text collected.repo)))
  | some canon =>
      let repoPath := registeredPath places s collected.repo canon
      match scanUnits scanText matchFinding s collected.history.units, scanUnits scanText matchFinding s collected.workingTree with
      | .error e, _ => (s, .error e)
      | .ok _, .error e => (s, .error e)
      | .ok ofHistory, .ok ofTree =>
          let count := (ofHistory ++ ofTree).length
          let report (resolved : Nat) : RepoReverifyReport :=
            ⟨repoPath, count, decide (count = 0) && collected.history.complete, resolved, collected.history.complete,
              collected.history.warnings⟩
          if count = 0 ∧ collected.history.complete = true then
            let (alerts, exposures) := resolveByDedup (exposureKey repoPath) s.alerts
            let (alerts, gaps) := resolveByDedup (coverageGapKey repoPath) alerts
            let resolved := exposures + gaps
            let auditEvents := if 0 < resolved then
                s.auditEvents ++ ["repo=".toList ++ repoPath ++ " resolved=".toList ++ (toString resolved).toList]
              else s.auditEvents
            ({ s with alerts, auditEvents }, .ok (report resolved))
          else (s, .ok (report 0))

/-! ## The steps -/

/-- An alert that a monitor run raises or refreshes from what it read. A collection of the repository that lacks one
    of the commits is late from then on. -/
def State.record (s : State P G) (alert : NewAlert) (x : Scan) : State P G :=
  { s with
    alerts := upsert alert x.commits s.alerts
    collections := s.collections.map fun k =>
      if places.repository k.repo = places.repository (places.ofText x.path) ∧ ¬∀ c ∈ x.commits, c ∈ k.commits then
        { k with late := true }
      else k }

/-- The steps of any number of monitor runs and of re-verifications, and what else happens meanwhile. -/
inductive Step (unitsOf : Str → List ScanUnit) [DecidableEq P] : State P G → State P G → Prop where
  | commit (s : State P G) (g : G) (c : Str) :
      Step unitsOf s { s with history := Function.update s.history g (s.history g ++ [c]) }
  | register (s : State P G) (paths : List Str) : Step unitsOf s { s with registered := paths }
  | suppress (s : State P G) (keys : List Str) : Step unitsOf s { s with suppressions := keys }
  | dismiss (s : State P G) (key : Str) : Step unitsOf s { s with alerts := (resolveByDedup key s.alerts).1 }
  | scan {s : State P G} {path : Str} {reply : Except CoreError HistoryScan} {x : Scan}
      (hpath : path ∈ s.registered) (hscan : scanRepo places scanText s path reply = some x)
      (hreply : ∀ read, reply = .ok read → read.complete = true → read.units = x.commits.flatMap unitsOf) :
      Step unitsOf s { s with reads := x :: s.reads }
  | recordGap {s : State P G} {x : Scan} {detail : Str} (hx : x ∈ s.reads) (hgap : x.gap = some detail) :
      Step unitsOf s (s.record places (coverageGapAlert x.path detail) x)
  | storePosition {s : State P G} {x : Scan} (hx : x ∈ s.reads) :
      Step unitsOf s { s with positions := Function.update s.positions x.path (some x.head) }
  | raise {s : State P G} {x : Scan} (hx : x ∈ s.reads) (hfindings : 0 < x.findings) :
      Step unitsOf s (s.record places (exposureAlert ⟨x.path, x.head, x.findings, x.baselineOnly⟩) x)
  | collect {s : State P G} {repo : P} {g : G} {read : HistoryScan} {workingTree : List ScanUnit}
      (hrepo : places.repository repo = some g)
      (hread : read.complete = true → read.units = (s.history g).flatMap unitsOf) :
      Step unitsOf s { s with collections := ⟨repo, read, workingTree, s.history g, false⟩ :: s.collections }
  | judge {s : State P G} {k : FullRepoScan P} (hk : k ∈ s.collections) :
      Step unitsOf s
        { (reverifyCollected places scanText matchFinding s k).1 with collections := s.collections.erase k }

/-! ## Keys -/

theorem exposureKey_inj {p q : Str} : exposureKey p = exposureKey q ↔ p = q := List.append_right_inj _

theorem coverageGapKey_inj {p q : Str} : coverageGapKey p = coverageGapKey q ↔ p = q := List.append_right_inj _

theorem exposureKey_ne_coverageGapKey {p q : Str} : exposureKey p ≠ coverageGapKey q := by
  intro h
  have hexposure : ("repo_scan_exposure:".toList ++ p).take 11 = "repo_scan_exposure:".toList.take 11 :=
    List.take_append_of_le_length (by decide)
  have hgap : ("repo_scan_coverage_gap:".toList ++ q).take 11 = "repo_scan_coverage_gap:".toList.take 11 :=
    List.take_append_of_le_length (by decide)
  have htake : "repo_scan_exposure:".toList.take 11 = "repo_scan_coverage_gap:".toList.take 11 := by
    rw [← hexposure, ← hgap]
    exact congrArg (List.take 11) h
  revert htake
  decide

/-- The keys of the alerts of a path. -/
def KeyOf (path key : Str) : Prop := key = exposureKey path ∨ key = coverageGapKey path

theorem KeyOf.unique {p q key : Str} (hp : KeyOf p key) (hq : KeyOf q key) : p = q := by
  rcases hp with rfl | rfl <;> rcases hq with hq | hq
  · exact exposureKey_inj.1 hq
  · exact absurd hq exposureKey_ne_coverageGapKey
  · exact absurd hq.symm exposureKey_ne_coverageGapKey
  · exact coverageGapKey_inj.1 hq

/-! ## What the alerts come from -/

/-- An alert that a re-verification would resolve now. -/
def Resolves (s : State P G) (k : FullRepoScan P) (a : AlertRow) : Prop :=
  a ∈ s.alerts ∧ a ∉ (reverifyCollected places scanText matchFinding s k).1.alerts

/-- The commits of a scan and of an alert are those of its repository. -/
structure Sourced (s : State P G) : Prop where
  reads : ∀ x ∈ s.reads, ∀ c ∈ x.commits, ∃ g, places.repository (places.ofText x.path) = some g ∧ c ∈ s.history g
  alerts : ∀ a ∈ s.alerts, ∃ path, KeyOf path a.dedupKey ∧ ∀ c ∈ a.sources,
    ∃ g, places.repository (places.ofText path) = some g ∧ c ∈ s.history g

/-- A collection that is not late has every commit that an alert of its repository comes from. -/
def Covered (s : State P G) : Prop :=
  ∀ k ∈ s.collections, k.late = false → ∀ a ∈ s.alerts, ∀ path, KeyOf path a.dedupKey →
    places.repository (places.ofText path) = places.repository k.repo → ∀ c ∈ a.sources, c ∈ k.commits

end

/-! ## One statement -/

section

variable {alert : NewAlert} {sources : List Str} {alerts : List AlertRow} {a : AlertRow} {key : Str}

/-- An upsert leaves the other rows, and adds its commits to those of a row with its key or to none. -/
theorem mem_upsert (h : a ∈ upsert alert sources alerts) :
    a ∈ alerts ∨ a.dedupKey = alert.dedupKey ∧ ∃ old, a.sources = old ++ sources ∧
      (old = [] ∨ ∃ a' ∈ alerts, a'.dedupKey = a.dedupKey ∧ a'.sources = old) := by
  unfold upsert at h
  split at h
  · obtain ⟨a', ha', rfl⟩ := List.mem_map.1 h
    by_cases hkey : a'.isOpen = true ∧ a'.dedupKey = alert.dedupKey
    · rw [if_pos hkey]
      exact .inr ⟨hkey.2, a'.sources, rfl, .inr ⟨a', ha', rfl, rfl⟩⟩
    · rw [if_neg hkey]
      exact .inl ha'
  · rcases List.mem_append.1 h with h | h
    · exact .inl h
    · rw [List.mem_singleton.1 h]
      exact .inr ⟨rfl, [], rfl, .inl rfl⟩

/-- Every row was there, with its key and its commits. -/
def ComesFrom (alerts alerts' : List AlertRow) : Prop :=
  ∀ a ∈ alerts', ∃ a' ∈ alerts, a'.dedupKey = a.dedupKey ∧ a'.sources = a.sources

theorem ComesFrom.refl : ComesFrom alerts alerts := fun a h => ⟨a, h, rfl, rfl⟩

theorem ComesFrom.trans {alerts' alerts'' : List AlertRow} (h : ComesFrom alerts alerts') (h' : ComesFrom alerts' alerts'') :
    ComesFrom alerts alerts'' := by
  intro a ha
  obtain ⟨b, hb, hkey, hsources⟩ := h' a ha
  obtain ⟨c, hc, hkey', hsources'⟩ := h b hb
  exact ⟨c, hc, hkey'.trans hkey, hsources'.trans hsources⟩

theorem comesFrom_resolveByDedup : ComesFrom alerts (resolveByDedup key alerts).1 := by
  intro a ha
  obtain ⟨a', ha', rfl⟩ := List.mem_map.1 ha
  refine ⟨a', ha', ?_⟩
  split <;> exact ⟨rfl, rfl⟩

theorem mem_resolveByDedup (h : a ∈ alerts) (hkey : a.dedupKey ≠ key) : a ∈ (resolveByDedup key alerts).1 :=
  List.mem_map.2 ⟨a, h, if_neg fun h => hkey h.1⟩

end

section

variable {P D G : Type} [DecidableEq D] {places : Places P D G}
  {scanText : ScanUnit → List Finding} {matchFinding : Finding → Except CoreError (Option Str)} {s t : State P G}

variable (places scanText matchFinding) in
/-- A re-verification only resolves alerts of the path that it found. -/
theorem reverifyCollected_cases (s : State P G) (k : FullRepoScan P) :
    (reverifyCollected places scanText matchFinding s k).1 = s ∨
      ∃ canon auditEvents, places.canonicalize k.repo = some canon ∧
        (reverifyCollected places scanText matchFinding s k).1 =
          { s with
            alerts := (resolveByDedup (coverageGapKey (registeredPath places s k.repo canon))
              (resolveByDedup (exposureKey (registeredPath places s k.repo canon)) s.alerts).1).1
            auditEvents } := by
  unfold reverifyCollected
  cases hcanon : places.canonicalize k.repo with
  | none => exact .inl rfl
  | some canon =>
      dsimp only
      split
      · exact .inl rfl
      · exact .inl rfl
      · split
        · exact .inr ⟨canon, _, rfl, rfl⟩
        · exact .inl rfl

theorem comesFrom_reverifyCollected {k : FullRepoScan P} :
    ComesFrom s.alerts (reverifyCollected places scanText matchFinding s k).1.alerts := by
  rcases reverifyCollected_cases places scanText matchFinding s k with h | ⟨canon, _, -, h⟩
  · rw [h]
    exact .refl
  · rw [h]
    exact comesFrom_resolveByDedup.trans comesFrom_resolveByDedup

/-- The path that a re-verification found leads to its repository, if the text of the path it was given does. -/
theorem repository_registeredPath {k : FullRepoScan P} {canon : D} (hcanon : places.canonicalize k.repo = some canon)
    (htext : places.canonicalize (places.ofText (places.text k.repo)) = places.canonicalize k.repo) :
    places.repository (places.ofText (registeredPath places s k.repo canon)) = places.repository k.repo := by
  have hfound : places.canonicalize (places.ofText (registeredPath places s k.repo canon)) = places.canonicalize k.repo := by
    unfold registeredPath
    cases hfind : (s.registered.dedup.insertionSort (· ≤ ·)).find? fun p =>
        decide (places.canonicalize (places.ofText p) = some canon) with
    | none => exact htext
    | some p =>
        have hp := List.find?_some hfind
        exact (of_decide_eq_true hp).trans hcanon.symm
  rw [Places.repository, hfound]
  rfl

theorem keyOf_of_resolves {k : FullRepoScan P} {a : AlertRow} (h : Resolves places scanText matchFinding s k a) :
    ∃ canon, places.canonicalize k.repo = some canon ∧ KeyOf (registeredPath places s k.repo canon) a.dedupKey := by
  obtain ⟨ha, hgone⟩ := h
  rcases reverifyCollected_cases places scanText matchFinding s k with
    hsame | ⟨canon, _, hcanon, hresolved⟩
  · rw [hsame] at hgone
    exact absurd ha hgone
  · refine ⟨canon, hcanon, ?_⟩
    by_contra hkey
    rw [KeyOf, not_or] at hkey
    rw [hresolved] at hgone
    exact hgone (mem_resolveByDedup (mem_resolveByDedup ha hkey.1) hkey.2)

/-! ## Every step -/

theorem newCommits_subset {last : Str} {history : List Str} : newCommits last history ⊆ history := by
  unfold newCommits
  split
  · exact fun c hc => (List.dropWhile_suffix _).subset (List.mem_of_mem_tail hc)
  · exact List.Subset.refl _

omit [DecidableEq D] in
/-- What is read of a repository are commits that it has. -/
theorem commits_of_scanRepo {path : Str} {reply : Except CoreError HistoryScan} {x : Scan}
    (h : scanRepo places scanText s path reply = some x) :
    ∀ c ∈ x.commits, ∃ g, places.repository (places.ofText x.path) = some g ∧ c ∈ s.history g := by
  unfold scanRepo at h
  cases hrepo : places.repository (places.ofText path) with
  | none =>
      rw [hrepo] at h
      cases h
  | some g =>
      rw [hrepo] at h
      dsimp only at h
      split at h
      · cases h
      · split at h
        · obtain rfl := Option.some.inj h
          exact fun c hc => by cases hc
        · split at h
          · cases h
          · obtain rfl := Option.some.inj h
            exact fun c hc => ⟨g, hrepo, newCommits_subset hc⟩

omit [DecidableEq D] in
/-- Histories grow, and the alerts and what was read stay sourced. -/
theorem Sourced.grow (h : Sourced places s) (hhistory : ∀ g, s.history g ⊆ t.history g) (hreads : t.reads ⊆ s.reads)
    (halerts : ComesFrom s.alerts t.alerts) : Sourced places t := by
  refine ⟨fun x hx c hc => ?_, fun a ha => ?_⟩
  · obtain ⟨g, hg, hin⟩ := h.reads x (hreads hx) c hc
    exact ⟨g, hg, hhistory g hin⟩
  · obtain ⟨a', ha', hkey, hsources⟩ := halerts a ha
    obtain ⟨path, hpath, hall⟩ := h.alerts a' ha'
    refine ⟨path, hkey ▸ hpath, fun c hc => ?_⟩
    obtain ⟨g, hg, hin⟩ := hall c (hsources ▸ hc)
    exact ⟨g, hg, hhistory g hin⟩

variable [DecidableEq G]

omit [DecidableEq D] in
theorem Sourced.record (h : Sourced places s) {x : Scan} (hx : x ∈ s.reads) {alert : NewAlert}
    (hkey : KeyOf x.path alert.dedupKey) : Sourced places (s.record places alert x) := by
  refine ⟨h.reads, fun a ha => ?_⟩
  rcases mem_upsert ha with hold | ⟨hsame, old, hsources, hold⟩
  · exact h.alerts a hold
  · refine ⟨x.path, hsame ▸ hkey, fun c hc => ?_⟩
    rw [hsources] at hc
    rcases List.mem_append.1 hc with hc | hc
    · rcases hold with rfl | ⟨a', ha', hkey', rfl⟩
      · cases hc
      · obtain ⟨path, hpath, hall⟩ := h.alerts a' ha'
        rw [hkey', hsame] at hpath
        rw [← hpath.unique hkey]
        exact hall c hc
    · exact h.reads x hx c hc

variable [DecidableEq P] {unitsOf : Str → List ScanUnit}

theorem sourced_step (h : Sourced places s) (hstep : Step places scanText matchFinding unitsOf s t) : Sourced places t := by
  cases hstep with
  | commit g c =>
      refine h.grow (fun g' => ?_) (List.Subset.refl _) .refl
      by_cases hg : g' = g
      · subst hg
        simp
      · simp [Function.update_of_ne hg]
  | register paths => exact h.grow (fun _ => List.Subset.refl _) (List.Subset.refl _) .refl
  | suppress keys => exact h.grow (fun _ => List.Subset.refl _) (List.Subset.refl _) .refl
  | dismiss key => exact h.grow (fun _ => List.Subset.refl _) (List.Subset.refl _) comesFrom_resolveByDedup
  | scan hpath hscan hreply =>
      refine ⟨fun x hx => ?_, h.alerts⟩
      rcases List.mem_cons.1 hx with rfl | hx
      · exact commits_of_scanRepo hscan
      · exact h.reads x hx
  | recordGap hx hgap => exact h.record hx (.inr rfl)
  | storePosition hx => exact h.grow (fun _ => List.Subset.refl _) (List.Subset.refl _) .refl
  | raise hx hfindings => exact h.record hx (.inl rfl)
  | collect hrepo hread => exact h.grow (fun _ => List.Subset.refl _) (List.Subset.refl _) .refl
  | @judge k hk =>
      have hrest : (reverifyCollected places scanText matchFinding s k).1.history = s.history ∧
          (reverifyCollected places scanText matchFinding s k).1.reads = s.reads := by
        rcases reverifyCollected_cases places scanText matchFinding s k with
          hsame | ⟨_, _, _, hresolved⟩
        · rw [hsame]
          exact ⟨rfl, rfl⟩
        · rw [hresolved]
          exact ⟨rfl, rfl⟩
      refine h.grow (fun g => ?_) ?_ comesFrom_reverifyCollected
      · intro c hc
        have hin : c ∈ (reverifyCollected places scanText matchFinding s k).1.history g := by
          rw [hrest.1]
          exact hc
        exact hin
      · intro x hx
        have hin : x ∈ (reverifyCollected places scanText matchFinding s k).1.reads := hx
        rwa [hrest.2] at hin

omit [DecidableEq D] [DecidableEq G] [DecidableEq P] in
/-- Rows that were there, and collections that were, are covered as before. -/
theorem Covered.shrink (h : Covered places s) (halerts : ComesFrom s.alerts t.alerts) (hcollections : t.collections ⊆ s.collections) :
    Covered places t := by
  intro k hk hlate a ha path hpath hrepo c hc
  obtain ⟨a', ha', hkey, hsources⟩ := halerts a ha
  exact h k (hcollections hk) hlate a' ha' path (hkey ▸ hpath) hrepo c (hsources ▸ hc)

omit [DecidableEq D] [DecidableEq P] in
theorem Covered.record (h : Covered places s) {x : Scan} {alert : NewAlert} (hkey : KeyOf x.path alert.dedupKey) :
    Covered places (s.record places alert x) := by
  intro k' hk' hlate a ha path hpath hrepo c hc
  obtain ⟨k, hk, rfl⟩ := List.mem_map.1 hk'
  split_ifs at hlate hrepo hc ⊢ with hmark
  rcases mem_upsert ha with hold | ⟨hsame, old, hsources, hold⟩
  · exact h k hk hlate a hold path hpath hrepo c hc
  · rw [hsources] at hc
    rcases List.mem_append.1 hc with hc | hc
    · rcases hold with rfl | ⟨a', ha', hkey', rfl⟩
      · cases hc
      · exact h k hk hlate a' ha' path (hkey' ▸ hpath) hrepo c hc
    · have hsamePath : path = x.path := hpath.unique (hsame ▸ hkey)
      rw [not_and_not_right] at hmark
      exact hmark (hsamePath ▸ hrepo.symm) c hc

theorem covered_step (hsourced : Sourced places s) (h : Covered places s)
    (hstep : Step places scanText matchFinding unitsOf s t) : Covered places t := by
  cases hstep with
  | commit g c => exact h
  | register paths => exact h
  | suppress keys => exact h
  | dismiss key => exact h.shrink comesFrom_resolveByDedup (List.Subset.refl _)
  | scan hpath hscan hreply => exact h
  | recordGap hx hgap => exact h.record (.inr rfl)
  | storePosition hx => exact h
  | raise hx hfindings => exact h.record (.inl rfl)
  | collect hrepo hread =>
      intro k hk hlate a ha path hpath hsame c hc
      rcases List.mem_cons.1 hk with rfl | hk
      · obtain ⟨path', hpath', hall⟩ := hsourced.alerts a ha
        obtain ⟨g', hg', hin⟩ := hall c hc
        rw [hpath'.unique hpath, hsame, hrepo] at hg'
        obtain rfl := Option.some.inj hg'
        exact hin
      · exact h k hk hlate a ha path hpath hsame c hc
  | judge hk => exact h.shrink comesFrom_reverifyCollected List.erase_subset

/-- A vault before its first monitor run and re-verification, with any repositories. -/
def State.initial (history : G → List Str) (registered : List Str) (positions : Str → Option Str)
    (suppressions : List Str) : State P G :=
  ⟨history, registered, positions, suppressions, [], [], [], []⟩

/-- In every run, a re-verification only resolves alerts that come from commits it collected, unless a monitor run has
    raised or refreshed an alert of the repository from later ones since, or the text of its path leads elsewhere. -/
theorem resolved_examined {history : G → List Str} {registered : List Str} {positions : Str → Option Str}
    {suppressions : List Str} {s : State P G}
    (hrun : Steps (Step places scanText matchFinding unitsOf) (.initial history registered positions suppressions) s)
    {k : FullRepoScan P} (hk : k ∈ s.collections) (hlate : k.late = false)
    (htext : places.canonicalize (places.ofText (places.text k.repo)) = places.canonicalize k.repo) {a : AlertRow}
    (ha : Resolves places scanText matchFinding s k a) : ∀ c ∈ a.sources, c ∈ k.commits := by
  have hinvariant : Sourced places s ∧ Covered places s := by
    refine Steps.invariant (I := fun s => Sourced places s ∧ Covered places s) (fun s t hs hstep => ?_) ?_ hrun
    · exact ⟨sourced_step hs.1 hstep, covered_step hs.1 hs.2 hstep⟩
    · exact ⟨⟨fun x hx => absurd hx List.not_mem_nil, fun a ha => absurd ha List.not_mem_nil⟩,
        fun k hk => absurd hk List.not_mem_nil⟩
  obtain ⟨canon, hcanon, hkey⟩ := keyOf_of_resolves ha
  exact hinvariant.2 k hk hlate a ha.1 _ hkey (repository_registeredPath hcanon htext)

end

/-! ## One repository -/

/-- Every path names a repository. -/
def plainPlaces : Places Str Str Str := ⟨id, id, some, some⟩

def leak : ScanUnit := ⟨"config".toList, "secret".toList⟩

def findLeak (u : ScanUnit) : List Finding := if u = leak then [⟨"k".toList, "secret".toList⟩] else []

def unmatched (_ : Finding) : Except CoreError (Option Str) := .ok none

/-- The second commit leaks a secret. -/
def leakUnits (c : Str) : List ScanUnit := if c = "c1".toList then [leak] else []

abbrev Leak := Step plainPlaces findLeak unmatched leakUnits

def beforeLeak : State Str Str := .initial (fun _ => ["c0".toList]) ["r".toList] (fun _ => some "c0".toList) []

def leakScan : Scan := ⟨"r".toList, "c1".toList, none, 1, false, ["c1".toList]⟩

def State.leaked (s : State Str Str) : State Str Str :=
  { s with history := Function.update s.history "r".toList (s.history "r".toList ++ ["c1".toList]) }

def State.readLeak (s : State Str Str) : State Str Str := { s with reads := leakScan :: s.reads }

def State.raiseLeak (s : State Str Str) : State Str Str :=
  s.record plainPlaces (exposureAlert ⟨"r".toList, "c1".toList, 1, false⟩) leakScan

def leakAlert : AlertRow :=
  ⟨.repoSecretExposure, exposureKey "r".toList, (exposureAlert ⟨"r".toList, "c1".toList, 1, false⟩).detail, true, ["c1".toList]⟩

def collection (read : List ScanUnit) (commits : List Str) (late : Bool) : FullRepoScan Str :=
  ⟨"r".toList, ⟨read, true, []⟩, [], commits, late⟩

def State.collected (s : State Str Str) (k : FullRepoScan Str) : State Str Str := { s with collections := k :: s.collections }

/-- The leak is raised, suppressed by the user and then collected. -/
def suppressedLeak : State Str Str :=
  { beforeLeak.leaked.readLeak.raiseLeak with suppressions := ["k".toList] }

theorem steps_suppressedLeak : Steps Leak beforeLeak
    (suppressedLeak.collected (collection [leak] ["c0".toList, "c1".toList] false)) := by
  have hcommit : Leak beforeLeak beforeLeak.leaked := .commit _ _ _
  have hscan : Leak beforeLeak.leaked beforeLeak.leaked.readLeak :=
    @Step.scan _ _ _ _ _ _ _ _ _ _ _ "r".toList (.ok ⟨[leak], true, []⟩) leakScan (by decide) (by decide +kernel) fun read h _ => by
      obtain rfl := Except.ok.inj h
      decide
  have hraise : Leak beforeLeak.leaked.readLeak beforeLeak.leaked.readLeak.raiseLeak :=
    @Step.raise _ _ _ _ _ _ _ _ _ _ _ leakScan List.mem_cons_self (by decide)
  have hsuppress : Leak beforeLeak.leaked.readLeak.raiseLeak suppressedLeak := .suppress _ _
  have hcollect : Leak suppressedLeak (suppressedLeak.collected (collection [leak] ["c0".toList, "c1".toList] false)) :=
    @Step.collect _ _ _ _ _ _ _ _ _ _ suppressedLeak "r".toList "r".toList ⟨[leak], true, []⟩ [] rfl fun _ => by decide
  exact ((((Relation.ReflTransGen.single hcommit).tail hscan).tail hraise).tail hsuppress).tail hcollect

theorem resolved_examined_leak :
    leakAlert.sources ⊆ (collection [leak] ["c0".toList, "c1".toList] false).commits :=
  fun c hc => resolved_examined steps_suppressedLeak List.mem_cons_self rfl rfl
    (⟨by decide +kernel, by decide +kernel⟩ : Resolves plainPlaces findLeak unmatched _ _ leakAlert) c hc

/-- A leak that is committed and raised between the collection and the judgement is resolved unseen. -/
theorem late_alert_resolved :
    ¬∀ (s : State Str Str) (k : FullRepoScan Str) (a : AlertRow), Steps Leak beforeLeak s → k ∈ s.collections →
      Resolves plainPlaces findLeak unmatched s k a → ∀ c ∈ a.sources, c ∈ k.commits := by
  intro h
  have hcollect : Leak beforeLeak (beforeLeak.collected (collection [] ["c0".toList] false)) :=
    @Step.collect _ _ _ _ _ _ _ _ _ _ beforeLeak "r".toList "r".toList ⟨[], true, []⟩ [] rfl fun _ => by decide
  have hcommit : Leak (beforeLeak.collected (collection [] ["c0".toList] false))
      (beforeLeak.collected (collection [] ["c0".toList] false)).leaked := .commit _ _ _
  have hscan : Leak (beforeLeak.collected (collection [] ["c0".toList] false)).leaked
      (beforeLeak.collected (collection [] ["c0".toList] false)).leaked.readLeak :=
    @Step.scan _ _ _ _ _ _ _ _ _ _ _ "r".toList (.ok ⟨[leak], true, []⟩) leakScan (by decide) (by decide +kernel) fun read h _ => by
      obtain rfl := Except.ok.inj h
      decide
  have hraise : Leak (beforeLeak.collected (collection [] ["c0".toList] false)).leaked.readLeak
      (beforeLeak.collected (collection [] ["c0".toList] false)).leaked.readLeak.raiseLeak :=
    @Step.raise _ _ _ _ _ _ _ _ _ _ _ leakScan List.mem_cons_self (by decide)
  have hmissing := h _ (collection [] ["c0".toList] true) leakAlert
    ((((Relation.ReflTransGen.single hcollect).tail hcommit).tail hscan).tail hraise) (by decide +kernel)
    ⟨by decide +kernel, by decide +kernel⟩
  revert hmissing
  decide

end Tethra.Reverify
