import Tethra.Core.Error
import Tethra.Lib.Sequential

set_option autoImplicit false

/-! # Incremental repository scans (`core/src/vault.rs`)

A monitor run scans the new commits of each registered repository, stores how far it got, and raises the
alerts afterwards, from the list of all reports. An error for one repository discards the list for all,
with the positions already stored (`finding_of_first_repository_lost`). -/

namespace Tethra.RepoMonitor

open Interleave Runs

structure ScanUnit where
  label : Str
  content : Str
  deriving DecidableEq, Repr

/-- What `range_added_units` returns. -/
structure HistoryScan where
  units : List ScanUnit
  complete : Bool
  warnings : List Str
  deriving DecidableEq, Repr

structure Finding where
  suppressionKey : Str
  secret : Str
  deriving DecidableEq, Repr

inductive AlertKind where
  | repoSecretExposure
  | repoScanCoverageGap
  deriving DecidableEq, Repr

structure NewAlert where
  kind : AlertKind
  dedupKey : Str
  detail : Str
  deriving DecidableEq, Repr

structure RepoScanReport where
  repoPath : Str
  headCommit : Str
  findings : Nat
  baselineOnly : Bool
  deriving DecidableEq, Repr

def exposureKey (path : Str) : Str := "repo_scan_exposure:".toList ++ path

def coverageGapKey (path : Str) : Str := "repo_scan_coverage_gap:".toList ++ path

/-! ## Statements -/

inductive Action where
  /-- The passes of the monitor run before the repositories, or behind them. -/
  | otherPasses
  | pruneObservabilityState
  | listPaths
  | repoExists (path : Str)
  | headCommit (path : Str)
  | lastScanned (path : Str)
  | rangeAddedUnits (path last head : Str)
  | loadSuppressions
  | matchFinding (f : Finding)
  | markFindingsExposed (findings : List (Finding × Option Str))
  | audit (event : String) (detail : Str)
  | storePosition (path head : Str) (findings : Nat)
  | upsertAlert (a : NewAlert)

abbrev Answer : Action → Type
  | .otherPasses => Unit
  | .pruneObservabilityState => Unit
  | .listPaths => List Str
  | .repoExists _ => Bool
  | .headCommit _ => Str
  | .lastScanned _ => Option Str
  | .rangeAddedUnits _ _ _ => HistoryScan
  | .loadSuppressions => List Str
  | .matchFinding _ => Option Str
  | .markFindingsExposed _ => Unit
  | .audit _ _ => Unit
  | .storePosition _ _ _ => Unit
  | .upsertAlert _ => Bool

abbrev Prog (β : Type) := Interleave.Prog Answer CoreError β

abbrev call (a : Action) : Prog (Answer a) := Interleave.Prog.call a

/-! ## The monitor run -/

/-- The units to scan, and the detail of a coverage gap. -/
def readRange (last head : Str) : Except CoreError HistoryScan → List ScanUnit × Option Str
  | .ok scan =>
      if scan.complete then (scan.units, none)
      else (scan.units, some ("the commit range ".toList ++ last ++ "..".toList ++ head ++
        " was only PARTIALLY scanned (".toList ++ "; ".toList.intercalate scan.warnings ++
        "). Commits in that range may contain unexamined secrets.".toList))
  | .error _ =>
      ([], some ("the commit range ".toList ++ last ++ "..".toList ++ head ++
        " could not be read (history rewritten, or git failed). ".toList ++
        "Commits in that range were NOT scanned.".toList))

def coverageGapAlert (path detail : Str) : NewAlert where
  kind := .repoScanCoverageGap
  dedupKey := coverageGapKey path
  detail := detail ++ " Run `tethra scan --reverify` for a full history re-scan.".toList

def exposureAlert (report : RepoScanReport) : NewAlert where
  kind := .repoSecretExposure
  dedupKey := exposureKey report.repoPath
  detail := (toString report.findings).toList ++ " finding(s) in commits up to ".toList ++
    report.headCommit

section

variable (scanText : ScanUnit → List Finding)

def matchAll : List Finding → Prog (List (Finding × Option Str))
  | [] => .ret []
  | f :: findings =>
      call (.matchFinding f) >>= fun matched =>
      matchAll findings >>= fun rest =>
      .ret ((f, matched) :: rest)

/-- A coverage gap is recorded; an error is ignored. -/
def recordGap (path : Str) : Option Str → Prog Unit
  | some detail => (call (.upsertAlert (coverageGapAlert path detail))).attempt >>= fun _ => .ret ()
  | none => .ret ()

/-- The findings of the units that are not suppressed. -/
def unsuppressed (units : List ScanUnit) (suppressions : List Str) : List Finding :=
  (units.flatMap scanText).filter fun f => f.suppressionKey ∉ suppressions

/-- The number of findings in the commits behind `last`. -/
def scanRange (path last head : Str) : Prog Nat :=
  (call (.rangeAddedUnits path last head)).attempt >>= fun reply =>
  recordGap path (readRange last head reply).2 >>= fun _ =>
  call .loadSuppressions >>= fun suppressions =>
  let findings := unsuppressed scanText (readRange last head reply).1 suppressions
  matchAll findings >>= fun matches' =>
  if findings.length > 0 then
    (call (.markFindingsExposed matches')).attempt >>= fun _ =>
    call (.audit "background_scan_findings" ("repo=".toList ++ path ++ " new_commits_findings=".toList ++
      (toString findings.length).toList)) >>= fun _ =>
    .ret findings.length
  else .ret findings.length

def storeReport (path head : Str) (findings : Nat) (baselineOnly : Bool) :
    Prog (Option RepoScanReport) :=
  call (.storePosition path head findings) >>= fun _ =>
  .ret (some ⟨path, head, findings, baselineOnly⟩)

/-- One repository; without a repository, its head or new commits there is no report. -/
def scanRepo (path : Str) : Prog (Option RepoScanReport) :=
  call (.repoExists path) >>= fun (isThere : Bool) =>
  if !isThere then .ret none
  else
    (call (.headCommit path)).attempt >>= fun head =>
    match head with
    | .error _ => .ret none
    | .ok head =>
        call (.lastScanned path) >>= fun (last : Option Str) =>
        match last with
        | none => storeReport path head 0 true
        | some last =>
            if last = head then .ret none
            else scanRange scanText path last head >>= fun findings =>
              storeReport path head findings false

def scanRepos : List Str → Prog (List RepoScanReport)
  | [] => .ret []
  | path :: paths =>
      scanRepo scanText path >>= fun report =>
      scanRepos paths >>= fun reports =>
      .ret (report.toList ++ reports)

def scanReposIncremental : Prog (List RepoScanReport) :=
  call .listPaths >>= fun paths => scanRepos scanText paths

def raiseAlerts : List RepoScanReport → Prog Unit
  | [] => .ret ()
  | report :: reports =>
      if report.findings > 0 then
        call (.upsertAlert (exposureAlert report)) >>= fun _ => raiseAlerts reports
      else raiseAlerts reports

/-- `run_monitor`: the alerts are raised if the scan of all repositories succeeds. -/
def runMonitor : Prog Unit :=
  call .otherPasses >>= fun _ =>
  (call .pruneObservabilityState).attempt >>= fun _ =>
  (scanReposIncremental scanText).attempt >>= fun reports =>
  match reports with
  | .ok reports => raiseAlerts reports >>= fun _ => call .otherPasses
  | .error _ => call .otherPasses

end

/-! ## The vault -/

/-- A stored position that went from `last` to `head`, what was read of the commits in between, and the
    suppressions of that moment. -/
structure Advance where
  path : Str
  last : Str
  head : Str
  scan : HistoryScan
  suppressions : List Str
  deriving DecidableEq, Repr

/-- `positions` is `repo_scan_state`; the alerts that were ever recorded and the advances are kept. -/
structure State where
  registered : List Str
  positions : Str → Option Str
  suppressions : List Str
  recorded : List NewAlert
  advances : List Advance
  /-- What was last read of a range. -/
  read : HistoryScan

def unread : HistoryScan := ⟨[], false, []⟩

/-- The replies that an action can have. -/
def Replies (s : State) : (a : Action) → Except CoreError (Answer a) → Prop
  | .listPaths, .ok paths => paths = s.registered
  | .repoExists _, .error _ => False
  | .lastScanned path, .ok last => last = s.positions path
  | .loadSuppressions, .ok suppressions => suppressions = s.suppressions
  | _, _ => True

/-- The state behind a reply; a statement that fails changes nothing. -/
def effect (s : State) : (a : Action) → Except CoreError (Answer a) → State
  | .pruneObservabilityState, .ok _ =>
      { s with positions := fun path => if path ∈ s.registered then s.positions path else none }
  | .rangeAddedUnits _ _ _, .ok scan => { s with read := scan }
  | .rangeAddedUnits _ _ _, .error _ => { s with read := unread }
  | .storePosition path head _, .ok _ =>
      { s with
        positions := Function.update s.positions path (some head)
        advances := match s.positions path with
          | some last => s.advances ++ [⟨path, last, head, s.read, s.suppressions⟩]
          | none => s.advances }
  | .upsertAlert a, .ok _ => { s with recorded := s.recorded ++ [a] }
  | _, _ => s

/-! ## What the alerts account for -/

section

variable (scanText : ScanUnit → List Finding)

def Recorded (s : State) (kind : AlertKind) (key : Str) : Prop :=
  ∃ a ∈ s.recorded, a.kind = kind ∧ a.dedupKey = key

/-- The commits of the advance have a finding that was not suppressed. -/
def Advance.HasFinding (a : Advance) : Prop := unsuppressed scanText a.scan.units a.suppressions ≠ []

/-- A coverage gap is recorded for each advance that was not completely read. -/
def GapsRecorded (s : State) : Prop :=
  ∀ a ∈ s.advances, a.scan.complete = false →
    Recorded s .repoScanCoverageGap (coverageGapKey a.path)

/-- An exposure alert is recorded for each advance with a finding, but for the repositories of `awaited`;
    and the coverage gaps are. -/
structure Accounted (s : State) (awaited : List Str) : Prop where
  exposures : ∀ a ∈ s.advances, a.HasFinding scanText →
    Recorded s .repoSecretExposure (exposureKey a.path) ∨ a.path ∈ awaited
  gaps : GapsRecorded s

/-- No finding is skipped, and no gap. -/
def NothingSkipped (s : State) : Prop := Accounted scanText s []

/-- No advance awaits its exposure alert. -/
def NoneAwaited (s : State) : Prop :=
  ∀ a ∈ s.advances, a.HasFinding scanText → Recorded s .repoSecretExposure (exposureKey a.path)

/-- An error of the action ends the scan of the repositories, or the run. -/
def Action.Aborts : Action → Prop
  | .otherPasses | .listPaths | .lastScanned _ | .loadSuppressions | .matchFinding _ | .audit _ _
  | .storePosition _ _ _ => True
  | .upsertAlert a => a.kind = .repoSecretExposure
  | _ => False

/-- An error that ends something comes while no advance awaits its exposure alert, and a coverage gap is
    recorded without an error, unless the repository has one. -/
def Harmless (s : State) : (a : Action) → Except CoreError (Answer a) → Prop
  | _, .ok _ => True
  | .upsertAlert a, .error _ =>
      match a.kind with
      | .repoSecretExposure => NoneAwaited scanText s
      | .repoScanCoverageGap => Recorded s .repoScanCoverageGap a.dedupKey
  | a, .error _ => a.Aborts → NoneAwaited scanText s

/-- The actions, with errors anywhere. -/
def Exec (s : State) (a : Action) (r : Except CoreError (Answer a)) (t : State) : Prop :=
  Replies s a r ∧ t = effect s a r

def ExecHarmless (s : State) (a : Action) (r : Except CoreError (Answer a)) (t : State) : Prop :=
  Exec s a r t ∧ Harmless scanText s a r

end

/-- What happens to the vault: a monitor run, to its end or to where it is killed, or a change of the
    registered repositories or of the suppressions. -/
inductive Step (scanText : ScanUnit → List Finding)
    (exec : State → (a : Action) → Except CoreError (Answer a) → State → Prop) (cut : State → Prop) :
    State → State → Prop where
  | monitor {s t : State} (h : Ends exec cut (runMonitor scanText) s t) : Step scanText exec cut s t
  | register (s : State) (paths : List Str) : Step scanText exec cut s { s with registered := paths }
  | suppress (s : State) (keys : List Str) : Step scanText exec cut s { s with suppressions := keys }

/-- A vault before its first monitor run, with any positions and alerts. -/
def State.initial (registered : List Str) (positions : Str → Option Str) (suppressions : List Str)
    (recorded : List NewAlert) : State :=
  ⟨registered, positions, suppressions, recorded, [], unread⟩

/-! ## One action -/

section

variable {scanText : ScanUnit → List Finding} {s t : State} {awaited : List Str}

theorem Accounted.mono {awaited' : List Str} (h : Accounted scanText s awaited)
    (hsub : awaited ⊆ awaited') : Accounted scanText s awaited' :=
  ⟨fun a ha hf => (h.exposures a ha hf).imp_right fun hp => hsub hp, h.gaps⟩

/-- Nothing is skipped when no advance awaits its alert. -/
theorem Accounted.nothingSkipped (h : Accounted scanText s awaited) (hnone : NoneAwaited scanText s) :
    NothingSkipped scanText s := ⟨fun a ha hf => .inl (hnone a ha hf), h.gaps⟩

/-- The account is about the advances and the recorded alerts. -/
theorem Accounted.congr (h : Accounted scanText s awaited) (hadvances : t.advances = s.advances)
    (hrecorded : t.recorded = s.recorded) : Accounted scanText t awaited := by
  constructor
  · intro a ha hf
    unfold Recorded
    rw [hrecorded]
    exact h.exposures a (hadvances ▸ ha) hf
  · intro a ha hc
    unfold Recorded
    rw [hrecorded]
    exact h.gaps a (hadvances ▸ ha) hc

theorem Recorded.append {kind : AlertKind} {key : Str} (h : Recorded s kind key) (alerts : List NewAlert)
    (hrecorded : t.recorded = s.recorded ++ alerts) : Recorded t kind key := by
  obtain ⟨a, ha, hkind, hkey⟩ := h
  exact ⟨a, by rw [hrecorded]; exact List.mem_append_left _ ha, hkind, hkey⟩

/-- A recorded alert keeps the account. -/
theorem Accounted.append (h : Accounted scanText s awaited) (a : NewAlert) :
    Accounted scanText { s with recorded := s.recorded ++ [a] } awaited :=
  ⟨fun b hb hf => (h.exposures b hb hf).imp_left fun h => h.append [a] rfl,
    fun b hb hc => (h.gaps b hb hc).append [a] rfl⟩

/-- A recorded exposure accounts for its repository. -/
theorem Accounted.expose {path : Str} {a : NewAlert}
    (h : Accounted scanText s (path :: awaited)) (hkind : a.kind = .repoSecretExposure)
    (hkey : a.dedupKey = exposureKey path) :
    Accounted scanText { s with recorded := s.recorded ++ [a] } awaited := by
  refine ⟨fun b hb hf => ?_, (h.append a).gaps⟩
  rcases (h.append a).exposures b hb hf with hrecorded | hpath
  · exact .inl hrecorded
  · rcases List.mem_cons.1 hpath with hpath | hpath
    · exact .inl ⟨a, List.mem_append_right _ List.mem_cons_self, hkind, by rw [hkey, hpath]⟩
    · exact .inr hpath

/-- A stored position: the repository awaits its alert if there are findings, and has its gap recorded if
    the range was not read completely. -/
theorem Accounted.store {path head : Str} {n : Nat} (h : Accounted scanText s awaited)
    (hfindings : ∀ last, s.positions path = some last →
      unsuppressed scanText s.read.units s.suppressions ≠ [] → path ∈ awaited)
    (hgap : ∀ last, s.positions path = some last → s.read.complete = false →
      Recorded s .repoScanCoverageGap (coverageGapKey path)) :
    Accounted scanText (effect s (.storePosition path head n) (.ok ())) awaited := by
  cases hlast : s.positions path with
  | none => exact h.congr (by simp [effect, hlast]) rfl
  | some last =>
      have hadvances : (effect s (.storePosition path head n) (.ok ())).advances =
          s.advances ++ [⟨path, last, head, s.read, s.suppressions⟩] := by
        simp [effect, hlast]
      constructor
      · intro a ha hf
        rw [hadvances] at ha
        rcases List.mem_append.1 ha with ha | ha
        · exact h.exposures a ha hf
        · obtain rfl := List.mem_singleton.1 ha
          exact .inr (hfindings last hlast hf)
      · intro a ha hc
        rw [hadvances] at ha
        rcases List.mem_append.1 ha with ha | ha
        · exact h.gaps a ha hc
        · obtain rfl := List.mem_singleton.1 ha
          exact hgap last hlast hc

variable {β : Type}

/-- The end of a program: with a result that meets `P`, or with an error and nothing skipped. -/
def Leaves (scanText : ScanUnit → List Finding) (P : β → State → Prop) :
    Except CoreError β → State → Prop
  | .ok b, t => P b t
  | .error _, t => NothingSkipped scanText t

/-- A statement that only reads, and whose error ends the scan. -/
theorem ensures_read {a : Action} {f : Answer a → Prog β} {P : β → State → Prop}
    (h : Accounted scanText s awaited) (hquiet : ∀ r, effect s a r = s) (haborts : a.Aborts)
    (hupsert : ∀ alert, a ≠ .upsertAlert alert)
    (hf : ∀ x, Replies s a (.ok x) →
      EnsuresAlong (ExecHarmless scanText) GapsRecorded (f x) s (Leaves scanText P)) :
    EnsuresAlong (ExecHarmless scanText) GapsRecorded (call a >>= f) s (Leaves scanText P) := by
  refine EnsuresAlong.call_bind h.gaps (fun x t hexec => ?_) fun e t hexec => ?_
  · obtain ⟨⟨hreply, rfl⟩, _⟩ := hexec
    rw [hquiet]
    exact hf x hreply
  · obtain ⟨⟨_, rfl⟩, hharmless⟩ := hexec
    rw [hquiet]
    refine h.nothingSkipped ?_
    cases a with
    | upsertAlert alert => exact absurd rfl (hupsert alert)
    | _ => exact hharmless haborts

/-- A statement that only reads, and whose error is not the end. -/
theorem ensures_attempt {a : Action} {f : Except CoreError (Answer a) → Prog β}
    {P : β → State → Prop} (h : Accounted scanText s awaited) (hquiet : ∀ r, effect s a r = s)
    (hf : ∀ r, EnsuresAlong (ExecHarmless scanText) GapsRecorded (f r) s (Leaves scanText P)) :
    EnsuresAlong (ExecHarmless scanText) GapsRecorded ((call a).attempt >>= f) s (Leaves scanText P) := by
  refine EnsuresAlong.attempt_bind h.gaps fun r t hexec => ?_
  obtain ⟨⟨_, rfl⟩, _⟩ := hexec
  rw [hquiet]
  exact hf r

theorem Leaves.bind {γ : Type} {P : β → State → Prop} {Q : γ → State → Prop} {p : Prog β}
    {f : β → Prog γ} (h : EnsuresAlong (ExecHarmless scanText) GapsRecorded p s (Leaves scanText P))
    (hf : ∀ b t, P b t → EnsuresAlong (ExecHarmless scanText) GapsRecorded (f b) t (Leaves scanText Q)) :
    EnsuresAlong (ExecHarmless scanText) GapsRecorded (p >>= f) s (Leaves scanText Q) :=
  EnsuresAlong.bind h hf fun _ _ h => h

/-! ## The scan -/

theorem matchAll_ensures (h : Accounted scanText s awaited) (findings : List Finding) :
    EnsuresAlong (ExecHarmless scanText) GapsRecorded (matchAll findings) s
      (Leaves scanText fun _ t => t = s) := by
  induction findings with
  | nil => exact rfl
  | cons f findings ih =>
      refine ensures_read h (fun _ => rfl) trivial (fun _ h => by cases h) fun matched _ => ?_
      refine Leaves.bind ih ?_
      rintro rest t rfl
      exact rfl

/-- What a coverage gap leaves as it was. -/
structure SameScan (s t : State) : Prop where
  positions : t.positions = s.positions
  suppressions : t.suppressions = s.suppressions
  read : t.read = s.read

theorem recordGap_ensures (h : Accounted scanText s awaited) (path : Str) (detail : Option Str) :
    EnsuresAlong (ExecHarmless scanText) GapsRecorded (recordGap path detail) s (Leaves scanText fun _ t =>
      Accounted scanText t awaited ∧ SameScan s t ∧
        (detail ≠ none → Recorded t .repoScanCoverageGap (coverageGapKey path))) := by
  cases detail with
  | none => exact ⟨h, ⟨rfl, rfl, rfl⟩, fun hne => absurd rfl hne⟩
  | some detail =>
      refine EnsuresAlong.attempt_bind h.gaps fun r t hexec => ?_
      obtain ⟨⟨_, rfl⟩, hharmless⟩ := hexec
      cases r with
      | ok created =>
          exact ⟨h.append _, ⟨rfl, rfl, rfl⟩, fun _ =>
            ⟨_, List.mem_append_right _ List.mem_cons_self, rfl, rfl⟩⟩
      | error e => exact ⟨h, ⟨rfl, rfl, rfl⟩, fun _ => hharmless⟩

/-- What is scanned of a range is what was read of it, and a range that was not read completely has a
    gap. -/
theorem readRange_read (s : State) (path last head : Str) (r : Except CoreError HistoryScan) :
    (readRange last head r).1 = (effect s (.rangeAddedUnits path last head) r).read.units ∧
      ((effect s (.rangeAddedUnits path last head) r).read.complete = false →
        (readRange last head r).2 ≠ none) := by
  cases r with
  | ok scan =>
      cases hcomplete : scan.complete with
      | true => simp [readRange, effect, hcomplete]
      | false => simp [readRange, effect, hcomplete]
  | error e => simp [readRange, effect, unread]

theorem effect_rangeAddedUnits (s : State) (path last head : Str) (r : Except CoreError HistoryScan) :
    (effect s (.rangeAddedUnits path last head) r).advances = s.advances ∧
      (effect s (.rangeAddedUnits path last head) r).recorded = s.recorded ∧
      (effect s (.rangeAddedUnits path last head) r).positions = s.positions := by
  cases r with
  | ok scan => exact ⟨rfl, rfl, rfl⟩
  | error e => exact ⟨rfl, rfl, rfl⟩

/-- The count is that of what was read, and a range that was not read completely has its gap recorded. -/
structure Scanned (scanText : ScanUnit → List Finding) (path : Str) (positions : Str → Option Str)
    (awaited : List Str) (n : Nat) (t : State) : Prop where
  accounted : Accounted scanText t awaited
  positions : t.positions = positions
  count : n = (unsuppressed scanText t.read.units t.suppressions).length
  gap : t.read.complete = false → Recorded t .repoScanCoverageGap (coverageGapKey path)

theorem scanRange_ensures (h : Accounted scanText s awaited) (path last head : Str) :
    EnsuresAlong (ExecHarmless scanText) GapsRecorded (scanRange scanText path last head) s
      (Leaves scanText (Scanned scanText path s.positions awaited)) := by
  refine EnsuresAlong.attempt_bind h.gaps fun reply t hexec => ?_
  obtain ⟨⟨_, rfl⟩, _⟩ := hexec
  obtain ⟨hunits, hgap⟩ := readRange_read s path last head reply
  obtain ⟨hadvances, hrecorded, hpositions⟩ := effect_rangeAddedUnits s path last head reply
  refine Leaves.bind (recordGap_ensures (h.congr hadvances hrecorded) path _) fun _ t ht => ?_
  obtain ⟨haccounted, hsame, hdetail⟩ := ht
  refine ensures_read haccounted (fun _ => rfl) trivial (fun _ h => by cases h)
    fun suppressions hsuppressions => ?_
  have hscanned : Scanned scanText path s.positions awaited
      (unsuppressed scanText (readRange last head reply).1 suppressions).length t := by
    refine ⟨haccounted, hsame.positions.trans hpositions, ?_, fun hc => hdetail (hgap ?_)⟩
    · rw [hunits, hsame.read, show suppressions = t.suppressions from hsuppressions]
    · rwa [hsame.read] at hc
  refine Leaves.bind (matchAll_ensures haccounted _) ?_
  rintro matches' t rfl
  split
  · refine ensures_attempt haccounted (fun _ => rfl) fun _ => ?_
    exact ensures_read haccounted (fun _ => rfl) trivial (fun _ h => by cases h) fun _ _ => hscanned
  · exact hscanned

/-- The repositories of reports with findings. -/
def awaiting (reports : List RepoScanReport) : List Str :=
  (reports.filter fun r => r.findings > 0).map (·.repoPath)

theorem storeReport_ensures {path head : Str} {n : Nat} {baselineOnly : Bool}
    (h : Accounted scanText s awaited)
    (hfindings : ∀ last, s.positions path = some last →
      n = (unsuppressed scanText s.read.units s.suppressions).length)
    (hgap : ∀ last, s.positions path = some last → s.read.complete = false →
      Recorded s .repoScanCoverageGap (coverageGapKey path)) :
    EnsuresAlong (ExecHarmless scanText) GapsRecorded (storeReport path head n baselineOnly) s
      (Leaves scanText fun report t =>
        Accounted scanText t (awaited ++ awaiting report.toList)) := by
  refine EnsuresAlong.call_bind h.gaps (fun _ t hexec => ?_) fun e t hexec => ?_
  · obtain ⟨⟨_, rfl⟩, _⟩ := hexec
    refine (h.mono (List.subset_append_left _ _)).store (fun last hlast hne => ?_) hgap
    have hpos : n > 0 := by
      rw [hfindings last hlast]
      exact List.length_pos_of_ne_nil hne
    refine List.mem_append_right _ ?_
    simp [awaiting, hpos]
  · obtain ⟨⟨_, rfl⟩, hharmless⟩ := hexec
    exact h.nothingSkipped (hharmless trivial)

theorem scanRepo_ensures (h : Accounted scanText s awaited) (path : Str) :
    EnsuresAlong (ExecHarmless scanText) GapsRecorded (scanRepo scanText path) s
      (Leaves scanText fun report t =>
        Accounted scanText t (awaited ++ awaiting report.toList)) := by
  have hnone : Accounted scanText s (awaited ++ awaiting (none : Option RepoScanReport).toList) :=
    h.mono (List.subset_append_left _ _)
  refine EnsuresAlong.call_bind h.gaps (fun isThere t hexec => ?_) fun e t hexec => ?_
  · rw [show t = s from hexec.1.2]
    cases isThere with
    | false => exact hnone
    | true =>
        refine ensures_attempt h (fun _ => rfl) fun head => ?_
        cases head with
        | error e => exact hnone
        | ok head =>
            refine ensures_read h (fun _ => rfl) trivial (fun _ h => by cases h) fun last hlast => ?_
            have hlast : last = s.positions path := hlast
            cases last with
            | none =>
                have hfirst : s.positions path = none := hlast.symm
                exact storeReport_ensures h (fun last h => by rw [hfirst] at h; cases h)
                  fun last h => by rw [hfirst] at h; cases h
            | some last =>
                dsimp only
                split
                · exact hnone
                · refine Leaves.bind (scanRange_ensures h path last head) fun n t ht => ?_
                  exact storeReport_ensures ht.accounted (fun _ _ => ht.count) fun _ _ => ht.gap
  · obtain ⟨⟨hreply, _⟩, _⟩ := hexec
    exact hreply.elim

theorem scanRepos_ensures (h : Accounted scanText s awaited) (paths : List Str) :
    EnsuresAlong (ExecHarmless scanText) GapsRecorded (scanRepos scanText paths) s
      (Leaves scanText fun reports t =>
        Accounted scanText t (awaited ++ awaiting reports)) := by
  induction paths generalizing s awaited with
  | nil => exact h.mono (List.subset_append_left _ _)
  | cons path paths ih =>
      refine Leaves.bind (scanRepo_ensures h path) fun report t ht => ?_
      refine Leaves.bind (ih ht) fun reports u hu => ?_
      show Accounted scanText u (awaited ++ awaiting (report.toList ++ reports))
      simpa [awaiting] using hu

theorem raiseAlerts_ensures {reports : List RepoScanReport}
    (h : Accounted scanText s (awaiting reports)) :
    EnsuresAlong (ExecHarmless scanText) GapsRecorded (raiseAlerts reports) s
      (Leaves scanText fun _ t => NothingSkipped scanText t) := by
  induction reports generalizing s with
  | nil => exact h
  | cons report reports ih =>
      unfold raiseAlerts
      by_cases hfindings : report.findings > 0
      · rw [if_pos hfindings]
        have hawaiting : awaiting (report :: reports) = report.repoPath :: awaiting reports := by
          simp [awaiting, hfindings]
        rw [hawaiting] at h
        refine EnsuresAlong.call_bind h.gaps (fun _ t hexec => ?_) fun e t hexec => ?_
        · obtain ⟨⟨_, rfl⟩, _⟩ := hexec
          exact ih (h.expose rfl rfl)
        · obtain ⟨⟨_, rfl⟩, hharmless⟩ := hexec
          exact h.nothingSkipped hharmless
      · rw [if_neg hfindings]
        have hawaiting : awaiting (report :: reports) = awaiting reports := by
          simp [awaiting, hfindings]
        exact ih (hawaiting ▸ h)

/-- A monitor run whose errors are harmless skips nothing. -/
theorem runMonitor_ensures (h : NothingSkipped scanText s) :
    EnsuresAlong (ExecHarmless scanText) GapsRecorded (runMonitor scanText) s
      fun _ t => NothingSkipped scanText t := by
  have hscan : ∀ t, NothingSkipped scanText t →
      EnsuresAlong (ExecHarmless scanText) GapsRecorded (scanReposIncremental scanText) t
        (Leaves scanText fun reports t => Accounted scanText t (awaiting reports)) :=
    fun t ht => ensures_read ht (fun _ => rfl) trivial (fun _ h => by cases h) fun paths _ =>
      scanRepos_ensures ht paths
  have hpasses : ∀ t, NothingSkipped scanText t →
      EnsuresAlong (ExecHarmless scanText) GapsRecorded (call .otherPasses) t
        fun _ t => NothingSkipped scanText t :=
    fun t ht => EnsuresAlong.call ht.gaps fun r u hexec => by rwa [show u = t from hexec.1.2]
  refine EnsuresAlong.call_bind h.gaps (fun _ t hexec => ?_) fun e t hexec => ?_
  · rw [show t = s from hexec.1.2]
    refine EnsuresAlong.attempt_bind h.gaps fun r t hexec => ?_
    have hpruned : NothingSkipped scanText t := by
      obtain ⟨⟨_, rfl⟩, _⟩ := hexec
      cases r with
      | ok x => exact h.congr rfl rfl
      | error e => exact h
    have hattempt : EnsuresAlong (ExecHarmless scanText) GapsRecorded (scanReposIncremental scanText).attempt t
        fun r t => ∃ reports, r = .ok reports ∧ Leaves scanText (fun reports t =>
          Accounted scanText t (awaiting reports)) reports t :=
      ((hscan t hpruned).mono fun r t ht => ⟨r, rfl, ht⟩).attempt
    refine hattempt.bind ?_ fun e t ⟨_, herror, _⟩ => by cases herror
    rintro reports t ⟨_, hreports, hleaves⟩
    obtain rfl := Except.ok.inj hreports
    cases reports with
    | error e => exact hpasses t hleaves
    | ok reports =>
        refine (raiseAlerts_ensures hleaves).bind (fun _ u hu => hpasses u hu) fun _ _ hu => hu
  · rwa [show t = s from hexec.1.2]

end

/-- No finding is skipped: in every sequence of monitor runs and changes in which each error that ends
    something, and each kill, comes while no stored advance awaits its exposure alert, and no coverage gap
    fails to be recorded. -/
theorem nothing_skipped (scanText : ScanUnit → List Finding) {registered suppressions : List Str}
    {positions : Str → Option Str} {recorded : List NewAlert} {t : State}
    (h : Steps (Step scanText (ExecHarmless scanText) (NoneAwaited scanText))
      (State.initial registered positions suppressions recorded) t) : NothingSkipped scanText t := by
  refine Steps.invariant (fun s t hs hstep => ?_)
    ⟨(fun _ ha => by cases ha), fun _ ha => by cases ha⟩ h
  cases hstep with
  | monitor hrun => exact hrun.post (runMonitor_ensures hs) fun u hnone hgaps =>
      ⟨fun a ha hf => .inl (hnone a ha hf), hgaps⟩
  | register paths => exact hs.congr rfl rfl
  | suppress keys => exact hs.congr rfl rfl

/-! ## Two repositories -/

/-- Every unit has one finding. -/
def oneFinding (_ : ScanUnit) : List Finding := [⟨"key".toList, "secret".toList⟩]

/-- One new commit in each repository; the position of `failing` cannot be read. -/
def reply (failing : Option Str) (s : State) : (a : Action) → Except CoreError (Answer a)
  | .otherPasses => .ok ()
  | .pruneObservabilityState => .ok ()
  | .listPaths => .ok s.registered
  | .repoExists _ => .ok true
  | .headCommit _ => .ok "c2".toList
  | .lastScanned path =>
      if failing = some path then .error (.db "disk I/O error".toList) else .ok (s.positions path)
  | .rangeAddedUnits _ _ _ => .ok ⟨[⟨".env".toList, []⟩], true, []⟩
  | .loadSuppressions => .ok s.suppressions
  | .matchFinding _ => .ok none
  | .markFindingsExposed _ => .ok ()
  | .audit _ _ => .ok ()
  | .storePosition _ _ _ => .ok ()
  | .upsertAlert _ => .ok true

def handler (failing : Option Str) (s : State) (a : Action) : Except CoreError (Answer a) × State :=
  (reply failing s a, effect s a (reply failing s a))

theorem exec_handler (failing : Option Str) (s : State) (a : Action) :
    Exec s a (handler failing s a).1 (handler failing s a).2 := by
  refine ⟨?_, rfl⟩
  cases a with
  | lastScanned path =>
      simp only [handler, reply]
      split
      · exact trivial
      · exact rfl
  | listPaths | loadSuppressions => exact rfl
  | _ => exact trivial

theorem execHarmless_handler (s : State) (a : Action) :
    ExecHarmless oneFinding s a (handler none s a).1 (handler none s a).2 := by
  refine ⟨exec_handler none s a, ?_⟩
  cases a with
  | _ => exact trivial

/-- Two repositories that were both scanned up to `c1`. -/
def twoRepositories : State :=
  State.initial ["a".toList, "b".toList] (fun _ => some "c1".toList) [] []

/-- Both are scanned, and both exposures are recorded. -/
theorem nothing_skipped_two :
    ∃ t, Steps (Step oneFinding (ExecHarmless oneFinding) (NoneAwaited oneFinding)) twoRepositories t ∧
      NothingSkipped oneFinding t ∧ t.advances.length = 2 ∧ t.recorded.length = 2 := by
  have hsteps : Steps (Step oneFinding (ExecHarmless oneFinding) (NoneAwaited oneFinding))
      twoRepositories ((runMonitor oneFinding).run (handler none) twoRepositories).2 :=
    .single (.monitor (Ends.run execHarmless_handler _ _))
  exact ⟨_, hsteps, nothing_skipped oneFinding hsteps, by decide, by decide⟩

/-- The first repository has a finding and its position is stored; the position of the second cannot be
    read, and the alert of the first is never raised. -/
theorem finding_of_first_repository_lost :
    ∃ t, Steps (Step oneFinding Exec fun _ => True) twoRepositories t ∧
      ¬NothingSkipped oneFinding t := by
  refine ⟨((runMonitor oneFinding).run (handler (some "b".toList)) twoRepositories).2,
    .single (.monitor (Ends.run (exec_handler _) _ _)), fun h => ?_⟩
  have hadvance : (⟨"a".toList, "c1".toList, "c2".toList, ⟨[⟨".env".toList, []⟩], true, []⟩, []⟩ :
      Advance) ∈
      ((runMonitor oneFinding).run (handler (some "b".toList)) twoRepositories).2.advances := by
    decide
  have hrecorded :
      ((runMonitor oneFinding).run (handler (some "b".toList)) twoRepositories).2.recorded = [] := by
    decide
  rcases h.exposures _ hadvance (by unfold Advance.HasFinding; decide) with ⟨a, ha, _⟩ | hawaited
  · rw [hrecorded] at ha
    cases ha
  · cases hawaited

end Tethra.RepoMonitor
