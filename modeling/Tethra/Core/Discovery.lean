import Tethra.Core.EnvFile
import Tethra.Gateway.WireText

set_option autoImplicit false

/-! # Discovering environment files (`core/src/envgov.rs`, `discover_bounded`)

One pass over the directories below a folder, with a budget for directories, files, bytes and time. The budgets are
reported when they stop the pass. The depth bound, a directory that cannot be read and an entry that is not shown are
passed over: a report that says nothing of a truncation is complete exactly when none of these hides a governed file
(`untruncated_complete_iff`). -/

namespace Tethra.Discovery

open Gateway Core.EnvFile Text

/-! ## Directories -/

/-- What an entry of a directory is. A file has its size and its text, where they can be read. -/
inductive Kind (D : Type) where
  | file (size : Option Nat) (content : Option Str)
  | dir (d : D)
  | other

/-- An entry of a directory; one that is not `shown` is not listed, or its type cannot be read. -/
structure Entry (D : Type) where
  name : Bytes
  shown : Bool
  kind : Kind D

structure Directory (D : Type) where
  readable : Bool
  entries : List (Entry D)
  nodup : (entries.map Entry.name).Nodup

abbrev Disk (D : Type) := D → Directory D

/-! ## Names -/

inductive EnvFileClass where
  | values
  | template
  deriving DecidableEq, Repr

def templateSuffixes : List Str := ["example".toList, "sample".toList, "template".toList, "dist".toList]

def skipDirs : List Str :=
  [".git".toList, "node_modules".toList, "target".toList, "dist".toList, "build".toList, ".venv".toList]

/-- `classify_file_name`. -/
def classifyFileName (fileName : Str) : Option EnvFileClass :=
  if fileName = ".env".toList then some .values
  else
    match stripPrefix ".env.".toList fileName with
    | none => none
    | some rest =>
        if rest = [] then none
        else if ((rest.splitOn '.').getLastD rest) ∈ templateSuffixes ∨ rest ∈ templateSuffixes then some .template
        else some .values

inductive Environment where
  | development
  | test
  | staging
  | production
  deriving DecidableEq, Repr

def environmentOfPart (part : Str) : Option Environment :=
  if part ∈ ["development".toList, "dev".toList, "local".toList] then some .development
  else if part ∈ ["test".toList, "testing".toList, "ci".toList] then some .test
  else if part ∈ ["staging".toList, "stage".toList, "preview".toList] then some .staging
  else if part ∈ ["production".toList, "prod".toList, "live".toList] then some .production
  else none

/-- `environment_from_name`. -/
def environmentFromName (fileName : Str) : Option Environment :=
  (stripPrefix ".env.".toList fileName).bind fun rest => (rest.splitOn '.').findSome? environmentOfPart

/-! ## The problems of a document -/

inductive EnvProblemKind where
  | malformed
  | duplicateKey
  deriving DecidableEq, Repr

structure EnvProblem where
  line : Nat
  kind : EnvProblemKind
  detail : Str
  deriving DecidableEq, Repr

def malformedProblem : EnvLine → Option EnvProblem
  | .malformed _ line reason => some ⟨line, .malformed, reason⟩
  | _ => none

/-- The keys that were seen, with the lines they were first defined on. -/
def duplicateProblems (seen : List (Str × Nat)) : List EnvEntry → List EnvProblem
  | [] => []
  | e :: rest =>
      match seen.lookup e.key with
      | some first =>
          ⟨e.line, .duplicateKey, "'".toList ++ e.key ++ "' is also defined on line ".toList ++ (toString first).toList
            ++ "; the later value usually wins".toList⟩ :: duplicateProblems seen rest
      | none => duplicateProblems ((e.key, e.line) :: seen) rest

/-- `EnvDocument::problems`. -/
def problems (doc : EnvDocument) : List EnvProblem :=
  doc.lines.filterMap malformedProblem ++ duplicateProblems [] doc.entries

/-! ## The report -/

inductive GitStatus where
  | tracked
  | ignored
  | untracked
  | notInRepo
  | unknown
  deriving DecidableEq, Repr

inductive GitHistory where
  | present
  | absent
  | notChecked
  deriving DecidableEq, Repr

/-- An entry of the report; `path` holds the names below the root, which the source shows as text. -/
structure EnvFileInfo where
  path : List Bytes
  relPath : Str
  fileClass : EnvFileClass
  environment : Option Environment
  gitStatus : GitStatus
  gitHistory : GitHistory
  entryCount : Nat
  problems : List EnvProblem
  oversized : Bool
  deriving DecidableEq, Repr

inductive DiscoveryTruncation where
  | fileBudget
  | directoryBudget
  | byteBudget
  | timeBudget
  deriving DecidableEq, Repr

structure DiscoveryReport where
  files : List EnvFileInfo
  skippedOversized : List Str
  truncated : Option DiscoveryTruncation
  gitWarnings : List Str
  deriving DecidableEq, Repr

structure DiscoveryLimits where
  maxDepth : Nat
  maxFiles : Nat
  maxDirs : Nat
  maxFileBytes : Nat
  maxTotalBytes : Nat

/-- The pass's surroundings: what Git's reader says, and whether the time is up at each look at the clock. -/
structure Surroundings where
  gitStatus : List Bytes → Str → GitStatus
  gitHistory : Str → GitHistory
  openWarnings : List Str
  dirWarnings : List Bytes → List Str
  timeUp : Nat → Bool

/-! ## The walk -/

/-- What a pass has gathered; `looks` counts the looks at the clock. -/
structure Walk where
  found : List EnvFileInfo
  skippedOversized : List Str
  totalBytes : Nat
  looks : Nat
  gitWarnings : List Str

section

variable {D : Type} (limits : DiscoveryLimits) (env : Surroundings)

/-- `strip_prefix(&root)`, as text with forward slashes. -/
def relText (path : List Bytes) : Str :=
  (fromUtf8Lossy ([(47 : UInt8)].intercalate path)).map fun c => if c = '\\' then '/' else c

def u64Max : Nat := 2 ^ 64 - 1

/-- A file of a directory: the pass with it, or the budget that it exceeds. -/
def visitFile (dir : List Bytes) (name : Bytes) (size : Option Nat) (content : Option Str)
    (cls : EnvFileClass) (w : Walk) : Except DiscoveryTruncation Walk :=
  let path := dir ++ [name]
  let rel := relText path
  let text := fromUtf8Lossy name
  let info : EnvFileInfo := ⟨path, rel, cls, environmentFromName text, env.gitStatus dir text, env.gitHistory rel,
    0, [], true⟩
  if limits.maxFiles ≤ w.found.length + w.skippedOversized.length then .error .fileBudget
  else if limits.maxFileBytes < size.getD u64Max then
    .ok { w with found := w.found ++ [info], skippedOversized := w.skippedOversized ++ [rel] }
  else if limits.maxTotalBytes < min u64Max (w.totalBytes + size.getD u64Max) then .error .byteBudget
  else
    let content := content.getD []
    let doc := EnvDocument.parse content
    .ok { w with
      found := w.found ++ [{ info with entryCount := doc.entries.length, problems := problems doc, oversized := false }]
      totalBytes := min u64Max (w.totalBytes + (utf8 content).length) }

/-- The entries of a directory at a depth: the pass, and the directories to come, the last one first. -/
def visitEntries (dir : List Bytes) (depth : Nat) :
    List (Entry D) → List (List Bytes × D × Nat) → Walk → Walk × Except DiscoveryTruncation (List (List Bytes × D × Nat))
  | [], stack, w => (w, .ok stack)
  | e :: rest, stack, w =>
      if env.timeUp w.looks then (w, .error .timeBudget)
      else
        let w := { w with looks := w.looks + 1 }
        if !e.shown then visitEntries dir depth rest stack w
        else
          match e.kind with
          | .dir d =>
              if depth < limits.maxDepth ∧ fromUtf8Lossy e.name ∉ skipDirs then
                visitEntries dir depth rest ((dir ++ [e.name], d, depth + 1) :: stack) w
              else visitEntries dir depth rest stack w
          | .other => visitEntries dir depth rest stack w
          | .file size content =>
              match classifyFileName (fromUtf8Lossy e.name) with
              | none => visitEntries dir depth rest stack w
              | some cls =>
                  match visitFile limits env dir e.name size content cls w with
                  | .error budget => (w, .error budget)
                  | .ok w => visitEntries dir depth rest stack w

def addWarnings (w : Walk) (warnings : List Str) : Walk :=
  { w with gitWarnings := warnings.foldl (fun ws text => if text ∈ ws then ws else ws ++ [text]) w.gitWarnings }

/-- The walk, with the directories that may still be visited, and the stack. -/
def walk (disk : Disk D) : Nat → List (List Bytes × D × Nat) → Walk → Walk × Option DiscoveryTruncation
  | _, [], w => (w, none)
  | 0, _ :: _, w => (w, some (if env.timeUp w.looks then .timeBudget else .directoryBudget))
  | n + 1, (dir, d, depth) :: stack, w =>
      if env.timeUp w.looks then (w, some .timeBudget)
      else
        let w := { w with looks := w.looks + 1 }
        if !(disk d).readable then walk disk n stack w
        else
          match visitEntries limits env dir depth (disk d).entries stack w with
          | (w, .error budget) => (w, some budget)
          | (w, .ok stack) => walk disk n stack (addWarnings w (env.dirWarnings dir))

/-- `discover_bounded`, of a root that can be accessed. -/
def discoverBounded (disk : Disk D) (root : D) : DiscoveryReport :=
  let (w, truncated) := walk limits env disk limits.maxDirs [([], root, 0)] ⟨[], [], 0, 0, env.openWarnings⟩
  { files := w.found.insertionSort fun a b => a.relPath ≤ b.relPath
    skippedOversized := w.skippedOversized.insertionSort fun a b => a ≤ b
    truncated
    gitWarnings := w.gitWarnings }

end

/-! ## The governed files -/

section

variable {D : Type} (disk : Disk D)

def Directory.entry (dir : Directory D) (name : Bytes) : Option (Entry D) := dir.entries.find? (·.name = name)

/-- A regular file with a governed name, reached through directories that are not skipped. -/
def governed : D → List Bytes → Bool
  | _, [] => false
  | d, name :: rest =>
      match ((disk d).entry name).map Entry.kind with
      | some (.file ..) => rest.isEmpty && (classifyFileName (fromUtf8Lossy name)).isSome
      | some (.dir d') => decide (fromUtf8Lossy name ∉ skipDirs) && governed d' rest
      | _ => false

/-- The governed file lies within the depth bound, every directory on the way to it can be read, and every entry is
    shown. -/
def visible (maxDepth : Nat) : D → Nat → List Bytes → Bool
  | _, _, [] => false
  | d, depth, name :: rest =>
      (disk d).readable &&
        match (disk d).entry name with
        | some ⟨_, true, .file ..⟩ => rest.isEmpty && (classifyFileName (fromUtf8Lossy name)).isSome
        | some ⟨_, true, .dir d'⟩ =>
            decide (depth < maxDepth ∧ fromUtf8Lossy name ∉ skipDirs) && visible maxDepth d' (depth + 1) rest
        | _ => false

end

/-! ## What a pass finds -/

section

variable {D : Type} (disk : Disk D) (limits : DiscoveryLimits) (env : Surroundings) (f : List Bytes)

/-- How often a file is found. -/
def count (w : Walk) : Nat := w.found.countP fun info => decide (info.path = f)

/-- The file is to be found below a directory of the stack. -/
def below : List Bytes × D × Nat → Nat
  | (dir, d, depth) => if dir <+: f ∧ visible disk limits.maxDepth d depth (f.drop dir.length) = true then 1 else 0

/-- The file is to be found at an entry of a directory, or below it. -/
def atEntry (dir : List Bytes) (depth : Nat) (e : Entry D) : Nat :=
  if !e.shown then 0
  else
    match e.kind with
    | .dir d =>
        if depth < limits.maxDepth ∧ fromUtf8Lossy e.name ∉ skipDirs then below disk limits f (dir ++ [e.name], d, depth + 1)
        else 0
    | .other => 0
    | .file .. => if (classifyFileName (fromUtf8Lossy e.name)).isSome = true ∧ dir ++ [e.name] = f then 1 else 0

variable {env f}

/-- Only the entry of a name counts for it. -/
theorem sum_of_name {entries : List (Entry D)} (hnodup : (entries.map Entry.name).Nodup) (name : Bytes)
    (g : Entry D → Nat) :
    (entries.map fun e => if e.name = name then g e else 0).sum = (entries.find? (·.name = name)).elim 0 g := by
  induction entries with
  | nil => rfl
  | cons e entries ih =>
      obtain ⟨hnot, hnodup⟩ := List.nodup_cons.1 hnodup
      rw [List.map_cons, List.sum_cons]
      by_cases hname : e.name = name
      · have hrest : (entries.map fun e => if e.name = name then g e else 0).sum = 0 := by
          refine List.sum_eq_zero fun n hn => ?_
          obtain ⟨e', he', rfl⟩ := List.mem_map.1 hn
          refine if_neg fun hname' => hnot ?_
          exact List.mem_map.2 ⟨e', he', hname'.trans hname.symm⟩
        rw [if_pos hname, hrest, List.find?_cons_of_pos (by simpa using hname)]
        rfl
      · rw [if_neg hname, ih hnodup, List.find?_cons_of_neg (by simpa using hname), Nat.zero_add]

/-- What is to be found at an entry whose name comes next in the path. -/
def nextEntry (depth : Nat) (name : Bytes) (rest : List Bytes) (e : Entry D) : Nat :=
  if !e.shown then 0
  else
    match e.kind with
    | .dir d =>
        if depth < limits.maxDepth ∧ fromUtf8Lossy name ∉ skipDirs then
          if visible disk limits.maxDepth d (depth + 1) rest = true then 1 else 0
        else 0
    | .other => 0
    | .file .. => if (classifyFileName (fromUtf8Lossy name)).isSome = true ∧ rest = [] then 1 else 0

variable {disk limits}

theorem below_mk {dir : List Bytes} {d : D} {depth : Nat} :
    below disk limits f (dir, d, depth)
      = if dir <+: f ∧ visible disk limits.maxDepth d depth (f.drop dir.length) = true then 1 else 0 := rfl

theorem atEntry_of_not_prefix {dir : List Bytes} {depth : Nat} {e : Entry D} (hpre : ¬dir ++ [e.name] <+: f) :
    atEntry disk limits f dir depth e = 0 := by
  have hne : dir ++ [e.name] ≠ f := fun h => hpre (h ▸ List.prefix_refl _)
  unfold atEntry
  cases e.kind <;> simp [below_mk, hpre, hne]

theorem atEntry_of_next {dir : List Bytes} {depth : Nat} {name : Bytes} {rest : List Bytes} {e : Entry D} :
    atEntry disk limits (dir ++ name :: rest) dir depth e
      = if e.name = name then nextEntry disk limits depth name rest e else 0 := by
  by_cases hname : e.name = name
  · have hpath : dir ++ name :: rest = (dir ++ [name]) ++ rest := List.append_cons dir name rest
    have hdrop : (dir ++ name :: rest).drop (dir ++ [name]).length = rest := by rw [hpath, List.drop_left]
    have hpre : dir ++ [name] <+: dir ++ name :: rest := ⟨rest, hpath.symm⟩
    have hfile : dir ++ [name] = dir ++ name :: rest ↔ rest = [] := by simp [eq_comm]
    rw [if_pos hname]
    unfold atEntry nextEntry
    rw [hname]
    cases e.kind with
    | dir d => simp only [below_mk, hdrop, hpre, true_and]
    | file size content => simp only [hfile]
    | other => rfl
  · rw [if_neg hname]
    refine atEntry_of_not_prefix ?_
    rintro ⟨t, ht⟩
    rw [List.append_assoc, List.append_cancel_left_eq, List.singleton_append] at ht
    exact hname (List.cons.inj ht).1

/-- What is below a directory is at one of its entries. -/
theorem below_eq_sum {dir : List Bytes} {d : D} {depth : Nat} (hreadable : (disk d).readable = true) :
    below disk limits f (dir, d, depth) = ((disk d).entries.map (atEntry disk limits f dir depth)).sum := by
  by_cases hprefix : dir <+: f
  · obtain ⟨rest, rfl⟩ := hprefix
    rw [below_mk, List.drop_left]
    cases rest with
    | nil =>
        have hzero : ∀ e ∈ (disk d).entries, atEntry disk limits (dir ++ []) dir depth e = 0 := by
          intro e _
          refine atEntry_of_not_prefix fun h => ?_
          simpa using h.length_le
        rw [List.map_congr_left hzero, if_neg (by simp [visible])]
        simp
    | cons name rest =>
        rw [List.map_congr_left fun e _ => atEntry_of_next, sum_of_name (disk d).nodup]
        simp only [List.prefix_append, true_and]
        unfold visible Directory.entry
        rw [hreadable, Bool.true_and]
        cases (disk d).entries.find? (·.name = name) with
        | none => rfl
        | some e =>
            obtain ⟨n, shown, kind⟩ := e
            cases shown with
            | false => rfl
            | true =>
                cases kind with
                | file size content => simp [nextEntry, and_comm]
                | dir d' => by_cases hskip : depth < limits.maxDepth ∧ fromUtf8Lossy name ∉ skipDirs <;> simp [nextEntry, hskip]
                | other => rfl
  · have hzero : ∀ e ∈ (disk d).entries, atEntry disk limits f dir depth e = 0 := by
      intro e _
      exact atEntry_of_not_prefix fun h => hprefix ((List.prefix_append _ _).trans h)
    rw [List.map_congr_left hzero, below_mk, if_neg fun h => hprefix h.1]
    simp

theorem count_visitFile {dir : List Bytes} {name : Bytes} {size : Option Nat} {content : Option Str}
    {cls : EnvFileClass} {w w' : Walk} (h : visitFile limits env dir name size content cls w = .ok w') :
    count f w' = count f w + if dir ++ [name] = f then 1 else 0 := by
  unfold visitFile at h
  dsimp only at h
  split_ifs at h with hfiles hsize hbytes
  · obtain rfl := Except.ok.inj h
    simp [count, List.countP_append, List.countP_cons]
  · obtain rfl := Except.ok.inj h
    simp [count, List.countP_append, List.countP_cons]

/-- The entries of a directory: nothing is found twice, and nothing is lost when no budget stops. -/
theorem count_visitEntries {dir : List Bytes} {depth : Nat} {entries : List (Entry D)}
    {stack : List (List Bytes × D × Nat)} {w : Walk} :
    count f (visitEntries limits env dir depth entries stack w).1
        ≤ count f w + (entries.map (atEntry disk limits f dir depth)).sum ∧
      ∀ stack', (visitEntries limits env dir depth entries stack w).2 = .ok stack' →
        count f (visitEntries limits env dir depth entries stack w).1 + (stack'.map (below disk limits f)).sum
          = count f w + (stack.map (below disk limits f)).sum + (entries.map (atEntry disk limits f dir depth)).sum := by
  induction entries generalizing stack w with
  | nil =>
      refine ⟨by simp [visitEntries], fun stack' h => ?_⟩
      obtain rfl := Except.ok.inj h
      simp [visitEntries]
  | cons e rest ih =>
      rw [List.map_cons, List.sum_cons, visitEntries]
      have hlooked : count f { w with looks := w.looks + 1 } = count f w := rfl
      split
      · exact ⟨by simp, fun _ h => by cases h⟩
      · dsimp only
        split
        · rename_i hhidden
          have hzero : atEntry disk limits f dir depth e = 0 := if_pos hhidden
          obtain ⟨hle, hok⟩ := @ih stack { w with looks := w.looks + 1 }
          rw [hzero, Nat.zero_add, ← hlooked]
          exact ⟨hle, hok⟩
        · rename_i hshown
          cases hkind : e.kind with
          | dir d =>
              dsimp only
              split
              · rename_i hpushed
                have hentry : atEntry disk limits f dir depth e = below disk limits f (dir ++ [e.name], d, depth + 1) := by
                  rw [atEntry, if_neg hshown, hkind]
                  exact if_pos hpushed
                obtain ⟨hle, hok⟩ := @ih ((dir ++ [e.name], d, depth + 1) :: stack) { w with looks := w.looks + 1 }
                rw [hlooked] at hle
                rw [hentry]
                refine ⟨by omega, fun stack' h => ?_⟩
                have hsum := hok stack' h
                rw [hlooked, List.map_cons, List.sum_cons] at hsum
                omega
              · rename_i hpassed
                have hzero : atEntry disk limits f dir depth e = 0 := by
                  rw [atEntry, if_neg hshown, hkind]
                  exact if_neg hpassed
                obtain ⟨hle, hok⟩ := @ih stack { w with looks := w.looks + 1 }
                rw [hzero, Nat.zero_add, ← hlooked]
                exact ⟨hle, hok⟩
          | other =>
              have hzero : atEntry disk limits f dir depth e = 0 := by
                rw [atEntry, if_neg hshown, hkind]
              obtain ⟨hle, hok⟩ := @ih stack { w with looks := w.looks + 1 }
              rw [hzero, Nat.zero_add, ← hlooked]
              exact ⟨hle, hok⟩
          | file size content =>
              dsimp only
              cases hclass : classifyFileName (fromUtf8Lossy e.name) with
              | none =>
                  have hzero : atEntry disk limits f dir depth e = 0 := by
                    rw [atEntry, if_neg hshown, hkind, hclass]
                    simp
                  obtain ⟨hle, hok⟩ := @ih stack { w with looks := w.looks + 1 }
                  rw [hzero, Nat.zero_add, ← hlooked]
                  exact ⟨hle, hok⟩
              | some cls =>
                  have hentry : atEntry disk limits f dir depth e = if dir ++ [e.name] = f then 1 else 0 := by
                    rw [atEntry, if_neg hshown, hkind, hclass]
                    simp
                  dsimp only
                  cases hfile : visitFile limits env dir e.name size content cls { w with looks := w.looks + 1 } with
                  | error budget => exact ⟨(hlooked.le).trans (Nat.le_add_right _ _), fun _ h => by cases h⟩
                  | ok w' =>
                      have hcount := count_visitFile (f := f) hfile
                      rw [hlooked] at hcount
                      dsimp only
                      obtain ⟨hle, hok⟩ := @ih stack w'
                      rw [hentry]
                      refine ⟨by omega, fun stack' h => ?_⟩
                      have hsum := hok stack' h
                      omega

theorem below_unreadable {dir : List Bytes} {d : D} {depth : Nat} (h : (disk d).readable = false) :
    below disk limits f (dir, d, depth) = 0 := by
  rw [below_mk, if_neg]
  rintro ⟨-, hvisible⟩
  cases hrest : f.drop dir.length with
  | nil =>
      rw [hrest] at hvisible
      cases hvisible
  | cons name rest =>
      rw [hrest, visible, h] at hvisible
      cases hvisible

/-- The walk finds nothing twice, and what the stack holds is found unless a budget stops it. -/
theorem count_walk {n : Nat} {stack : List (List Bytes × D × Nat)} {w : Walk} :
    count f (walk limits env disk n stack w).1 ≤ count f w + (stack.map (below disk limits f)).sum ∧
      ((walk limits env disk n stack w).2 = none →
        count f (walk limits env disk n stack w).1 = count f w + (stack.map (below disk limits f)).sum) := by
  induction n generalizing stack w with
  | zero =>
      cases stack with
      | nil => simp [walk]
      | cons top stack => exact ⟨Nat.le_add_right _ _, fun h => by cases h⟩
  | succ n ih =>
      cases stack with
      | nil => simp [walk]
      | cons top stack =>
          obtain ⟨dir, d, depth⟩ := top
          have hlooked : count f { w with looks := w.looks + 1 } = count f w := rfl
          rw [List.map_cons, List.sum_cons, walk]
          split
          · exact ⟨Nat.le_add_right _ _, fun h => by cases h⟩
          · dsimp only
            split
            · rename_i hunreadable
              obtain ⟨hle, heq⟩ := @ih stack { w with looks := w.looks + 1 }
              rw [below_unreadable (by simpa using hunreadable), Nat.zero_add, ← hlooked]
              exact ⟨hle, heq⟩
            · rename_i hreadable
              have hbelow : below disk limits f (dir, d, depth)
                  = ((disk d).entries.map (atEntry disk limits f dir depth)).sum :=
                below_eq_sum (by simpa using hreadable)
              obtain ⟨hle, hok⟩ := @count_visitEntries D disk limits env f dir depth (disk d).entries stack
                { w with looks := w.looks + 1 }
              rw [hlooked, ← hbelow] at hle hok
              generalize visitEntries limits env dir depth (disk d).entries stack { w with looks := w.looks + 1 } = visit
                at hle hok ⊢
              obtain ⟨w', budget | stack'⟩ := visit
              · refine ⟨?_, fun h => by cases h⟩
                dsimp only at hle ⊢
                omega
              · have hwarned : count f (addWarnings w' (env.dirWarnings dir)) = count f w' := rfl
                have hsum := hok stack' rfl
                obtain ⟨hle', heq'⟩ := @ih stack' (addWarnings w' (env.dirWarnings dir))
                rw [hwarned] at hle' heq'
                dsimp only at hsum ⊢
                refine ⟨by omega, fun h => ?_⟩
                have := heq' h
                omega

/-- How often a file is in a report. -/
def DiscoveryReport.count (report : DiscoveryReport) (f : List Bytes) : Nat :=
  report.files.countP fun info => decide (info.path = f)

theorem count_discoverBounded {root : D} :
    (discoverBounded limits env disk root).count f
        ≤ (if visible disk limits.maxDepth root 0 f = true then 1 else 0) ∧
      ((discoverBounded limits env disk root).truncated = none →
        (discoverBounded limits env disk root).count f
          = if visible disk limits.maxDepth root 0 f = true then 1 else 0) := by
  obtain ⟨hle, heq⟩ := @count_walk D disk limits env f limits.maxDirs [([], root, 0)] ⟨[], [], 0, 0, env.openWarnings⟩
  have hbelow : ([([], root, 0)].map (below disk limits f)).sum
      = if visible disk limits.maxDepth root 0 f = true then 1 else 0 := by
    simp [below_mk]
  have hstart : Discovery.count f ⟨[], [], 0, 0, env.openWarnings⟩ = 0 := rfl
  rw [hbelow, hstart, Nat.zero_add] at hle heq
  have hcount : (discoverBounded limits env disk root).count f
      = Discovery.count f (walk limits env disk limits.maxDirs [([], root, 0)] ⟨[], [], 0, 0, env.openWarnings⟩).1 :=
    (List.perm_insertionSort _ _).countP_eq _
  rw [hcount]
  exact ⟨hle, heq⟩

/-- A report that says nothing of a truncation holds every governed file exactly once when the depth bound, an
    unreadable directory and an entry that is not shown hide none of them, and only then. -/
theorem untruncated_complete_iff {root : D} (h : (discoverBounded limits env disk root).truncated = none) :
    (∀ f, governed disk root f = true → (discoverBounded limits env disk root).count f = 1) ↔
      ∀ f, governed disk root f = true → visible disk limits.maxDepth root 0 f = true := by
  refine forall_congr' fun f => imp_congr_right fun _ => ?_
  rw [(@count_discoverBounded D disk limits env f root).2 h]
  by_cases hvisible : visible disk limits.maxDepth root 0 f = true
  · exact iff_of_true (if_pos hvisible) hvisible
  · refine iff_of_false ?_ hvisible
    rw [if_neg hvisible]
    exact Nat.zero_ne_one

/-- The limits of `DiscoveryLimits::default`. -/
def DiscoveryLimits.default : DiscoveryLimits :=
  { maxDepth := 6
    maxFiles := 2000
    maxDirs := 20000
    maxFileBytes := 262144
    maxTotalBytes := 64 * 1024 * 1024 }

/-- A folder outside a repository, and a pass that is in time. -/
def Surroundings.quiet : Surroundings := ⟨fun _ _ => .notInRepo, fun _ => .notChecked, [], fun _ => [], fun _ => false⟩

/-- Directories below one another, the last one with an environment file. -/
def nested (depth : Nat) : Disk Nat := fun n =>
  if n < depth then ⟨true, [⟨[97], true, .dir (n + 1)⟩], List.nodup_singleton _⟩
  else ⟨true, [⟨[46, 101, 110, 118], true, .file (some 4) (some "A=1\n".toList)⟩], List.nodup_singleton _⟩

theorem untruncated_complete_iff_nested :
    (discoverBounded .default .quiet (nested 1) 0).truncated = none ∧
      ((∀ f, governed (nested 1) 0 f = true → (discoverBounded .default .quiet (nested 1) 0).count f = 1) ↔
        ∀ f, governed (nested 1) 0 f = true → visible (nested 1) DiscoveryLimits.default.maxDepth 0 0 f = true) :=
  have h : (discoverBounded .default .quiet (nested 1) 0).truncated = none := by decide +kernel
  ⟨h, untruncated_complete_iff h⟩

/-- A file below the depth bound is left out, and the report says nothing of it. -/
theorem untruncated_deep_file_missing :
    ¬∀ (disk : Disk Nat) (limits : DiscoveryLimits) (env : Surroundings) (root : Nat),
      (discoverBounded limits env disk root).truncated = none →
        ∀ f, governed disk root f = true → (discoverBounded limits env disk root).count f = 1 := by
  intro h
  have hmissing := h (nested 7) .default .quiet 0 (by decide +kernel) (List.replicate 7 [97] ++ [[46, 101, 110, 118]])
    (by decide +kernel)
  revert hmissing
  decide +kernel

end

end Tethra.Discovery
