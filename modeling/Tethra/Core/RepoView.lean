import Mathlib.Data.List.Infix
import Tethra.Core.GitSplit
import Tethra.Core.IgnoreRules
import Tethra.Core.PathFold

set_option autoImplicit false

/-! # The status of a path (`core/src/gitsafe.rs`)

A view answers from the index, which it read when it was opened, and from the ignore files from the root down to the
directory of the path. A bound that stops the index makes every answer unknown. A bound that stops the ignore files is
written down beside the rules, and the answer is given from the rules that were read: it is honest only when no ignore
file was past its bound, or the rules were not asked (`status_within_bounds_iff`). -/

namespace Tethra.GitView

open Gateway Ignore PathFold GitIndex

/-! ## Reading -/

/-- The names on the way from the root of the file system. -/
abbrev FsPath := List Bytes

structure Fs where
  found : FsPath → Found
  isDir : FsPath → Bool

structure RepoLayout where
  workTree : FsPath
  gitDir : FsPath
  commonDir : FsPath

def maxIgnoreBytes : Nat := 1024 * 1024

def slashed (path : FsPath) : Bytes := [47].intercalate path

def display (path : FsPath) : Str := '/' :: fromUtf8Lossy (slashed path)

def readCapped (fs : Fs) (path : FsPath) (cap : Nat) : Option Bytes :=
  match fs.found path with
  | .file size content => if cap < size then none else content.toOption
  | _ => none

/-- `str::lines`. A carriage return at the end of the text is no part of a line ending. -/
def lines (content : Str) : List Str :=
  let pieces := content.splitOn '\n'
  pieces.dropLast.map (stripSuffixChar '\r') ++ pieces.getLast?.toList.filter (· ≠ [])

/-! ## The rules of a directory -/

structure IgnoreRules where
  patterns : List IgnorePattern
  limits : List ViewLimit

/-- What the closure `load` writes to. -/
structure Loading extends IgnoreRules where
  budgetOk : Bool

/-- `load`, of the ignore file of a directory of the work tree. -/
def Loading.load (fs : Fs) (st : Loading) (file : List Str × FsPath) : Loading :=
  if st.budgetOk then
    match fs.found file.2 with
    | .file size _ =>
        if maxIgnoreBytes < size then { st with limits := st.limits ++ [.ignoreFileTooLarge (display file.2)] }
        else
          match readCapped fs file.2 maxIgnoreBytes with
          | none => st
          | some bytes =>
              match parseIgnoreFile (joinPath file.1) (lines (fromUtf8Lossy bytes)) st.patterns with
              | (true, patterns) => { st with patterns := patterns }
              | (false, patterns) =>
                  { patterns := patterns, limits := st.limits ++ [.ignorePatternBudget], budgetOk := false }
    | _ => st
  else st

/-- The ignore files of a directory, from the lowest precedence to the highest, each with the directory that its
patterns are relative to. -/
def ignoreFiles (layout : RepoLayout) (dirRel : Str) : List (List Str × FsPath) :=
  ([], layout.commonDir ++ [utf8 "info".toList, utf8 "exclude".toList]) ::
    (components dirRel).inits.map fun ancestors =>
      (ancestors, layout.workTree ++ ancestors.map utf8 ++ [utf8 ".gitignore".toList])

def loadIgnoreRules (fs : Fs) (layout : RepoLayout) (dirRel : Str) : IgnoreRules :=
  ((ignoreFiles layout dirRel).foldl (Loading.load fs) ⟨⟨[], []⟩, true⟩).toIgnoreRules

/-! ## The view of a repository -/

inductive PathStatus where
  | tracked
  | ignored
  | untracked
  | unknown
  deriving DecidableEq, Repr

def isAscii (s : Str) : Bool := s.all (·.toNat < 128)

structure RepoView where
  layout : RepoLayout
  tracked : Finset Str
  trackedDecomposed : Finset Str
  indexReadable : Bool
  limits : List ViewLimit

def gitFiles (fs : Fs) (layout : RepoLayout) : GitDir := fun name => fs.found (layout.gitDir ++ [utf8 name])

/-- The view of the paths of an index, or of none. -/
def RepoView.ofPaths (layout : RepoLayout) (paths : Finset Str) (indexReadable : Bool) (limits : List ViewLimit) :
    RepoView where
  layout := layout
  tracked := paths
  trackedDecomposed := (paths.filter fun p => isAscii p = false).image canonicalDecomposition
  indexReadable := indexReadable
  limits := limits

/-- `open`, where the repository was found. -/
def RepoView.openAt (fs : Fs) (layout : RepoLayout) : RepoView :=
  match readIndex (gitFiles fs layout) with
  | .ok paths => .ofPaths layout paths true []
  | .error limit => .ofPaths layout ∅ false [limit]

def RepoView.isTracked (view : RepoView) (rel : Str) : Bool :=
  decide (rel ∈ view.tracked) || !isAscii rel && decide (canonicalDecomposition rel ∈ view.trackedDecomposed)

def RepoView.repoRelative (view : RepoView) (path : FsPath) : Option Str :=
  if view.layout.workTree.isPrefixOf path then
    some ((fromUtf8Lossy (slashed (path.drop view.layout.workTree.length))).map fun c => if c = '\\' then '/' else c)
  else none

/-- What stands before the last slash. -/
def dirOf (rel : Str) : Str := (rel.reverse.dropWhile (· ≠ '/')).tail.reverse

def RepoView.statusOf (fs : Fs) (view : RepoView) (path : FsPath) : PathStatus :=
  match view.repoRelative path with
  | none => .untracked
  | some rel =>
      if !view.indexReadable then .unknown
      else if view.isTracked rel then .tracked
      else
        let rules := loadIgnoreRules fs view.layout (dirOf rel)
        -- The limits of the rules are not looked at.
        if isIgnored rules.patterns rel (fs.isDir path) then .ignored else .untracked

structure DirView where
  view : RepoView
  rules : IgnoreRules
  dirRel : Str

def RepoView.dirView (fs : Fs) (view : RepoView) (dirRel : Str) : DirView :=
  { view := view, rules := loadIgnoreRules fs view.layout dirRel, dirRel := dirRel }

def nameIn (dirRel name : Str) : Str := if dirRel = [] then name else dirRel ++ '/' :: name

def DirView.statusOfName (dir : DirView) (name : Str) (isDir : Bool) : PathStatus :=
  if !dir.view.indexReadable then .unknown
  else if dir.view.isTracked (nameIn dir.dirRel name) then .tracked
  else if isIgnored dir.rules.patterns (nameIn dir.dirRel name) isDir then .ignored
  else .untracked

/-! ## What a load leaves out -/

/-- The file at a path is past its bound. -/
def Oversized (fs : Fs) (path : FsPath) : Prop :=
  ∃ size content, fs.found path = .file size content ∧ maxIgnoreBytes < size

/-- The patterns of lines, each of the file of a directory. -/
def patternsOf (ls : List (List Str × Str)) : List IgnorePattern :=
  ls.filterMap fun l => parseIgnoreLine (joinPath l.1) l.2

/-- A line is left although the lines before it have as many patterns as are retained. -/
def BudgetSpent (ls : List (List Str × Str)) : Prop := maxIgnorePatterns ≤ (patternsOf ls.dropLast).length

/-- An ignore file that is there and within its bound. -/
def ignoreFile (fs : Fs) (file : List Str × FsPath) : Option IgnoreFile :=
  (readCapped fs file.2 maxIgnoreBytes).map fun bytes => ⟨file.1, lines (fromUtf8Lossy bytes)⟩

def linesOf (files : List IgnoreFile) : List (List Str × Str) :=
  files.flatMap fun f => f.lines.map fun line => (f.dir, line)

/-- An ignore file of a directory is too large, or the lines of the others have more patterns than are retained. -/
def IgnoreBoundHit (fs : Fs) (layout : RepoLayout) (dirRel : Str) : Prop :=
  (∃ file ∈ ignoreFiles layout dirRel, Oversized fs file.2) ∨
    BudgetSpent (linesOf ((ignoreFiles layout dirRel).filterMap (ignoreFile fs)))

section Loads

variable {fs : Fs}

theorem patternsOf_append (xs ys : List (List Str × Str)) :
    patternsOf (xs ++ ys) = patternsOf xs ++ patternsOf ys := List.filterMap_append

theorem patternsOf_map (dir : List Str) (ls : List Str) :
    patternsOf (ls.map fun line => (dir, line)) = ls.filterMap (parseIgnoreLine (joinPath dir)) := by
  rw [patternsOf, List.filterMap_map]
  rfl

theorem linesOf_append (fs gs : List IgnoreFile) : linesOf (fs ++ gs) = linesOf fs ++ linesOf gs :=
  List.flatMap_append

/-- A parse is cut short when a line is left and the budget is spent. -/
theorem parseIgnoreFile_cut {base : Str} {ls : List Str} {out : List IgnorePattern} :
    (parseIgnoreFile base ls out).1 = false ↔
      ls ≠ [] ∧ maxIgnorePatterns ≤ out.length + (ls.dropLast.filterMap (parseIgnoreLine base)).length := by
  induction ls generalizing out with
  | nil => simp [parseIgnoreFile]
  | cons raw ls ih =>
      rw [parseIgnoreFile]
      by_cases hfull : maxIgnorePatterns ≤ out.length
      · rw [if_pos hfull]
        exact ⟨fun _ => ⟨List.cons_ne_nil raw ls, by omega⟩, fun _ => rfl⟩
      · rw [if_neg hfull, ih]
        cases ls with
        | nil => simp [hfull]
        | cons next ls =>
            rw [List.dropLast_cons_cons, List.length_append]
            cases hraw : parseIgnoreLine base raw with
            | none => simp [hraw]
            | some p =>
                simp [hraw]
                omega

/-- What the lines of one more file do to the budget. -/
theorem budgetSpent_append (xs : List (List Str × Str)) (dir : List Str) (ls : List Str) :
    BudgetSpent (xs ++ ls.map fun line => (dir, line)) ↔
      BudgetSpent xs ∨ ls ≠ [] ∧ maxIgnorePatterns ≤
        (patternsOf xs).length + (ls.dropLast.filterMap (parseIgnoreLine (joinPath dir))).length := by
  cases ls with
  | nil => simp
  | cons l ls =>
      have hfewer : (patternsOf xs.dropLast).length ≤ (patternsOf xs).length :=
        ((List.dropLast_sublist xs).filterMap _).length_le
      have hne : ((l :: ls).map fun line => (dir, line)) ≠ [] := List.cons_ne_nil _ _
      rw [BudgetSpent, BudgetSpent, List.dropLast_append_of_ne_nil hne, patternsOf_append, ← List.map_dropLast,
        patternsOf_map, List.length_append]
      constructor
      · exact fun h => .inr ⟨List.cons_ne_nil l ls, h⟩
      · rintro (h | ⟨-, h⟩)
        · omega
        · exact h

/-- A load that was not cut short has the patterns of all lines. -/
theorem patternsOf_linesOf {files : List IgnoreFile} {patterns : List IgnorePattern}
    (hload : loadFiles files = (true, patterns)) : patternsOf (linesOf files) = patterns := by
  rw [loadFiles_ok hload, patternsOf, linesOf, List.filterMap_flatMap]
  exact List.flatMap_congr fun f _ => patternsOf_map f.dir f.lines

theorem loadFiles_concat (files : List IgnoreFile) (f : IgnoreFile) :
    loadFiles (files ++ [f]) =
      if (loadFiles files).1 then parseIgnoreFile (joinPath f.dir) f.lines (loadFiles files).2
      else loadFiles files := by
  rw [loadFiles, List.foldl_append, ← loadFiles]
  rfl

/-- A load is cut short when the budget is spent on the lines of its files. -/
theorem loadFiles_cut {files : List IgnoreFile} : (loadFiles files).1 = false ↔ BudgetSpent (linesOf files) := by
  induction files using List.reverseRecOn with
  | nil => simp [loadFiles, linesOf, BudgetSpent, patternsOf, maxIgnorePatterns]
  | append_singleton files f ih =>
      have hlines : linesOf (files ++ [f]) = linesOf files ++ f.lines.map fun line => (f.dir, line) := by
        rw [linesOf_append]
        simp [linesOf]
      rw [hlines, budgetSpent_append, ← ih, loadFiles_concat]
      cases hload : loadFiles files with
      | mk ok before =>
          cases ok with
          | false => simp
          | true =>
              rw [if_pos rfl, parseIgnoreFile_cut, patternsOf_linesOf hload]
              simp

/-- The file is not there, is none that is read, or is past its bound: a load of it has nothing to parse. -/
theorem load_of_unread {st : Loading} {file : List Str × FsPath} (hread : readCapped fs file.2 maxIgnoreBytes = none) :
    (st.load fs file).patterns = st.patterns ∧ (st.load fs file).budgetOk = st.budgetOk ∧
      ((st.load fs file).limits = [] ↔ st.limits = [] ∧ (st.budgetOk = true → ¬Oversized fs file.2)) := by
  unfold Loading.load
  cases hok : st.budgetOk with
  | false => simp [hok]
  | true =>
      unfold Oversized
      cases hfound : fs.found file.2 with
      | file size content =>
          by_cases hsize : maxIgnoreBytes < size
          · simp [hsize]
          · simp [hread, hsize, hok]
      | _ => simp [hok]

/-- A file that is read is parsed, and a parse that was cut short is written down. -/
theorem load_of_read {st : Loading} {file : List Str × FsPath} {bytes : Bytes} (hok : st.budgetOk = true)
    (hread : readCapped fs file.2 maxIgnoreBytes = some bytes) :
    ((st.load fs file).budgetOk, (st.load fs file).patterns) =
        parseIgnoreFile (joinPath file.1) (lines (fromUtf8Lossy bytes)) st.patterns ∧
      ((st.load fs file).limits = [] ↔ st.limits = [] ∧ (st.load fs file).budgetOk = true) := by
  unfold Loading.load
  cases hfound : fs.found file.2 with
  | file size content =>
      have hsize : ¬maxIgnoreBytes < size := by
        intro hsize
        simp [readCapped, hfound, hsize] at hread
      rw [if_pos hok]
      simp only [if_neg hsize, hread]
      split <;> rename_i hparse <;> simp [hparse, hok]
  | _ => simp [readCapped, hfound] at hread

theorem not_oversized_of_read {path : FsPath} {bytes : Bytes} (hread : readCapped fs path maxIgnoreBytes = some bytes) :
    ¬Oversized fs path := by
  rintro ⟨size, content, hfound, hsize⟩
  simp [readCapped, hfound, hsize] at hread

/-- A load has what the files that are there and within their bound give, and a limit for each bound that was hit. -/
structure Loaded (fs : Fs) (files : List (List Str × FsPath)) (st : Loading) : Prop where
  result : (st.budgetOk, st.patterns) = loadFiles (files.filterMap (ignoreFile fs))
  limits : st.limits = [] ↔ st.budgetOk = true ∧ ∀ file ∈ files, ¬Oversized fs file.2

theorem Loaded.load {files : List (List Str × FsPath)} {st : Loading} (h : Loaded fs files st)
    (file : List Str × FsPath) : Loaded fs (files ++ [file]) (st.load fs file) := by
  have hforall : (∀ f ∈ files ++ [file], ¬Oversized fs f.2) ↔
      (∀ f ∈ files, ¬Oversized fs f.2) ∧ ¬Oversized fs file.2 := by
    simp only [List.forall_mem_append, List.forall_mem_singleton]
  cases hread : readCapped fs file.2 maxIgnoreBytes with
  | none =>
      -- A file that is not read leaves the rules as they are; it counts as a limit only when it is too large.
      obtain ⟨hpatterns, hok, hlimits⟩ := @load_of_unread fs st file hread
      refine ⟨?_, ?_⟩
      · rw [hpatterns, hok, h.result, List.filterMap_append]
        simp [ignoreFile, hread]
      · rw [hlimits, h.limits, hok, hforall]
        tauto
  | some bytes =>
      have hnot := not_oversized_of_read hread
      have hfiles : (files ++ [file]).filterMap (ignoreFile fs) =
          files.filterMap (ignoreFile fs) ++ [⟨file.1, lines (fromUtf8Lossy bytes)⟩] := by
        rw [List.filterMap_append]
        simp [ignoreFile, hread]
      cases hok : st.budgetOk with
      | false =>
          -- The budget was spent by an earlier file: the pattern list no longer grows.
          have hsame : st.load fs file = st := by simp [Loading.load, hok]
          have hcut : (loadFiles (files.filterMap (ignoreFile fs))).1 = false := by rw [← h.result, hok]
          refine ⟨?_, ?_⟩
          · rw [hsame, hfiles, loadFiles_concat, hcut]
            exact h.result
          · rw [hsame, h.limits, hok]
            simp
      | true =>
          obtain ⟨hresult, hlimits⟩ := load_of_read hok hread
          have hwhole : (loadFiles (files.filterMap (ignoreFile fs))).1 = true := by rw [← h.result, hok]
          have hpatterns : (loadFiles (files.filterMap (ignoreFile fs))).2 = st.patterns := by rw [← h.result]
          refine ⟨?_, ?_⟩
          · rw [hresult, hfiles, loadFiles_concat, hwhole, hpatterns]
            rfl
          · rw [hlimits, h.limits, hok, hforall]
            tauto

/-- The state after every file, by induction on the files from the last one back. -/
theorem loaded_foldl (files : List (List Str × FsPath)) :
    Loaded fs files (files.foldl (Loading.load fs) ⟨⟨[], []⟩, true⟩) := by
  induction files using List.reverseRecOn with
  | nil => exact ⟨rfl, by simp⟩
  | append_singleton files file ih =>
      rw [List.foldl_append]
      exact ih.load file

/-- The limits of the rules say whether a bound was hit. -/
theorem limits_eq_nil_iff (layout : RepoLayout) (dirRel : Str) :
    (loadIgnoreRules fs layout dirRel).limits = [] ↔ ¬IgnoreBoundHit fs layout dirRel := by
  have h := @loaded_foldl fs (ignoreFiles layout dirRel)
  rw [loadIgnoreRules, h.limits, IgnoreBoundHit, ← loadFiles_cut, ← h.result, not_or, Bool.not_eq_false, and_comm]
  simp only [not_exists, not_and]

/-- Where no bound was hit, the rules are those of every line of every file that is read. -/
theorem patterns_of_within_bounds {layout : RepoLayout} {dirRel : Str} (h : ¬IgnoreBoundHit fs layout dirRel) :
    (loadIgnoreRules fs layout dirRel).patterns =
      patternsOf (linesOf ((ignoreFiles layout dirRel).filterMap (ignoreFile fs))) := by
  have hloaded := @loaded_foldl fs (ignoreFiles layout dirRel)
  have hwhole : (loadFiles ((ignoreFiles layout dirRel).filterMap (ignoreFile fs))).1 = true := by
    rw [← Bool.not_eq_false, loadFiles_cut]
    exact fun hspent => h (.inr hspent)
  rw [patternsOf_linesOf (Prod.ext hwhole rfl), ← hloaded.result]
  rfl

end Loads

/-! ## Answers past a bound -/

def IndexRead (fs : Fs) (layout : RepoLayout) : Prop := ∃ paths, readIndex (gitFiles fs layout) = .ok paths

/-- The index has the path, or another normal form of it. -/
def ProvesTracked (fs : Fs) (layout : RepoLayout) (rel : Str) : Prop :=
  ∃ paths, readIndex (gitFiles fs layout) = .ok paths ∧
    (rel ∈ paths ∨ isAscii rel = false ∧
      ∃ p ∈ paths, isAscii p = false ∧ canonicalDecomposition p = canonicalDecomposition rel)

/-- Past a bound an answer is unknown, unless the path is proved to be tracked. -/
def Honest (limited tracked : Prop) (answer : PathStatus) : Prop :=
  limited → answer = .unknown ∨ answer = .tracked ∧ tracked

section Answers

variable {fs : Fs} {layout : RepoLayout}

@[simp] theorem layout_openAt : (RepoView.openAt fs layout).layout = layout := by
  unfold RepoView.openAt
  cases readIndex (gitFiles fs layout) with
  | ok paths => rfl
  | error limit => rfl

theorem indexReadable_openAt : (RepoView.openAt fs layout).indexReadable = true ↔ IndexRead fs layout := by
  unfold RepoView.openAt IndexRead
  cases readIndex (gitFiles fs layout) with
  | ok paths => simp [RepoView.ofPaths]
  | error limit => simp [RepoView.ofPaths]

theorem isTracked_openAt {rel : Str} :
    (RepoView.openAt fs layout).isTracked rel = true ↔ ProvesTracked fs layout rel := by
  unfold RepoView.isTracked RepoView.openAt ProvesTracked
  cases readIndex (gitFiles fs layout) with
  | ok paths =>
      simp only [Bool.or_eq_true, Bool.and_eq_true, decide_eq_true_eq]
      simp [RepoView.ofPaths, and_assoc]
  | error limit => simp [RepoView.ofPaths]

/-- Both readers answer in this order. -/
theorem honest_answer_iff {readable tracked ignored : Bool} {read proved hit : Prop} (hread : readable = true ↔ read)
    (htracked : tracked = true ↔ proved) :
    Honest (¬read ∨ hit) proved
        (if !readable then .unknown else if tracked then .tracked else if ignored then .ignored else .untracked) ↔
      ¬(read ∧ hit ∧ ¬proved) := by
  rw [← hread, ← htracked, Honest]
  cases readable with
  | false => simp
  | true =>
      cases tracked with
      | true => simp
      | false => cases ignored <;> simp

theorem honest_statusOf {now : Fs} {path : FsPath} {rel : Str}
    (hrel : (RepoView.openAt fs layout).repoRelative path = some rel) (hit : Prop) :
    Honest (¬IndexRead fs layout ∨ hit) (ProvesTracked fs layout rel)
        ((RepoView.openAt fs layout).statusOf now path) ↔
      ¬(IndexRead fs layout ∧ hit ∧ ¬ProvesTracked fs layout rel) := by
  rw [RepoView.statusOf, hrel]
  exact honest_answer_iff indexReadable_openAt isTracked_openAt

theorem honest_statusOfName {now : Fs} {dirRel name : Str} {isDir : Bool} (hit : Prop) :
    Honest (¬IndexRead fs layout ∨ hit) (ProvesTracked fs layout (nameIn dirRel name))
        (((RepoView.openAt fs layout).dirView now dirRel).statusOfName name isDir) ↔
      ¬(IndexRead fs layout ∧ hit ∧ ¬ProvesTracked fs layout (nameIn dirRel name)) :=
  honest_answer_iff indexReadable_openAt isTracked_openAt

/-- The rules of a directory are whole and without a limit exactly when no ignore file of it was past a bound. Past a
bound both readers answer unknown, or tracked for a path of the index, except in one case: the index was read and does
not have the path, and an ignore file of its directory was past a bound. -/
theorem status_within_bounds_iff (opened now : Fs) (layout : RepoLayout) :
    (∀ dirRel : Str,
      ((loadIgnoreRules now layout dirRel).limits = [] ↔ ¬IgnoreBoundHit now layout dirRel) ∧
      (¬IgnoreBoundHit now layout dirRel → (loadIgnoreRules now layout dirRel).patterns =
        patternsOf (linesOf ((ignoreFiles layout dirRel).filterMap (ignoreFile now))))) ∧
    (∀ (path : FsPath) (rel : Str), (RepoView.openAt opened layout).repoRelative path = some rel →
      (Honest (¬IndexRead opened layout ∨ IgnoreBoundHit now layout (dirOf rel)) (ProvesTracked opened layout rel)
          ((RepoView.openAt opened layout).statusOf now path) ↔
        ¬(IndexRead opened layout ∧ IgnoreBoundHit now layout (dirOf rel) ∧
          ¬ProvesTracked opened layout rel))) ∧
    ∀ (dirRel name : Str) (isDir : Bool),
      Honest (¬IndexRead opened layout ∨ IgnoreBoundHit now layout dirRel)
          (ProvesTracked opened layout (nameIn dirRel name))
          (((RepoView.openAt opened layout).dirView now dirRel).statusOfName name isDir) ↔
        ¬(IndexRead opened layout ∧ IgnoreBoundHit now layout dirRel ∧
          ¬ProvesTracked opened layout (nameIn dirRel name)) :=
  ⟨fun dirRel => ⟨limits_eq_nil_iff layout dirRel, patterns_of_within_bounds⟩,
    fun _ rel hrel => honest_statusOf hrel (IgnoreBoundHit now layout (dirOf rel)),
    fun dirRel _ _ => honest_statusOfName (IgnoreBoundHit now layout dirRel)⟩

end Answers

/-! ## An ignore file past its bound -/

def sample : RepoLayout where
  workTree := [utf8 "repo".toList]
  gitDir := [utf8 "repo".toList, utf8 ".git".toList]
  commonDir := [utf8 "repo".toList, utf8 ".git".toList]

def envPath : FsPath := [utf8 "repo".toList, utf8 ".env".toList]

def ignorePath : FsPath := [utf8 "repo".toList, utf8 ".gitignore".toList]

/-- A file system in which there is at most one file. -/
def only (path : FsPath) (file : Found) : Fs where
  found p := if p = path then file else .missing []
  isDir _ := false

theorem not_ignoreBoundHit_of_missing {fs : Fs} {layout : RepoLayout} {dirRel : Str}
    (h : ∀ p, fs.found p = .missing []) : ¬IgnoreBoundHit fs layout dirRel := by
  have hfile : ∀ file, ignoreFile fs file = none := fun file => by simp [ignoreFile, readCapped, h]
  rintro (⟨file, -, size, content, hfound, -⟩ | hspent)
  · simp [h] at hfound
  · simp [BudgetSpent, hfile, linesOf, patternsOf, maxIgnorePatterns] at hspent

theorem status_within_bounds_iff_empty :
    Honest (¬IndexRead (only ignorePath (.missing [])) sample ∨
        IgnoreBoundHit (only ignorePath (.missing [])) sample (dirOf ".env".toList))
      (ProvesTracked (only ignorePath (.missing [])) sample ".env".toList)
      ((RepoView.openAt (only ignorePath (.missing [])) sample).statusOf (only ignorePath (.missing [])) envPath) := by
  refine ((status_within_bounds_iff (only ignorePath (.missing [])) (only ignorePath (.missing [])) sample).2.1 envPath
    ".env".toList ?_).2 fun h => ?_
  · decide +kernel
  · exact not_ignoreBoundHit_of_missing (fun p => ite_self _) h.2.1

/-- A rule for the path, and blank lines up to a byte more than is read. -/
def large : Bytes := utf8 ".env".toList ++ List.replicate (maxIgnoreBytes - 3) 10

theorem length_large : large.length = maxIgnoreBytes + 1 := by
  rw [large, List.length_append, List.length_replicate]
  decide +kernel

/-- A file system that has the large file alone. -/
def largeFs : Fs := only ignorePath (.file large.length (.ok large))

theorem indexRead_largeFs : readIndex (gitFiles largeFs sample) = .ok ∅ := by
  have hother : sample.gitDir ++ [utf8 "index".toList] ≠ ignorePath := by decide +kernel
  have hmissing : gitFiles largeFs sample "index".toList = .missing [] := by
    simp only [gitFiles, largeFs, only, if_neg hother]
  rw [readIndex, hmissing]

/-- The ignore file of the root is too large, and its path is answered from no rules by both readers. -/
theorem answered_past_bound :
    (RepoView.openAt largeFs sample).repoRelative envPath = some ".env".toList ∧
    IgnoreBoundHit largeFs sample [] ∧
    ¬Honest (¬IndexRead largeFs sample ∨ IgnoreBoundHit largeFs sample (dirOf ".env".toList))
      (ProvesTracked largeFs sample ".env".toList) ((RepoView.openAt largeFs sample).statusOf largeFs envPath) ∧
    ¬Honest (¬IndexRead largeFs sample ∨ IgnoreBoundHit largeFs sample [])
      (ProvesTracked largeFs sample (nameIn [] ".env".toList))
      (((RepoView.openAt largeFs sample).dirView largeFs []).statusOfName ".env".toList false) := by
  have hrel : (RepoView.openAt largeFs sample).repoRelative envPath = some ".env".toList := by
    rw [RepoView.repoRelative, layout_openAt]
    decide +kernel
  have hread : IndexRead largeFs sample := ⟨∅, indexRead_largeFs⟩
  have hproved : ∀ rel, ¬ProvesTracked largeFs sample rel := by
    rintro rel ⟨paths, hpaths, htracked⟩
    rw [indexRead_largeFs, Except.ok.injEq] at hpaths
    subst hpaths
    simp at htracked
  have hhit : IgnoreBoundHit largeFs sample [] := by
    refine .inl ⟨([], ignorePath), by decide +kernel, large.length, .ok large, ?_, ?_⟩
    · simp [largeFs, only]
    · rw [length_large]
      exact Nat.lt_succ_self _
  have hdir : dirOf ".env".toList = [] := by decide
  refine ⟨hrel, hhit, fun h => ?_, fun h => ?_⟩
  · rw [hdir] at h
    exact (honest_statusOf hrel _).1 h ⟨hread, hhit, hproved _⟩
  · exact (honest_statusOfName _).1 h ⟨hread, hhit, hproved _⟩

end Tethra.GitView
