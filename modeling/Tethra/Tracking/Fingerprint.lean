import Tethra.Gateway.WireHead
import Tethra.Lib.Preorder

set_option autoImplicit false

/-! # The fingerprint of a folder (`tracking/src/project.rs`)

A digest over the names, lengths and times of the manifests in a folder. The walk takes directories from a
stack and visits 400 of them at most, in an order that comes from the listings, and sorts what it has found
only afterwards. So the digest depends on the order exactly when a manifest is in a directory that enough
others can come before (`fingerprint_stable_iff`). In a folder of no more directories than that, the digest
tells any two sets of manifests apart. -/

namespace Tethra.Tracking

open Gateway

/-! ## Folders -/

/-- The components behind the folder. -/
abbrev Path := List Str

/-- Seconds since the epoch; −1 when they are not known. -/
abbrev Seconds : Type := {t : ℤ // -2 ^ 63 ≤ t ∧ t < 2 ^ 63}

inductive DirEntry where
  | file (name : Str) (len : Fin (2 ^ 64)) (mtime : Seconds)
  | dir (name : Str)
  /-- A symbolic link, or what has no metadata. -/
  | other (name : Str)
  deriving DecidableEq

def DirEntry.name : DirEntry → Str
  | .file name _ _ => name
  | .dir name => name
  | .other name => name

/-- `strip_prefix(folder)` of the path of an entry, as it is displayed. -/
def relOf (dir : Path) (name : Str) : Str := ['/'].intercalate (dir ++ [name])

/-- What each directory lists, in its order; none when it cannot be read. A directory has a name once, a
    name has no slash, and a path has a length. -/
structure Folder where
  readDir : Path → Option (List DirEntry)
  names_distinct : ∀ dir entries, readDir dir = some entries → (entries.map DirEntry.name).Nodup
  names_plain : ∀ dir entries, readDir dir = some entries → ∀ e ∈ entries, '/' ∉ e.name
  names_fit : ∀ dir entries, readDir dir = some entries → ∀ e ∈ entries,
    Framing.Fits (utf8 (relOf dir e.name))

/-! ## The walk -/

def fingerprintNames : List Str :=
  ["package.json", "package-lock.json", "pnpm-lock.yaml", "yarn.lock", "requirements.txt",
    "pyproject.toml", "poetry.lock", "Pipfile", "Cargo.toml", "Cargo.lock", "go.mod", "go.sum", "Gemfile",
    "composer.json", "pom.xml", "build.gradle", ".env", ".env.local", ".env.development",
    ".env.production", ".env.example", "docker-compose.yml", "docker-compose.yaml",
    "Dockerfile"].map String.toList

def fingerprintMaxDepth : Nat := 3

def fingerprintMaxDirs : Nat := 400

def fingerprintSkipDirs : List Str :=
  ["node_modules", ".git", "target", "dist", "build", ".venv", "venv", "__pycache__", ".next", ".cache",
    "vendor"].map String.toList

structure Manifest where
  rel : Str
  len : Fin (2 ^ 64)
  mtime : Seconds
  deriving DecidableEq

def subdirOf (dir : Path) : DirEntry → Option Path
  | .dir name => if fingerprintSkipDirs.contains name then none else some (dir ++ [name])
  | _ => none

def manifestOf (dir : Path) : DirEntry → Option Manifest
  | .file name len mtime =>
      if fingerprintNames.contains name then some ⟨relOf dir name, len, mtime⟩ else none
  | _ => none

namespace Folder

variable (f : Folder)

def entriesOf (dir : Path) : List DirEntry := (f.readDir dir).getD []

def subdirs (dir : Path) : List Path := (f.entriesOf dir).filterMap (subdirOf dir)

def manifestsIn (dir : Path) : List Manifest := (f.entriesOf dir).filterMap (manifestOf dir)

/-- One more than what a walk from the directory pops. -/
def weight : Nat → Path → Nat
  | 0, _ => 1
  | n + 1, dir => 1 + ((f.subdirs dir).map (weight n)).sum

theorem weight_pos (n : Nat) (dir : Path) : 0 < f.weight n dir := by
  cases n <;> simp [weight]

/-- The loop. The queue has its end in front, so the directory that was pushed last is taken first. -/
def walk (queue : List (Path × Nat)) (visited : Nat) (entries : List Manifest) : List Manifest :=
  match queue with
  | [] => entries
  | (dir, depth) :: queue =>
      if fingerprintMaxDepth < depth ∨ fingerprintMaxDirs ≤ visited then walk queue visited entries
      else
        walk (((f.subdirs dir).map fun d => (d, depth + 1)).reverse ++ queue) (visited + 1)
          (entries ++ f.manifestsIn dir)
termination_by (queue.map fun q => f.weight (5 - q.2) q.1).sum
decreasing_by
  · have := f.weight_pos (5 - depth) dir
    simp only [List.map_cons, List.sum_cons]
    omega
  · rename_i h
    have hdepth : depth ≤ 3 := by
      rw [not_or] at h
      exact Nat.not_lt.1 h.1
    have hstep : 5 - depth = (4 - depth) + 1 := by omega
    have hnext : 5 - (depth + 1) = 4 - depth := by omega
    have hsum : ((f.subdirs dir).map fun d => f.weight (5 - (depth + 1)) d).sum + 1 =
        f.weight (5 - depth) dir := by
      rw [hnext, hstep, weight, Nat.add_comm]
    simp only [List.map_append, List.map_reverse, List.map_map, List.sum_append, List.sum_reverse,
      List.map_cons, List.sum_cons, Function.comp_def]
    omega

end Folder

/-- The order of the entries: by path, length and time. -/
def Manifest.key (m : Manifest) : Str ×ₗ Fin (2 ^ 64) ×ₗ Seconds := toLex (m.rel, toLex (m.len, m.mtime))

def Manifest.le (m n : Manifest) : Prop := m.key ≤ n.key

instance : DecidableRel Manifest.le := fun m n => inferInstanceAs (Decidable (m.key ≤ n.key))

def Manifest.fields (m : Manifest) : List Bytes :=
  [utf8 m.rel, Framing.leBytes 8 m.len, Framing.leBytes 8 (m.mtime.val % 2 ^ 64).toNat]

def fingerprintTag : Bytes := utf8 "tethra-folder-fingerprint-v1".toList

/-- What is hashed. -/
def fingerprintBytes (entries : List Manifest) : Bytes :=
  Framing.frames (fingerprintTag :: (entries.insertionSort Manifest.le).flatMap Manifest.fields)

/-- The hash and its text are a parameter. -/
def folderFingerprint {D : Type} (hash : Bytes → D) (f : Folder) : D :=
  hash (fingerprintBytes (f.walk [([], 0)] 0 []))

/-! ## What is visited -/

open Preorder

namespace Folder

variable (f : Folder)

/-- The directories within the depth limit, in the order of the walk. -/
def dirs : List Path := preorder f.subdirs 4 []

/-- A directory within the limit, with what is below it there. -/
def below (d : Path) : List Path := preorder f.subdirs (4 - d.length) d

def visitedDirs : List Path := f.dirs.take fingerprintMaxDirs

theorem walk_eq (queue : List (Path × Nat)) (visited : Nat) (entries : List Manifest) :
    f.walk queue visited entries =
      entries ++ ((queue.flatMap fun q => preorder f.subdirs (4 - q.2) q.1).take
        (fingerprintMaxDirs - visited)).flatMap f.manifestsIn := by
  fun_induction walk f queue visited entries with
  | case1 visited entries => simp
  | case2 visited entries dir depth queue hskip ih =>
      rw [ih]
      rcases hskip with hdepth | hvisited
      · have hzero : 4 - depth = 0 := by
          simp only [fingerprintMaxDepth] at hdepth
          omega
        simp [hzero, preorder]
      · have hzero : fingerprintMaxDirs - visited = 0 := by omega
        simp [hzero]
  | case3 visited entries dir depth queue hskip ih =>
      rw [not_or, Nat.not_lt, Nat.not_le] at hskip
      have hdepth : 4 - depth = (4 - (depth + 1)) + 1 := by
        have := hskip.1
        simp only [fingerprintMaxDepth] at this
        omega
      have hvisited : fingerprintMaxDirs - visited = (fingerprintMaxDirs - (visited + 1)) + 1 := by
        have := hskip.2
        omega
      rw [ih, hvisited, List.flatMap_cons, hdepth, preorder_succ, List.cons_append, List.take_succ_cons,
        List.flatMap_cons, List.flatMap_append, ← List.map_reverse, List.flatMap_map]
      simp

/-- The digest is of the manifests in the visited directories. -/
theorem folderFingerprint_eq {D : Type} (hash : Bytes → D) :
    folderFingerprint hash f = hash (fingerprintBytes (f.visitedDirs.flatMap f.manifestsIn)) := by
  rw [folderFingerprint, walk_eq]
  simp [visitedDirs, dirs]

variable {f}

theorem mem_subdirs {d p : Path} : d ∈ f.subdirs p ↔
    ∃ name, .dir name ∈ f.entriesOf p ∧ name ∉ fingerprintSkipDirs ∧ d = p ++ [name] := by
  rw [subdirs, List.mem_filterMap]
  constructor
  · rintro ⟨e, he, hd⟩
    cases e with
    | dir name =>
        simp only [subdirOf] at hd
        split_ifs at hd with hskip
        exact ⟨name, he, by simpa using hskip, (Option.some.inj hd).symm⟩
    | file => cases hd
    | other => cases hd
  · rintro ⟨name, he, hskip, rfl⟩
    exact ⟨_, he, by simp [subdirOf, hskip]⟩

theorem length_subdirs : ∀ p, ∀ d ∈ f.subdirs p, d.length = p.length + 1 := by
  intro p d hd
  obtain ⟨name, -, -, rfl⟩ := mem_subdirs.1 hd
  simp

theorem prefix_of_mem_preorder {n : Nat} {p d : Path} (h : d ∈ preorder f.subdirs n p) : p <+: d := by
  induction n generalizing p with
  | zero => simp [preorder] at h
  | succ n ih =>
      rcases List.mem_cons.1 h with rfl | h
      · exact List.prefix_refl _
      · obtain ⟨x, hx, hd⟩ := List.mem_flatMap.1 h
        obtain ⟨name, -, -, rfl⟩ := mem_subdirs.1 (List.mem_reverse.1 hx)
        exact (List.prefix_append p [name]).trans (ih hd)

theorem entriesOf_nodup (f : Folder) (p : Path) : ((f.entriesOf p).map DirEntry.name).Nodup := by
  unfold entriesOf
  cases h : f.readDir p with
  | none => simp
  | some entries => exact f.names_distinct p entries h

theorem subdirs_nodup (f : Folder) (p : Path) : (f.subdirs p).Nodup := by
  refine List.Nodup.filterMap ?_ (List.Nodup.of_map _ (f.entriesOf_nodup p))
  intro e e' d hd hd'
  cases e <;> cases e' <;> simp only [subdirOf, Option.mem_def, reduceCtorEq] at hd hd'
  rename_i name name'
  split_ifs at hd hd'
  rw [← Option.some.inj hd] at hd'
  have := List.append_cancel_left (Option.some.inj hd')
  rw [List.singleton_inj.1 this]

/-- No directory stands twice. -/
theorem preorder_nodup (f : Folder) (n : Nat) (p : Path) : (preorder f.subdirs n p).Nodup := by
  induction n generalizing p with
  | zero => exact List.nodup_nil
  | succ n ih =>
      rw [preorder_succ, List.nodup_cons]
      constructor
      · intro hmem
        obtain ⟨x, hx, hp⟩ := List.mem_flatMap.1 hmem
        have hlen := (prefix_of_mem_preorder hp).length_le
        rw [length_subdirs p x (List.mem_reverse.1 hx)] at hlen
        omega
      · rw [List.nodup_flatMap]
        refine ⟨fun x _ => ih x, ?_⟩
        refine (List.nodup_reverse.2 (f.subdirs_nodup p)).imp_of_mem ?_
        intro x y hx hy hne d hdx hdy
        have hlen : x.length = y.length := by
          rw [length_subdirs p x (List.mem_reverse.1 hx), length_subdirs p y (List.mem_reverse.1 hy)]
        refine hne ?_
        rw [List.prefix_iff_eq_take.1 (prefix_of_mem_preorder hdx), hlen,
          ← List.prefix_iff_eq_take.1 (prefix_of_mem_preorder hdy)]

/-! ## Other orders -/

/-- The same folder, listed in another order. -/
def Reordered (f g : Folder) : Prop := ∀ dir, Option.Rel List.Perm (f.readDir dir) (g.readDir dir)

/-- Every directory with a manifest has so much below it, or so few others beside, that it is visited
    whatever comes before it. -/
def Stable (f : Folder) : Prop :=
  ∀ d ∈ f.dirs, f.manifestsIn d ≠ [] → f.dirs.length - (f.below d).length < fingerprintMaxDirs

section

variable {f g : Folder} (h : f.Reordered g)
include h

theorem Reordered.entriesOf (p : Path) : (f.entriesOf p).Perm (g.entriesOf p) := by
  have hp := h p
  unfold Folder.entriesOf
  generalize f.readDir p = a, g.readDir p = b at hp
  cases hp with
  | some hperm => exact hperm
  | none => exact .refl _

theorem Reordered.subdirs (p : Path) : (f.subdirs p).Perm (g.subdirs p) := (h.entriesOf p).filterMap _

theorem Reordered.manifestsIn (p : Path) : (f.manifestsIn p).Perm (g.manifestsIn p) :=
  (h.entriesOf p).filterMap _

theorem Reordered.dirs : f.dirs.Perm g.dirs := preorder_perm h.subdirs 4 []

theorem Reordered.below (d : Path) : (f.below d).Perm (g.below d) := preorder_perm h.subdirs _ d

theorem Reordered.stable (hstable : f.Stable) : g.Stable := by
  intro d hd hmanifests
  rw [← h.dirs.length_eq, ← (h.below d).length_eq]
  refine hstable d (h.dirs.mem_iff.2 hd) fun hnil => hmanifests ?_
  exact List.nil_perm.1 (hnil ▸ h.manifestsIn d)

theorem Reordered.manifests : (f.dirs.flatMap f.manifestsIn).Perm (g.dirs.flatMap g.manifestsIn) :=
  h.dirs.flatMap fun d _ => h.manifestsIn d

end

/-- The directories that the walk leaves out have no manifest. -/
theorem Stable.manifestsIn_eq_nil {f : Folder} (h : f.Stable) {d : Path}
    (hd : d ∈ f.dirs.drop fingerprintMaxDirs) : f.manifestsIn d = [] := by
  by_contra hmanifests
  obtain ⟨as, bs, hdrop⟩ := List.append_of_mem hd
  have hcut : f.dirs = (f.dirs.take fingerprintMaxDirs ++ as) ++ d :: bs := by
    rw [List.append_assoc, ← hdrop, List.take_append_drop]
  have hbefore : (f.dirs.take fingerprintMaxDirs ++ as).length + (f.below d).length ≤ f.dirs.length :=
    length_before_le length_subdirs hcut
  have hlen : (f.dirs.take fingerprintMaxDirs).length = fingerprintMaxDirs := by
    rw [List.length_take, min_eq_left]
    by_contra hshort
    rw [List.drop_eq_nil_of_le (by omega)] at hd
    cases hd
  have := h d (List.mem_of_mem_drop hd) hmanifests
  rw [List.length_append, hlen] at hbefore
  omega

/-- Every manifest is found. -/
theorem Stable.visited {f : Folder} (h : f.Stable) :
    f.visitedDirs.flatMap f.manifestsIn = f.dirs.flatMap f.manifestsIn := by
  have hrest : (f.dirs.drop fingerprintMaxDirs).flatMap f.manifestsIn = [] :=
    List.flatMap_eq_nil_iff.2 fun d hd => h.manifestsIn_eq_nil hd
  conv_rhs => rw [← List.take_append_drop fingerprintMaxDirs f.dirs, List.flatMap_append, hrest,
    List.append_nil]
  rfl

/-! ## An order for a directory -/

/-- The listing with the chosen entries in front. -/
def reorder (f : Folder) (chosen : Path → DirEntry → Bool) : Folder where
  readDir dir := (f.readDir dir).map fun entries =>
    entries.filter (chosen dir) ++ entries.filter fun e => !chosen dir e
  names_distinct := by
    intro dir entries h
    obtain ⟨entries', h', rfl⟩ := Option.map_eq_some_iff.1 h
    exact (((List.filter_append_perm _ entries').map _).nodup_iff).2 (f.names_distinct dir entries' h')
  names_plain := by
    intro dir entries h e he
    obtain ⟨entries', h', rfl⟩ := Option.map_eq_some_iff.1 h
    exact f.names_plain dir entries' h' e ((List.filter_append_perm _ entries').mem_iff.1 he)
  names_fit := by
    intro dir entries h e he
    obtain ⟨entries', h', rfl⟩ := Option.map_eq_some_iff.1 h
    exact f.names_fit dir entries' h' e ((List.filter_append_perm _ entries').mem_iff.1 he)

/-- The entry is on the way to the directory. -/
def toward (d dir : Path) (e : DirEntry) : Bool := decide (dir ++ [e.name] <+: d)

/-- What leads to the directory is listed first, so it is visited last. -/
def front (f : Folder) (d : Path) : Folder := f.reorder (toward d)

/-- What leads to the directory is listed last, so it is visited first. -/
def back (f : Folder) (d : Path) : Folder := f.reorder fun dir e => !toward d dir e

theorem readDir_reorder (f : Folder) (chosen : Path → DirEntry → Bool) (dir : Path) :
    (f.reorder chosen).readDir dir = (f.readDir dir).map fun entries =>
      entries.filter (chosen dir) ++ entries.filter fun e => !chosen dir e := rfl

theorem reordered_reorder (f : Folder) (chosen : Path → DirEntry → Bool) :
    f.Reordered (f.reorder chosen) := by
  intro dir
  rw [readDir_reorder]
  cases f.readDir dir with
  | none => exact .none
  | some entries => exact .some (List.filter_append_perm _ entries).symm

theorem entriesOf_reorder (f : Folder) (chosen : Path → DirEntry → Bool) (dir : Path) :
    (f.reorder chosen).entriesOf dir =
      (f.entriesOf dir).filter (chosen dir) ++ (f.entriesOf dir).filter fun e => !chosen dir e := by
  rw [entriesOf, entriesOf, readDir_reorder]
  cases f.readDir dir <;> rfl

section

variable {f : Folder} {d p x : Path}

/-- One entry is on the way. -/
theorem filter_toward (hx : x ∈ f.subdirs p) (hd : x <+: d) :
    ((f.entriesOf p).filter (toward d p)).filterMap (subdirOf p) = [x] := by
  obtain ⟨name, hmem, hskip, rfl⟩ := mem_subdirs.1 hx
  have hsame : ∀ e ∈ (f.entriesOf p).filter (toward d p), e = .dir name := by
    intro e he
    obtain ⟨he, htoward⟩ := List.mem_filter.1 he
    have hprefix := of_decide_eq_true htoward
    have hname : e.name = name := by
      rw [List.prefix_iff_eq_take] at hprefix hd
      rw [List.length_append, List.length_singleton] at hprefix hd
      have heq := hprefix.trans hd.symm
      exact List.singleton_inj.1 (List.append_cancel_left heq)
    exact List.inj_on_of_nodup_map (f.entriesOf_nodup p) he hmem hname
  have hin : DirEntry.dir name ∈ (f.entriesOf p).filter (toward d p) :=
    List.mem_filter.2 ⟨hmem, decide_eq_true hd⟩
  have hnodup : ((f.entriesOf p).filter (toward d p)).Nodup :=
    (List.Nodup.of_map _ (f.entriesOf_nodup p)).filter _
  have hone : (f.entriesOf p).filter (toward d p) = [.dir name] := by
    rw [List.eq_replicate_iff.2 ⟨rfl, hsame⟩] at hnodup hin ⊢
    have hle := List.nodup_replicate.1 hnodup
    have hpos := List.length_pos_of_mem hin
    rw [List.length_replicate] at hpos
    rw [show ((f.entriesOf p).filter (toward d p)).length = 1 by omega]
    rfl
  simp [hone, subdirOf, hskip]

theorem subdirs_front (hx : x ∈ f.subdirs p) (hd : x <+: d) :
    ∃ rest, (f.front d).subdirs p = x :: rest := by
  refine ⟨((f.entriesOf p).filter fun e => !toward d p e).filterMap (subdirOf p), ?_⟩
  rw [subdirs, front, entriesOf_reorder, List.filterMap_append, filter_toward hx hd]
  rfl

theorem subdirs_back (hx : x ∈ f.subdirs p) (hd : x <+: d) :
    ∃ rest, (f.back d).subdirs p = rest ++ [x] := by
  refine ⟨((f.entriesOf p).filter fun e => !toward d p e).filterMap (subdirOf p), ?_⟩
  rw [subdirs, back, entriesOf_reorder, List.filterMap_append]
  simp only [Bool.not_not]
  rw [filter_toward hx hd]

/-- Listed first, the directory is visited last, with what is below it. -/
theorem preorder_front {n : Nat} (hn : n + p.length = 4) (h : d ∈ preorder f.subdirs n p) :
    ∃ as, preorder (f.front d).subdirs n p = as ++ (f.front d).below d := by
  induction n generalizing p with
  | zero => simp [preorder] at h
  | succ n ih =>
      rcases List.mem_cons.1 h with rfl | h
      · exact ⟨[], by rw [List.nil_append, below, show 4 - d.length = n + 1 by omega]⟩
      · obtain ⟨x, hx, hd⟩ := List.mem_flatMap.1 h
        have hx := List.mem_reverse.1 hx
        have hlen := length_subdirs p x hx
        obtain ⟨as, has⟩ := ih (by omega) hd
        obtain ⟨rest, hrest⟩ := subdirs_front hx (prefix_of_mem_preorder hd)
        refine ⟨p :: (rest.reverse.flatMap (preorder (f.front d).subdirs n) ++ as), ?_⟩
        rw [preorder_succ, hrest, List.reverse_cons, List.flatMap_append, List.flatMap_singleton, has]
        simp

/-- Listed last, it comes right behind the directories that it is in. -/
theorem preorder_back {n : Nat} (hn : n + p.length = 4) (h : d ∈ preorder f.subdirs n p) :
    ∃ as bs, preorder (f.back d).subdirs n p = as ++ (f.back d).below d ++ bs ∧
      as.length + p.length = d.length := by
  induction n generalizing p with
  | zero => simp [preorder] at h
  | succ n ih =>
      rcases List.mem_cons.1 h with rfl | h
      · refine ⟨[], [], ?_, by simp⟩
        rw [List.nil_append, List.append_nil, below, show 4 - d.length = n + 1 by omega]
      · obtain ⟨x, hx, hd⟩ := List.mem_flatMap.1 h
        have hx := List.mem_reverse.1 hx
        have hlen := length_subdirs p x hx
        obtain ⟨as, bs, has, hcount⟩ := ih (by omega) hd
        obtain ⟨rest, hrest⟩ := subdirs_back hx (prefix_of_mem_preorder hd)
        refine ⟨p :: as, bs ++ rest.reverse.flatMap (preorder (f.back d).subdirs n), ?_, ?_⟩
        · rw [preorder_succ, hrest, List.reverse_append, List.reverse_singleton, List.singleton_append,
            List.flatMap_cons, has]
          simp
        · rw [List.length_cons]
          omega

end

end Folder

/-! ## The digest -/

theorem Manifest.key_inj {m n : Manifest} (h : m.key = n.key) : m = n := by
  obtain ⟨hrel, hrest⟩ := Prod.mk.inj (toLex.injective h)
  obtain ⟨hlen, hmtime⟩ := Prod.mk.inj (toLex.injective hrest)
  cases m
  cases n
  simp_all

instance : Std.Antisymm Manifest.le := ⟨fun _ _ h h' => Manifest.key_inj (le_antisymm h h')⟩

instance : IsTrans Manifest Manifest.le := ⟨fun _ _ _ h h' => le_trans h h'⟩

instance : Std.Total Manifest.le := ⟨fun m n => le_total m.key n.key⟩

theorem fingerprintBytes_perm {ms ns : List Manifest} (h : ms.Perm ns) :
    fingerprintBytes ms = fingerprintBytes ns := by
  have hperm : (ms.insertionSort Manifest.le).Perm (ns.insertionSort Manifest.le) :=
    (List.perm_insertionSort _ _).trans (h.trans (List.perm_insertionSort _ _).symm)
  have hsorted := List.Perm.eq_of_pairwise' (List.pairwise_insertionSort Manifest.le ms)
    (List.pairwise_insertionSort Manifest.le ns) hperm
  rw [fingerprintBytes, hsorted, fingerprintBytes]

theorem Manifest.fields_inj {m n : Manifest} (h : m.fields = n.fields) : m = n := by
  simp only [Manifest.fields, List.cons.injEq, and_true] at h
  obtain ⟨hrel, hlen, hmtime⟩ := h
  obtain ⟨rel, ⟨len, hl⟩, ⟨t, ht⟩⟩ := m
  obtain ⟨rel', ⟨len', hl'⟩, ⟨t', ht'⟩⟩ := n
  have hrel : rel = rel' := by
    have := congrArg fromUtf8 hrel
    rw [fromUtf8_utf8, fromUtf8_utf8] at this
    exact Option.some.inj this
  have hlength : len = len' := Framing.leBytes_inj (by simpa using hl) (by simpa using hl') hlen
  have hmtime : (t % 2 ^ 64).toNat = (t' % 2 ^ 64).toNat := by
    refine Framing.leBytes_inj ?_ ?_ hmtime <;> omega
  have htime : t = t' := by omega
  subst hrel hlength htime
  rfl

theorem flatMap_fields_inj {ms ns : List Manifest}
    (h : ms.flatMap Manifest.fields = ns.flatMap Manifest.fields) : ms = ns := by
  induction ms generalizing ns with
  | nil =>
      cases ns with
      | nil => rfl
      | cons n ns => simp [Manifest.fields] at h
  | cons m ms ih =>
      cases ns with
      | nil => simp [Manifest.fields] at h
      | cons n ns =>
          rw [List.flatMap_cons, List.flatMap_cons] at h
          obtain ⟨hfields, hrest⟩ := List.append_inj h rfl
          rw [Manifest.fields_inj hfields, ih hrest]

/-- What is hashed tells the manifests apart. -/
theorem perm_of_fingerprintBytes {ms ns : List Manifest} (hms : ∀ m ∈ ms, Framing.Fits (utf8 m.rel))
    (hns : ∀ n ∈ ns, Framing.Fits (utf8 n.rel)) (h : fingerprintBytes ms = fingerprintBytes ns) :
    ms.Perm ns := by
  have hfits : ∀ ls : List Manifest, (∀ m ∈ ls, Framing.Fits (utf8 m.rel)) →
      ∀ field ∈ fingerprintTag :: (ls.insertionSort Manifest.le).flatMap Manifest.fields,
        Framing.Fits field := by
    intro ls hls field hfield
    rcases List.mem_cons.1 hfield with rfl | hfield
    · unfold Framing.Fits
      decide
    · obtain ⟨m, hm, hfield⟩ := List.mem_flatMap.1 hfield
      simp only [Manifest.fields, List.mem_cons, List.not_mem_nil, or_false] at hfield
      rcases hfield with rfl | rfl | rfl
      · exact hls m ((List.mem_insertionSort _).1 hm)
      · simp [Framing.Fits]
      · simp [Framing.Fits]
  have hfields := Framing.frames_inj (hfits ms hms) (hfits ns hns) h
  have hsorted := flatMap_fields_inj (List.cons.inj hfields).2
  exact (List.perm_insertionSort Manifest.le ms).symm.trans
    (hsorted ▸ List.perm_insertionSort Manifest.le ns)

namespace Folder

theorem mem_manifestsIn {f : Folder} {dir : Path} {m : Manifest} (h : m ∈ f.manifestsIn dir) :
    ∃ e ∈ f.entriesOf dir, m.rel = relOf dir e.name := by
  obtain ⟨e, he, hm⟩ := List.mem_filterMap.1 h
  refine ⟨e, he, ?_⟩
  cases e with
  | file name len mtime =>
      simp only [manifestOf] at hm
      split_ifs at hm
      rw [← Option.some.inj hm]
      rfl
  | dir => cases hm
  | other => cases hm

theorem mem_entriesOf {f : Folder} {dir : Path} {e : DirEntry} (h : e ∈ f.entriesOf dir) :
    ∃ entries, f.readDir dir = some entries ∧ e ∈ entries := by
  unfold entriesOf at h
  cases hread : f.readDir dir with
  | none => simp [hread] at h
  | some entries => exact ⟨entries, rfl, by simpa [hread] using h⟩

theorem manifests_fit (f : Folder) (ds : List Path) :
    ∀ m ∈ ds.flatMap f.manifestsIn, Framing.Fits (utf8 m.rel) := by
  intro m hm
  obtain ⟨dir, -, hm⟩ := List.mem_flatMap.1 hm
  obtain ⟨e, he, hrel⟩ := mem_manifestsIn hm
  obtain ⟨entries, hread, he⟩ := mem_entriesOf he
  rw [hrel]
  exact f.names_fit dir entries hread e he

/-- The components of a directory have no slash. -/
theorem plain_of_mem_preorder {f : Folder} {n : Nat} {p d : Path} (hp : ∀ c ∈ p, '/' ∉ c)
    (h : d ∈ preorder f.subdirs n p) : ∀ c ∈ d, '/' ∉ c := by
  induction n generalizing p with
  | zero => simp [preorder] at h
  | succ n ih =>
      rcases List.mem_cons.1 h with rfl | h
      · exact hp
      · obtain ⟨x, hx, hd⟩ := List.mem_flatMap.1 h
        obtain ⟨name, hmem, -, rfl⟩ := mem_subdirs.1 (List.mem_reverse.1 hx)
        obtain ⟨entries, hread, he⟩ := mem_entriesOf hmem
        refine ih (fun c hc => ?_) hd
        rcases List.mem_append.1 hc with hc | hc
        · exact hp c hc
        · rw [List.mem_singleton.1 hc]
          exact f.names_plain p entries hread _ he

theorem relOf_inj {p q : Path} {a b : Str} (hp : ∀ c ∈ p ++ [a], '/' ∉ c) (hq : ∀ c ∈ q ++ [b], '/' ∉ c)
    (h : relOf p a = relOf q b) : p = q := by
  have hsplit := congrArg (List.splitOn '/') h
  rw [relOf, relOf, List.splitOn_intercalate '/' hp (by simp), List.splitOn_intercalate '/' hq (by simp)]
    at hsplit
  exact (List.append_inj' hsplit rfl).1

/-- A manifest is in one directory. -/
theorem dir_of_manifest {f g : Folder} {d d' : Path} {m : Manifest} (hd : d ∈ f.dirs) (hd' : d' ∈ g.dirs)
    (hm : m ∈ f.manifestsIn d) (hm' : m ∈ g.manifestsIn d') : d = d' := by
  obtain ⟨e, he, hrel⟩ := mem_manifestsIn hm
  obtain ⟨e', he', hrel'⟩ := mem_manifestsIn hm'
  obtain ⟨entries, hread, hmem⟩ := mem_entriesOf he
  obtain ⟨entries', hread', hmem'⟩ := mem_entriesOf he'
  have hplain := plain_of_mem_preorder (by simp) hd
  have hplain' := plain_of_mem_preorder (by simp) hd'
  refine relOf_inj ?_ ?_ (hrel.symm.trans hrel')
  · intro c hc
    rcases List.mem_append.1 hc with hc | hc
    · exact hplain c hc
    · rw [List.mem_singleton.1 hc]
      exact f.names_plain d entries hread e hmem
  · intro c hc
    rcases List.mem_append.1 hc with hc | hc
    · exact hplain' c hc
    · rw [List.mem_singleton.1 hc]
      exact g.names_plain d' entries' hread' e' hmem'

/-! ## Stability -/

variable {D : Type} {hash : Bytes → D}

/-- The digest is the same in whatever order the directories are listed. -/
def OrderIndependent (hash : Bytes → D) (f : Folder) : Prop :=
  ∀ g h, f.Reordered g → f.Reordered h → folderFingerprint hash g = folderFingerprint hash h

/-- Of a folder with no more directories than are visited, and of any other such, the digests are the same
    only with the same manifests: none added, none removed, and none of another length or time. -/
def DetectsChanges (hash : Bytes → D) (f : Folder) : Prop :=
  f.dirs.length ≤ fingerprintMaxDirs → ∀ g : Folder, g.dirs.length ≤ fingerprintMaxDirs →
    folderFingerprint hash f = folderFingerprint hash g →
      (f.dirs.flatMap f.manifestsIn).Perm (g.dirs.flatMap g.manifestsIn)

theorem detectsChanges (hhash : Function.Injective hash) (f : Folder) : f.DetectsChanges hash := by
  intro hf g hg h
  rw [folderFingerprint_eq, folderFingerprint_eq, visitedDirs, visitedDirs, List.take_of_length_le hf,
    List.take_of_length_le hg] at h
  exact perm_of_fingerprintBytes (f.manifests_fit _) (g.manifests_fit _) (hhash h)

theorem Stable.folderFingerprint_eq {f g : Folder} (hf : f.Stable) (h : f.Reordered g) :
    folderFingerprint hash g = hash (fingerprintBytes (f.dirs.flatMap f.manifestsIn)) := by
  rw [Folder.folderFingerprint_eq, (h.stable hf).visited, fingerprintBytes_perm h.manifests]

theorem length_lt {f : Folder} {d : Path} (hd : d ∈ f.dirs) : d.length < 4 := level_lt length_subdirs hd

theorem below_cons (f : Folder) {d : Path} (hd : d.length < 4) : ∃ rest, f.below d = d :: rest := by
  have hlevels : 4 - d.length = (3 - d.length) + 1 := by omega
  rw [below, hlevels, preorder_succ]
  exact ⟨_, rfl⟩

/-- Listed last, a directory is visited. -/
theorem visited_back {f : Folder} {d : Path} (hd : d ∈ f.dirs) : d ∈ (f.back d).visitedDirs := by
  obtain ⟨as, bs, hdirs, hlen⟩ := preorder_back (p := []) rfl hd
  obtain ⟨rest, hrest⟩ := (f.back d).below_cons (length_lt hd)
  have hroom : as.length < fingerprintMaxDirs := by
    have := length_lt hd
    have hmax : fingerprintMaxDirs = 400 := rfl
    rw [List.length_nil, Nat.add_zero] at hlen
    omega
  rw [visitedDirs, dirs, hdirs, hrest, List.append_assoc, List.cons_append, List.mem_take_iff_getElem]
  exact ⟨as.length, by simp [hroom], by simp⟩

/-- Listed first, a directory that others can displace is not visited. -/
theorem unvisited_front {f : Folder} {d : Path} (hd : d ∈ f.dirs)
    (hdisplaced : fingerprintMaxDirs ≤ f.dirs.length - (f.below d).length) :
    d ∉ (f.front d).visitedDirs := by
  have hfront : f.Reordered (f.front d) := f.reordered_reorder _
  obtain ⟨as, hdirs⟩ := preorder_front (p := []) rfl hd
  obtain ⟨rest, hrest⟩ := (f.front d).below_cons (length_lt hd)
  have hcount : f.dirs.length = as.length + (f.below d).length := by
    rw [hfront.dirs.length_eq, (hfront.below d).length_eq, dirs, hdirs, List.length_append]
  have hbefore : fingerprintMaxDirs ≤ as.length := by omega
  intro hmem
  have hnodup := (f.front d).preorder_nodup 4 []
  rw [hdirs] at hnodup
  rw [visitedDirs, dirs, hdirs, List.take_append_of_le_length hbefore] at hmem
  refine List.disjoint_of_nodup_append hnodup (List.mem_of_mem_take hmem) ?_
  rw [hrest]
  exact List.mem_cons_self

/-- A directory that others can displace is left out in one order, and visited in another. -/
theorem Stable.of_orderIndependent {f : Folder} (hhash : Function.Injective hash)
    (h : f.OrderIndependent hash) : f.Stable := by
  intro d hd hmanifests
  by_contra hdisplaced
  have hfront : f.Reordered (f.front d) := f.reordered_reorder _
  have hback : f.Reordered (f.back d) := f.reordered_reorder _
  obtain ⟨m, hm⟩ := List.exists_mem_of_ne_nil _ hmanifests
  have hsame := h _ _ hback hfront
  rw [Folder.folderFingerprint_eq, Folder.folderFingerprint_eq] at hsame
  have hperm := perm_of_fingerprintBytes ((f.back d).manifests_fit (f.back d).visitedDirs)
    ((f.front d).manifests_fit (f.front d).visitedDirs) (hhash hsame)
  have hfound : m ∈ (f.back d).visitedDirs.flatMap (f.back d).manifestsIn :=
    List.mem_flatMap.2 ⟨d, visited_back hd, (hback.manifestsIn d).mem_iff.1 hm⟩
  obtain ⟨d', hd', hm'⟩ := List.mem_flatMap.1 (hperm.mem_iff.1 hfound)
  obtain rfl := dir_of_manifest hd (List.mem_of_mem_take hd') hm hm'
  exact unvisited_front hd (Nat.not_lt.1 hdisplaced) hd'

/-- With a hash that has no collision, the digest is the same in every order, and tells changes in a folder
    of few directories, exactly when no manifest can be displaced. -/
theorem fingerprint_stable_iff (hhash : Function.Injective hash) (f : Folder) :
    f.OrderIndependent hash ∧ f.DetectsChanges hash ↔ f.Stable := by
  refine ⟨fun h => .of_orderIndependent hhash h.1, fun h => ⟨fun g g' hg hg' => ?_, detectsChanges hhash f⟩⟩
  rw [h.folderFingerprint_eq hg, h.folderFingerprint_eq hg']

/-! ## Many directories -/

def dirName (i : Nat) : Str := List.replicate (i + 1) 'a'

theorem dirName_plain (i : Nat) : '/' ∉ dirName i := by
  intro hmem
  have := List.eq_of_mem_replicate hmem
  revert this
  decide

theorem dirName_not_skipped (i : Nat) : dirName i ∉ fingerprintSkipDirs := by
  intro hmem
  have hother : (fingerprintSkipDirs.all fun s => s.any (· != 'a')) = true := by decide
  obtain ⟨c, hc, hne⟩ := List.any_eq_true.1 (List.all_eq_true.1 hother _ hmem)
  rw [List.eq_of_mem_replicate hc] at hne
  exact absurd hne (by decide)

theorem utf8_length_le (t : Str) : (utf8 t).length ≤ 4 * t.length := by
  rw [utf8_eq_flatMap]
  induction t with
  | nil => simp
  | cons c t ih =>
      have hc : (String.utf8EncodeChar c).length ≤ 4 := by
        rw [String.length_utf8EncodeChar]
        exact c.utf8Size_le_four
      rw [List.flatMap_cons, List.length_append, List.length_cons]
      omega

/-- A folder of 400 directories, one of them with a manifest. -/
def manyDirs : Folder where
  readDir dir :=
    if dir = [] then some ((List.range 400).map fun i => .dir (dirName i))
    else if dir = [dirName 0] then some [.file ".env".toList 0 ⟨0, by decide⟩]
    else none
  names_distinct := by
    intro dir entries h
    split_ifs at h
    · obtain rfl := Option.some.inj h
      rw [List.map_map]
      refine List.Nodup.map (fun i j hij => ?_) List.nodup_range
      have := congrArg List.length hij
      simpa [dirName, DirEntry.name] using this
    · obtain rfl := Option.some.inj h
      simp
  names_plain := by
    intro dir entries h e he
    split_ifs at h
    · obtain rfl := Option.some.inj h
      obtain ⟨i, -, rfl⟩ := List.mem_map.1 he
      exact dirName_plain i
    · obtain rfl := Option.some.inj h
      obtain rfl := List.mem_singleton.1 he
      decide
  names_fit := by
    intro dir entries h e he
    unfold Framing.Fits
    split_ifs at h with hroot hfirst
    · obtain rfl := Option.some.inj h
      obtain ⟨i, hi, rfl⟩ := List.mem_map.1 he
      refine lt_of_le_of_lt (utf8_length_le _) ?_
      have hlen : (relOf dir (DirEntry.dir (dirName i)).name).length = i + 1 := by
        simp [hroot, relOf, DirEntry.name, dirName]
      have := List.mem_range.1 hi
      rw [hlen]
      omega
    · obtain rfl := Option.some.inj h
      obtain rfl := List.mem_singleton.1 he
      rw [hfirst]
      decide

theorem subdirs_root : manyDirs.subdirs [] = (List.range 400).map fun i => [dirName i] := by
  have hentries : manyDirs.entriesOf [] = (List.range 400).map fun i => .dir (dirName i) := rfl
  rw [subdirs, hentries, List.filterMap_map]
  have hsubdir : ∀ i, subdirOf [] (.dir (dirName i)) = some [dirName i] := by
    intro i
    simp [subdirOf, dirName_not_skipped]
  simp [hsubdir]

theorem subdirs_dirName (i : Nat) : manyDirs.subdirs [dirName i] = [] := by
  by_cases hi : [dirName i] = [dirName 0]
  · rw [hi]
    rfl
  · simp [subdirs, entriesOf, manyDirs, hi]

theorem preorder_dirName (n i : Nat) : preorder manyDirs.subdirs (n + 1) [dirName i] = [[dirName i]] := by
  rw [preorder_succ, subdirs_dirName]
  rfl

theorem dirs_manyDirs : manyDirs.dirs = [] :: ((List.range 400).map fun i => [dirName i]).reverse := by
  have hleaf : ∀ i, preorder manyDirs.subdirs 3 [dirName i] = [[dirName i]] := preorder_dirName 2
  rw [dirs, preorder_succ, subdirs_root, ← List.map_reverse, List.flatMap_map]
  simp only [hleaf]
  rw [List.map_eq_flatMap]

/-- Listed first, the directory of the manifest is not visited. -/
theorem order_matters : ¬manyDirs.OrderIndependent (id : Bytes → Bytes) := by
  intro h
  have hmem : [dirName 0] ∈ manyDirs.dirs := by
    rw [dirs_manyDirs]
    refine List.mem_cons_of_mem _ (List.mem_reverse.2 (List.mem_map.2 ⟨0, ?_, rfl⟩))
    simp
  have hmanifest : manyDirs.manifestsIn [dirName 0] ≠ [] := by decide
  have hstable := Stable.of_orderIndependent Function.injective_id h [dirName 0] hmem hmanifest
  have hbelow : manyDirs.below [dirName 0] = [[dirName 0]] := preorder_dirName 2 0
  rw [hbelow, dirs_manyDirs] at hstable
  simp [fingerprintMaxDirs] at hstable

theorem fingerprint_stable_iff_manyDirs :
    manyDirs.OrderIndependent (id : Bytes → Bytes) ∧ manyDirs.DetectsChanges (id : Bytes → Bytes) ↔
      manyDirs.Stable :=
  fingerprint_stable_iff Function.injective_id manyDirs

end Folder

end Tethra.Tracking
