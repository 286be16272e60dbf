import Tethra.Core.Ignore

set_option autoImplicit false

/-! # The rules of gitignore

What git documents of ignore files, in their own terms: lines are rules, the last rule that matches
decides, deeper files come after shallower ones, and what is inside an excluded directory is excluded.
The code answers like this unless a trailing `**` stands for nothing (`ignored_along_iff`). -/

namespace Tethra.Ignore

open Wildcard

/-! ## Components of a pattern -/

/-- The members of a class as ranges, and the number of characters read up to the bracket. -/
def classMembers (first : Bool) : Str → Option (List (Char × Char) × Nat)
  | [] => none
  | ch :: rest =>
      if ch = ']' ∧ first = false then some ([], 1)
      else
        match rest with
        | '-' :: hi :: behind =>
            if hi ≠ ']' then
              (classMembers false behind).map fun (ms, read) => ((ch, hi) :: ms, read + 3)
            else (classMembers false ('-' :: hi :: behind)).map fun (ms, read) => ((ch, ch) :: ms, read + 1)
        | rest => (classMembers false rest).map fun (ms, read) => ((ch, ch) :: ms, read + 1)

/-- A bracket class, behind its bracket: a test and the number of characters read. -/
def classTest (p : Str) : Option ((Char → Bool) × Nat) :=
  let test (ms : List (Char × Char)) (x : Char) : Bool :=
    ms.any fun m => decide (m.1 ≤ x) && decide (x ≤ m.2)
  if p.head? = some '!' ∨ p.head? = some '^' then
    (classMembers true p.tail).map fun (ms, read) => (fun x => !test ms x, read + 1)
  else (classMembers true p).map fun (ms, read) => (test ms, read)

/-- The items of a component. -/
def segmentItems : Str → List (Item Char)
  | [] => []
  | '*' :: p => .star :: segmentItems p
  | '?' :: p => .one (fun _ => true) :: segmentItems p
  | '[' :: p =>
      match classTest p with
      | some (test, read) => .one test :: segmentItems (p.drop read)
      | none => .one (fun x => '[' == x) :: segmentItems p
  | '\\' :: c :: p => .one (fun x => c == x) :: segmentItems p
  | c :: p => .one (fun x => c == x) :: segmentItems p
termination_by p => p.length
decreasing_by all_goals simp; try omega

theorem between_self (a c : Char) : (decide (a ≤ c) && decide (c ≤ a)) = (a == c) := by
  rw [Bool.eq_iff_iff]
  simp only [Bool.and_eq_true, decide_eq_true_eq, beq_iff_eq]
  exact ⟨fun h => le_antisymm h.1 h.2, fun h => ⟨h.le, h.ge⟩⟩

theorem classLoop_eq (c : Char) (matched first : Bool) (read : Nat) (p : Str) :
    classLoop c matched first read p = (classMembers first p).map fun (ms, n) =>
      (matched || ms.any (fun m => decide (m.1 ≤ c) && decide (c ≤ m.2)), read + n) := by
  fun_induction classLoop c matched first read p with
  | case1 => simp [classMembers]
  | case2 matched first read ch rest hend =>
      rw [classMembers.eq_def]
      simp only [if_pos hend]
      simp
  | case3 matched first read ch hend hi behind hhi ih =>
      rw [ih, classMembers, if_neg hend]
      simp only [if_pos hhi, Option.map_map, Function.comp_def, List.any_cons, Bool.or_assoc,
        Nat.add_assoc, Nat.add_comm 3]
  | case4 matched first read ch hend hi behind hhi ih =>
      rw [ih, classMembers, if_neg hend]
      simp only [if_neg hhi, Option.map_map, Function.comp_def, List.any_cons, Bool.or_assoc,
        Nat.add_assoc, Nat.add_comm 1, between_self]
  | case5 matched first read ch hend rest hrest ih =>
      rw [ih, classMembers, if_neg hend]
      simp only [Option.map_map, Function.comp_def, List.any_cons, Bool.or_assoc,
        Nat.add_assoc, Nat.add_comm 1, between_self]
      exact hrest

/-- A class reads as many characters whatever it is asked for, and answers with its test. -/
theorem matchClass_eq (p : Str) (c : Char) :
    matchClass p c = (classTest p).map fun (test, read) => (test c, read) := by
  unfold matchClass classTest
  simp only
  split_ifs
  · rw [classLoop_eq]
    simp [Option.map_map, Function.comp_def, Nat.add_comm]
  · rw [classLoop_eq]
    simp [Option.map_map, Function.comp_def]

theorem segmentReading : Reading (· == '*') segmentLook segmentItems where
  nil := by simp [segmentItems]
  star := by
    intro b p hb
    obtain rfl := beq_iff_eq.1 hb
    exact ⟨by simp [segmentItems], fun _ => rfl⟩
  one := by
    intro b p hb
    by_cases hany : b = '?'
    · subst hany
      exact ⟨fun _ => true, 0, by simp [segmentItems], fun _ => rfl⟩
    by_cases hclass : b = '['
    · subst hclass
      cases htest : classTest p with
      | none =>
          refine ⟨fun x => '[' == x, 0, by simp [segmentItems, htest], fun x => ?_⟩
          simp [segmentLook, matchClass_eq, htest]
      | some t =>
          refine ⟨t.1, t.2, by simp [segmentItems, htest], fun x => ?_⟩
          simp [segmentLook, matchClass_eq, htest]
    by_cases hescape : ∃ c p', b = '\\' ∧ p = c :: p'
    · obtain ⟨c, p', rfl, rfl⟩ := hescape
      exact ⟨fun x => c == x, 1, by simp [segmentItems], fun x => by simp [segmentLook]⟩
    · have hstar : b ≠ '*' := by simpa using hb
      have hplain : ∀ c p', b = '\\' → p ≠ c :: p' := fun c p' h hp => hescape ⟨c, p', h, hp⟩
      refine ⟨fun x => b == x, 0, ?_, fun x => ?_⟩
      · rw [segmentItems, List.drop_zero] <;> grind
      · rw [segmentLook] <;> grind

theorem globMatchSegment_iff (pattern text : Str) :
    globMatchSegment pattern text = true ↔ Matches (segmentItems pattern) text :=
  greedy_iff segmentReading pattern text

/-! ## Patterns of components -/

def pathItems (pattern : List Str) : List (Item Str) :=
  pattern.map fun p => if p = doubleStar then .star else .one (globMatchSegment p)

theorem pathReading : Reading (· == doubleStar) pathLook pathItems where
  nil := rfl
  star := by
    intro b p hb
    obtain rfl := beq_iff_eq.1 hb
    exact ⟨by simp [pathItems], fun _ => by simp [pathLook]⟩
  one := by
    intro b p hb
    have hne : b ≠ doubleStar := by simpa using hb
    exact ⟨globMatchSegment b, 0, by simp [pathItems, hne], fun x => by simp [pathLook, hne]⟩

theorem globMatchPath_iff (pattern text : List Str) :
    globMatchPath pattern text = true ↔ Matches (pathItems pattern) text :=
  greedy_iff pathReading pattern text

/-- Git's reading of a pattern with slashes: an inner or leading `**` is any number of directories, none
among them; a trailing `**` is everything inside, at least one component. -/
inductive PathMatches : List Str → List Str → Prop
  | nil : PathMatches [] []
  | one {p : Str} {ps : List Str} {c : Str} {cs : List Str} (hp : p ≠ doubleStar)
      (hc : Matches (segmentItems p) c) (h : PathMatches ps cs) : PathMatches (p :: ps) (c :: cs)
  | none {ps cs : List Str} (hps : ps ≠ []) (h : PathMatches ps cs) : PathMatches (doubleStar :: ps) cs
  | inside {c : Str} : PathMatches [doubleStar] [c]
  | more {ps : List Str} {c : Str} {cs : List Str} (h : PathMatches (doubleStar :: ps) cs) :
      PathMatches (doubleStar :: ps) (c :: cs)

variable {ps cs : List Str}

theorem pathItems_one {p : Str} (hp : p ≠ doubleStar) :
    pathItems (p :: ps) = .one (globMatchSegment p) :: pathItems ps := by
  simp [pathItems, hp]

theorem pathItems_star : pathItems (doubleStar :: ps) = .star :: pathItems ps := by
  simp [pathItems]

theorem PathMatches.matches_items (h : PathMatches ps cs) : Matches (pathItems ps) cs := by
  induction h with
  | nil => exact .nil
  | one hp hc _ ih =>
      rw [pathItems_one hp]
      exact .one ((globMatchSegment_iff _ _).2 hc) ih
  | none _ _ ih =>
      rw [pathItems_star]
      exact .skip ih
  | inside => exact .grow (.skip .nil)
  | more _ ih =>
      rw [pathItems_star] at ih ⊢
      exact .grow ih

/-- The pattern matches with a trailing `**` that stands for nothing. -/
def EndsInNothing (ps cs : List Str) : Prop :=
  ∃ init, ps = init ++ [doubleStar] ∧ Matches (pathItems init) cs

theorem PathMatches.of_drop {n : Nat} (h : PathMatches (doubleStar :: ps) (cs.drop n)) :
    PathMatches (doubleStar :: ps) cs := by
  induction n generalizing cs with
  | zero => exact h
  | succ n ih =>
      cases cs with
      | nil => simpa using h
      | cons c cs => exact .more (ih h)

theorem pathMatches_inside (c : Str) (cs : List Str) : PathMatches [doubleStar] (c :: cs) := by
  induction cs generalizing c with
  | nil => exact .inside
  | cons d cs ih => exact .more (ih d)

theorem EndsInNothing.cons {p : Str} (h : EndsInNothing ps cs) {cs' : List Str}
    (hp : ∀ init, Matches (pathItems init) cs → Matches (pathItems (p :: init)) cs') :
    EndsInNothing (p :: ps) cs' := by
  obtain ⟨init, rfl, hinit⟩ := h
  exact ⟨p :: init, rfl, hp init hinit⟩

theorem pathMatches_or_endsInNothing (h : Matches (pathItems ps) cs) :
    PathMatches ps cs ∨ EndsInNothing ps cs := by
  induction ps generalizing cs with
  | nil =>
      obtain _ | _ := h
      exact .inl .nil
  | cons p ps ih =>
      by_cases hp : p = doubleStar
      · subst hp
        rw [pathItems_star] at h
        obtain ⟨n, -, hrest⟩ := h.exists_drop
        by_cases hps : ps = []
        · subst hps
          cases cs with
          | nil => exact .inr ⟨[], rfl, .nil⟩
          | cons c cs => exact .inl (pathMatches_inside c cs)
        · obtain hmatch | hends := ih hrest
          · exact .inl (PathMatches.none hps hmatch).of_drop
          · refine .inr (hends.cons fun init hinit => ?_)
            rw [pathItems_star]
            exact (Matches.skip hinit).star_of_drop
      · rw [pathItems_one hp] at h
        cases cs with
        | nil => cases h
        | cons c cs =>
            obtain ⟨hc, hrest⟩ := matches_one_cons.1 h
            obtain hmatch | hends := ih hrest
            · exact .inl (.one hp ((globMatchSegment_iff _ _).1 hc) hmatch)
            · refine .inr (hends.cons fun init hinit => ?_)
              rw [pathItems_one hp]
              exact .one hc hinit

theorem globMatchPath_eq : globMatchPath ps cs = true ↔ PathMatches ps cs ∨ EndsInNothing ps cs := by
  rw [globMatchPath_iff]
  refine ⟨pathMatches_or_endsInNothing, ?_⟩
  rintro (h | ⟨init, rfl, hinit⟩)
  · exact h.matches_items
  · have hitems : pathItems (init ++ [doubleStar]) = pathItems init ++ [.star] := by simp [pathItems]
    rw [hitems]
    exact hinit.append_star

/-- A single component matches a single component. -/
theorem globMatchPath_single {p : Str} (hcs : cs ≠ []) :
    globMatchPath [p] cs = true ↔
      p = doubleStar ∨ ∃ c, cs = [c] ∧ Matches (segmentItems p) c := by
  rw [globMatchPath_iff]
  by_cases hp : p = doubleStar
  · subst hp
    obtain ⟨c, rest, rfl⟩ := List.exists_cons_of_ne_nil hcs
    simp only [true_or, iff_true]
    exact (pathMatches_inside c rest).matches_items
  · obtain ⟨c, rest, rfl⟩ := List.exists_cons_of_ne_nil hcs
    rw [pathItems_one hp, matches_one_cons, globMatchSegment_iff, or_iff_right hp]
    constructor
    · rintro ⟨hc, hrest⟩
      obtain _ | _ := hrest
      exact ⟨c, rfl, hc⟩
    · rintro ⟨_, ⟨⟩, hc⟩
      exact ⟨hc, .nil⟩

theorem matches_doubleStar (name : Str) : Matches (segmentItems doubleStar) name := by
  have hitems : segmentItems doubleStar = [.star, .star] := by simp [segmentItems, doubleStar]
  rw [hitems]
  induction name with
  | nil => exact .skip (.skip .nil)
  | cons c name ih => exact .grow ih

/-! ## Lines -/

/-- A rule of a file in the directory `dir`. -/
structure Rule where
  dir : List Str
  body : Str
  negated : Bool
  dirOnly : Bool
  anchored : Bool
  unanchored : anchored = false → '/' ∉ body

/-- The rule of a pattern behind its `!`: a slash at the end asks for a directory, and one before the end
ties the pattern to the directory of the file. -/
def patternRule (dir : List Str) (negated : Bool) (pattern : Str) : Option Rule :=
  let path := stripSuffixChar '/' pattern
  if stripPrefixChar '/' path = [] then none
  else some
    { dir
      body := stripPrefixChar '/' path
      negated
      dirOnly := decide (pattern.getLast? = some '/')
      anchored := decide ('/' ∈ path)
      unanchored := by
        intro hno hmem
        refine absurd ?_ (of_decide_eq_false hno)
        unfold stripPrefixChar at hmem
        split_ifs at hmem
        · exact List.mem_of_mem_tail hmem
        · exact hmem }

/-- The rule of a line: blank lines and comments have none, spaces at the end do not count, `!` negates. -/
def ruleOf (dir : List Str) (line : Str) : Option Rule :=
  let text := line.rdropWhile (· == ' ')
  if text = [] ∨ text.head? = some '#' then none
  else if text.head? = some '!' then patternRule dir true text.tail
  else patternRule dir false text

/-- A line without escapes, which does not end in a tab or a carriage return. -/
structure Plain (line : Str) : Prop where
  noEscape : '\\' ∉ line
  noReturn : line.getLast? ≠ some '\r'
  noTab : (line.rdropWhile (· == ' ')).getLast? ≠ some '\t'

def Rule.toPattern (r : Rule) : IgnorePattern :=
  ⟨joinPath r.dir, r.body, r.negated, r.dirOnly, r.anchored⟩

theorem trimBackwards_eq {s : Str} (hescape : '\\' ∉ s)
    (htab : (s.dropWhile (· == ' ')).head? ≠ some '\t') : trimBackwards s = s.dropWhile (· == ' ') := by
  induction s with
  | nil => rfl
  | cons c rest ih =>
      have hrest : '\\' ∉ rest := fun h => hescape (List.mem_cons_of_mem _ h)
      have hnone : rest.takeWhile (· == '\\') = [] := by
        cases rest with
        | nil => rfl
        | cons d rest =>
            have hd : d ≠ '\\' := fun h => hrest (h ▸ List.mem_cons_self ..)
            simp [hd]
      by_cases hc : c = ' '
      · subst hc
        have hdrop : (' ' :: rest).dropWhile (· == ' ') = rest.dropWhile (· == ' ') := by simp
        rw [hdrop] at htab ⊢
        simp [trimBackwards, hnone, ih hrest htab]
      · have hdrop : (c :: rest).dropWhile (· == ' ') = c :: rest := by simp [hc]
        rw [hdrop] at htab ⊢
        have hnoTab : c ≠ '\t' := by simpa using htab
        simp [trimBackwards, hc, hnoTab]

theorem Plain.trim {line : Str} (h : Plain line) :
    trimTrailingUnescapedSpaces (stripSuffixChar '\r' line) = line.rdropWhile (· == ' ') := by
  rw [stripSuffixChar, if_neg h.noReturn, trimTrailingUnescapedSpaces, trimBackwards_eq]
  · rfl
  · simpa using h.noEscape
  · have := h.noTab
    rwa [List.rdropWhile, List.getLast?_reverse] at this

theorem stripPrefix_escape {line : Str} (h : '\\' ∉ line) : Text.stripPrefix ['\\', '!'] line = none := by
  cases line with
  | nil => rfl
  | cons c line =>
      have hc : '\\' ≠ c := fun hc => h (hc ▸ List.mem_cons_self ..)
      simp [Text.stripPrefix, hc]

/-- The checks of the code behind `!`, which only look for an empty body sooner. -/
theorem map_patternRule (dir : List Str) (negated : Bool) (pattern : Str) :
    (patternRule dir negated pattern).map Rule.toPattern
      = if pattern = [] then none
        else if stripSuffixChar '/' pattern = [] then none
        else if stripPrefixChar '/' (stripSuffixChar '/' pattern) = [] then none
        else some ⟨joinPath dir, stripPrefixChar '/' (stripSuffixChar '/' pattern), negated,
          decide (pattern.getLast? = some '/'), decide ('/' ∈ stripSuffixChar '/' pattern)⟩ := by
  unfold patternRule
  by_cases hpattern : pattern = []
  · simp [hpattern, stripSuffixChar, stripPrefixChar]
  by_cases hpath : stripSuffixChar '/' pattern = []
  · simp [hpath, stripPrefixChar]
  simp only [if_neg hpattern, if_neg hpath]
  split_ifs <;> rfl

theorem Plain.parse {line : Str} (h : Plain line) (dir : List Str) :
    parseIgnoreLine (joinPath dir) line = (ruleOf dir line).map Rule.toPattern := by
  have hescape : '\\' ∉ line.rdropWhile (· == ' ') :=
    fun hmem => h.noEscape ((List.rdropWhile_prefix _ _).subset hmem)
  simp only [parseIgnoreLine, ruleOf, h.trim, stripPrefix_escape hescape, Option.getD_none]
  by_cases htext : line.rdropWhile (· == ' ') = []
  · simp [htext]
  by_cases hcomment : (line.rdropWhile (· == ' ')).head? = some '#'
  · simp [hcomment]
  rw [if_neg htext, if_neg hcomment, if_neg (not_or.2 ⟨htext, hcomment⟩)]
  by_cases hneg : (line.rdropWhile (· == ' ')).head? = some '!'
  · simp only [if_pos hneg, decide_true, if_true, hneg, map_patternRule]
  · simp only [if_neg hneg, hneg, decide_false, Bool.false_eq_true, if_false, map_patternRule]

/-! ## Paths and directories -/

/-- What a component of a path is. -/
def IsName (c : Str) : Prop := c ≠ [] ∧ '/' ∉ c

theorem splitOn_joinPath {us : List Str} (hus : us ≠ []) (hnames : ∀ c ∈ us, IsName c) :
    (joinPath us).splitOn '/' = us :=
  List.splitOn_intercalate '/' (fun c hc => (hnames c hc).2) hus

theorem filter_names {us : List Str} (hnames : ∀ c ∈ us, IsName c) : us.filter (· ≠ []) = us := by
  rw [List.filter_eq_self]
  intro c hc
  simpa using (hnames c hc).1

theorem components_joinPath {us : List Str} (hus : us ≠ []) (hnames : ∀ c ∈ us, IsName c) :
    components (joinPath us) = us := by
  rw [components, splitOn_joinPath hus hnames, filter_names hnames]

theorem joinPath_append {ds us : List Str} (hds : ds ≠ []) (hus : us ≠ []) :
    joinPath (ds ++ us) = joinPath ds ++ '/' :: joinPath us := by
  obtain ⟨u, us, rfl⟩ := List.exists_cons_of_ne_nil hus
  induction ds with
  | nil => exact absurd rfl hds
  | cons d ds ih =>
      cases ds with
      | nil => simp [joinPath, List.intercalate]
      | cons e ds =>
          have hrest := ih (List.cons_ne_nil _ _)
          simp only [joinPath, List.intercalate, List.cons_append, List.intersperse_cons₂,
            List.flatten_cons, List.append_assoc] at hrest ⊢
          simp [hrest]

theorem joinPath_ne_nil {ds : List Str} (hds : ds ≠ []) (hnames : ∀ c ∈ ds, IsName c) :
    joinPath ds ≠ [] := by
  intro hnil
  have hsplit := splitOn_joinPath hds hnames
  rw [hnil, List.splitOn_nil] at hsplit
  exact (hnames [] (hsplit ▸ List.mem_singleton.2 rfl)).1 rfl

/-- A path is below a directory when the components of the directory are its first ones. -/
theorem stripBase_joinPath {cs ds us : List Str} (hcs : ∀ c ∈ cs, IsName c) (hne : cs ≠ [])
    (hds : ∀ c ∈ ds, IsName c) :
    (∃ under, stripBase (joinPath cs) (joinPath ds) = some under ∧ components under = us ∧ us ≠ []) ↔
      cs = ds ++ us ∧ us ≠ [] := by
  by_cases hroot : ds = []
  · subst hroot
    have hstrip : stripBase (joinPath cs) (joinPath []) = some (joinPath cs) := rfl
    rw [hstrip]
    simp only [Option.some.injEq, exists_eq_left', components_joinPath hne hcs, List.nil_append]
  · have hstrip (under : Str) : stripBase (joinPath cs) (joinPath ds) = some under ↔
        joinPath cs = joinPath ds ++ '/' :: under := by
      rw [stripBase, if_neg (joinPath_ne_nil hroot hds), Option.bind_eq_some_iff]
      simp only [Text.stripPrefix_eq_some]
      constructor
      · rintro ⟨t, hcs, rfl⟩
        exact hcs
      · exact fun h => ⟨'/' :: under, h, rfl⟩
    simp only [hstrip]
    constructor
    · rintro ⟨under, hjoin, rfl, hus⟩
      refine ⟨?_, hus⟩
      have hsplit := congrArg (List.splitOn '/') hjoin
      rw [splitOn_joinPath hne hcs, List.splitOn_append_cons_self, splitOn_joinPath hroot hds] at hsplit
      rw [components, filter_names, hsplit]
      exact fun c hc => hcs c (hsplit ▸ List.mem_append_right _ hc)
    · rintro ⟨rfl, hus⟩
      refine ⟨joinPath us, joinPath_append hroot hus, components_joinPath hus ?_, hus⟩
      exact fun c hc => hcs c (List.mem_append_right _ hc)

/-! ## Matching -/

section Hits

variable (r : Rule) (isDir : Bool)

/-- The rule matches the path: below the directory of its file, an anchored pattern the whole of what is
left, another one the name. -/
def Rule.Hits (cs : List Str) : Prop :=
  (r.dirOnly = true → isDir = true) ∧ ∃ us, us ≠ [] ∧ cs = r.dir ++ us ∧
    if r.anchored then PathMatches (r.body.splitOn '/') us
    else ∃ name, us.getLast? = some name ∧ Matches (segmentItems r.body) name

/-- The pattern does not match the path, but would with a trailing `**` that stands for nothing. -/
def Rule.Overreaches (cs : List Str) : Prop :=
  (r.dirOnly = true → isDir = true) ∧ r.anchored = true ∧ ∃ us, us ≠ [] ∧ cs = r.dir ++ us ∧
    EndsInNothing (r.body.splitOn '/') us ∧ ¬ PathMatches (r.body.splitOn '/') us

variable {r isDir} {cs us : List Str}

theorem any_globMatchPath (hno : r.anchored = false) (hus : us ≠ []) :
    ((List.range us.length).any fun start => globMatchPath (r.body.splitOn '/') (us.drop start)) = true ↔
      ∃ name, us.getLast? = some name ∧ Matches (segmentItems r.body) name := by
  rw [List.splitOn_eq_singleton (r.unanchored hno), List.any_eq_true]
  simp only [List.mem_range]
  have hdrop {start : Nat} (h : start < us.length) : us.drop start ≠ [] := by
    rw [ne_eq, List.drop_eq_nil_iff]
    omega
  constructor
  · rintro ⟨start, hstart, hmatch⟩
    obtain hall | ⟨c, hc, hmatch⟩ := (globMatchPath_single (hdrop hstart)).1 hmatch
    · rw [hall]
      exact ⟨_, List.getLast?_eq_some_getLast hus, matches_doubleStar _⟩
    · refine ⟨c, ?_, hmatch⟩
      rw [← List.take_append_drop start us, hc, List.getLast?_concat]
  · rintro ⟨name, hname, hmatch⟩
    have hlen := List.length_pos_iff.2 hus
    refine ⟨us.length - 1, by omega, (globMatchPath_single (hdrop (by omega))).2 (.inr ⟨name, ?_, hmatch⟩)⟩
    obtain ⟨init, rfl⟩ := List.getLast?_eq_some_iff.1 hname
    simp

/-- The body of the loop, on what is left of the path behind the directory. -/
def IgnorePattern.matchesBelow (p : IgnorePattern) (us : List Str) : Bool :=
  if p.anchored then globMatchPath (p.body.splitOn '/') us
  else (List.range us.length).any fun start => globMatchPath (p.body.splitOn '/') (us.drop start)

theorem IgnorePattern.hit_eq (p : IgnorePattern) (rel : Str) :
    p.hit rel isDir = true ↔ (p.dirOnly = true → isDir = true) ∧ ∃ under,
      stripBase rel p.base = some under ∧ components under ≠ [] ∧
        p.matchesBelow (components under) = true := by
  unfold IgnorePattern.hit IgnorePattern.matchesBelow
  cases hdirOnly : p.dirOnly <;> cases isDir <;> cases stripBase rel p.base <;> simp

theorem hit_toPattern (hcs : ∀ c ∈ cs, IsName c) (hne : cs ≠ []) (hdir : ∀ c ∈ r.dir, IsName c) :
    r.toPattern.hit (joinPath cs) isDir = true ↔ (r.dirOnly = true → isDir = true) ∧ ∃ us,
      us ≠ [] ∧ cs = r.dir ++ us ∧ r.toPattern.matchesBelow us = true := by
  rw [IgnorePattern.hit_eq]
  refine and_congr Iff.rfl ⟨?_, ?_⟩
  · rintro ⟨under, hstrip, hus, hbelow⟩
    obtain ⟨heq, -⟩ := (stripBase_joinPath hcs hne hdir).1 ⟨under, hstrip, rfl, hus⟩
    exact ⟨_, hus, heq, hbelow⟩
  · rintro ⟨us, hus, heq, hbelow⟩
    obtain ⟨under, hstrip, rfl, -⟩ := (stripBase_joinPath hcs hne hdir).2 ⟨heq, hus⟩
    exact ⟨under, hstrip, hus, hbelow⟩

theorem hit_iff (hcs : ∀ c ∈ cs, IsName c) (hne : cs ≠ []) (hdir : ∀ c ∈ r.dir, IsName c) :
    r.toPattern.hit (joinPath cs) isDir = true ↔ r.Hits isDir cs ∨ r.Overreaches isDir cs := by
  rw [hit_toPattern hcs hne hdir, Rule.Hits, Rule.Overreaches, ← and_or_left]
  refine and_congr Iff.rfl ?_
  cases hanchored : r.anchored with
  | false =>
      have hbelow {us : List Str} (hus : us ≠ []) : r.toPattern.matchesBelow us = true ↔
          ∃ name, us.getLast? = some name ∧ Matches (segmentItems r.body) name := by
        rw [← any_globMatchPath hanchored hus]
        simp [IgnorePattern.matchesBelow, Rule.toPattern, hanchored]
      simp only [Bool.false_eq_true, if_false, false_and, or_false]
      exact exists_congr fun us => and_congr_right fun hus => and_congr_right fun _ => hbelow hus
  | true =>
      have hbelow (us : List Str) : r.toPattern.matchesBelow us = true ↔
          PathMatches (r.body.splitOn '/') us ∨ EndsInNothing (r.body.splitOn '/') us := by
        rw [← globMatchPath_eq]
        simp [IgnorePattern.matchesBelow, Rule.toPattern, hanchored]
      simp only [if_true, true_and, hbelow]
      rw [← exists_or]
      refine exists_congr fun us => ?_
      tauto

theorem Rule.Overreaches.not_hits (h : r.Overreaches isDir cs) : ¬ r.Hits isDir cs := by
  obtain ⟨-, hanchored, us, -, rfl, -, hno⟩ := h
  rintro ⟨-, us', -, heq, hmatch⟩
  obtain rfl := List.append_cancel_left heq
  rw [if_pos hanchored] at hmatch
  exact hno hmatch

end Hits

/-! ## Deciding -/

section Deciding

variable {ρ : Type} (hit : ρ → Prop) (positive : ρ → Prop)

/-- The last one that hits is positive. -/
def LastHit (rs : List ρ) : Prop :=
  ∃ before r behind, rs = before ++ r :: behind ∧ hit r ∧ positive r ∧ ∀ s ∈ behind, ¬ hit s

variable {hit positive} {rs : List ρ} {r : ρ}

theorem lastHit_concat_of_hit (h : hit r) : LastHit hit positive (rs ++ [r]) ↔ positive r := by
  constructor
  · rintro ⟨before, s, behind, heq, -, hpos, hno⟩
    obtain rfl | ⟨behind, t, rfl⟩ := behind.eq_nil_or_concat
    · obtain ⟨-, ⟨⟩⟩ := List.append_inj' heq rfl
      exact hpos
    · rw [List.concat_eq_append, ← List.cons_append, ← List.append_assoc] at heq
      obtain ⟨-, ⟨⟩⟩ := List.append_inj' heq rfl
      exact absurd h (hno r (by simp))
  · exact fun hpos => ⟨rs, r, [], rfl, h, hpos, nofun⟩

theorem lastHit_concat_of_not_hit (h : ¬ hit r) :
    LastHit hit positive (rs ++ [r]) ↔ LastHit hit positive rs := by
  constructor
  · rintro ⟨before, s, behind, heq, hs, hpos, hno⟩
    obtain rfl | ⟨behind, t, rfl⟩ := behind.eq_nil_or_concat
    · obtain ⟨-, ⟨⟩⟩ := List.append_inj' heq rfl
      exact absurd hs h
    · rw [List.concat_eq_append, ← List.cons_append, ← List.append_assoc] at heq
      obtain ⟨rfl, -⟩ := List.append_inj' heq rfl
      exact ⟨before, s, behind, rfl, hs, hpos, fun u hu => hno u (by simp [hu])⟩
  · rintro ⟨before, s, behind, rfl, hs, hpos, hno⟩
    refine ⟨before, s, behind ++ [r], by simp, hs, hpos, fun u hu => ?_⟩
    obtain hu | hu := List.mem_append.1 hu
    · exact hno u hu
    · exact List.mem_singleton.1 hu ▸ h

variable (hit positive) in
/-- The last one that hits, or hits only by the `extra` way, is of the second kind, and those before it
decide the other way. -/
def Deviates (extra : ρ → Prop) (rs : List ρ) : Prop :=
  ∃ before r behind, rs = before ++ r :: behind ∧ extra r ∧ (∀ s ∈ behind, ¬ (hit s ∨ extra s)) ∧
    (LastHit hit positive before ↔ ¬ positive r)

variable {extra : ρ → Prop}

theorem deviates_concat_of_extra (h : extra r) :
    Deviates hit positive extra (rs ++ [r]) ↔ (LastHit hit positive rs ↔ ¬ positive r) := by
  constructor
  · rintro ⟨before, s, behind, heq, -, hno, hdecide⟩
    obtain rfl | ⟨behind, t, rfl⟩ := behind.eq_nil_or_concat
    · obtain ⟨rfl, ⟨⟩⟩ := List.append_inj' heq rfl
      exact hdecide
    · rw [List.concat_eq_append, ← List.cons_append, ← List.append_assoc] at heq
      obtain ⟨-, ⟨⟩⟩ := List.append_inj' heq rfl
      exact absurd (.inr h) (hno r (by simp))
  · exact fun hdecide => ⟨rs, r, [], rfl, h, nofun, hdecide⟩

theorem deviates_concat_of_not_extra (h : ¬ extra r) :
    Deviates hit positive extra (rs ++ [r]) ↔ ¬ hit r ∧ Deviates hit positive extra rs := by
  constructor
  · rintro ⟨before, s, behind, heq, hs, hno, hdecide⟩
    obtain rfl | ⟨behind, t, rfl⟩ := behind.eq_nil_or_concat
    · obtain ⟨-, ⟨⟩⟩ := List.append_inj' heq rfl
      exact absurd hs h
    · rw [List.concat_eq_append, ← List.cons_append, ← List.append_assoc] at heq
      obtain ⟨rfl, ⟨⟩⟩ := List.append_inj' heq rfl
      exact ⟨fun hr => hno r (by simp) (.inl hr), before, s, behind, rfl, hs,
        fun u hu => hno u (by simp [hu]), hdecide⟩
  · rintro ⟨hr, before, s, behind, rfl, hs, hno, hdecide⟩
    refine ⟨before, s, behind ++ [r], by simp, hs, fun u hu => ?_, hdecide⟩
    obtain hu | hu := List.mem_append.1 hu
    · exact hno u hu
    · obtain rfl := List.mem_singleton.1 hu
      exact not_or.2 ⟨hr, h⟩

/-- The two readings decide alike exactly when the last one that hits by either does not deviate. -/
theorem lastHit_iff_not_deviates (hextra : ∀ r, extra r → ¬ hit r) :
    (LastHit (fun r => hit r ∨ extra r) positive rs ↔ LastHit hit positive rs) ↔
      ¬ Deviates hit positive extra rs := by
  induction rs using List.reverseRecOn with
  | nil => simp [LastHit, Deviates]
  | append_singleton rs r ih =>
      by_cases hr : hit r
      · have hno : ¬ extra r := fun h => hextra r h hr
        rw [@lastHit_concat_of_hit ρ (fun r => hit r ∨ extra r) positive rs r (.inl hr), lastHit_concat_of_hit hr,
          deviates_concat_of_not_extra hno]
        simp [hr]
      · by_cases he : extra r
        · rw [@lastHit_concat_of_hit ρ (fun r => hit r ∨ extra r) positive rs r (.inr he),
            lastHit_concat_of_not_hit hr, deviates_concat_of_extra he]
          tauto
        · rw [@lastHit_concat_of_not_hit ρ (fun r => hit r ∨ extra r) positive rs r (not_or.2 ⟨hr, he⟩),
            lastHit_concat_of_not_hit hr, deviates_concat_of_not_extra he, ih]
          simp [hr]

end Deciding

section Rules

variable {rules : List Rule} {cs : List Str} {isDir : Bool}

theorem decision_concat (ps : List IgnorePattern) (p : IgnorePattern) (rel : Str) :
    decision (ps ++ [p]) rel isDir = if p.hit rel isDir then !p.negated else decision ps rel isDir := by
  simp [decision, List.foldl_append]

theorem decision_iff (hcs : ∀ c ∈ cs, IsName c) (hne : cs ≠ [])
    (hdirs : ∀ r ∈ rules, ∀ c ∈ r.dir, IsName c) :
    decision (rules.map Rule.toPattern) (joinPath cs) isDir = true ↔
      LastHit (fun r => r.Hits isDir cs ∨ r.Overreaches isDir cs) (·.negated = false) rules := by
  induction rules using List.reverseRecOn with
  | nil => simp [decision, LastHit]
  | append_singleton rules r ih =>
      have hr := @hit_iff r isDir cs hcs hne (hdirs r (by simp))
      have hrest := ih fun s hs => hdirs s (by simp [hs])
      rw [List.map_append, List.map_singleton, decision_concat]
      by_cases hhit : r.toPattern.hit (joinPath cs) isDir = true
      · rw [if_pos hhit, lastHit_concat_of_hit (by exact hr.1 hhit)]
        simp [Rule.toPattern]
      · rw [if_neg hhit, lastHit_concat_of_not_hit (by exact mt hr.2 hhit), hrest]

/-- A rule says that the path is ignored, and no rule of the same or a deeper file that matches comes behind
it, and none of a deeper file before it. -/
def Excluded (rules : List Rule) (cs : List Str) (isDir : Bool) : Prop :=
  ∃ before r behind, rules = before ++ r :: behind ∧ r.Hits isDir cs ∧ r.negated = false ∧
    (∀ s ∈ behind, s.Hits isDir cs → s.dir.length < r.dir.length) ∧
    ∀ s ∈ before, s.Hits isDir cs → s.dir.length ≤ r.dir.length

theorem excluded_iff (hsorted : rules.Pairwise fun r s => r.dir.length ≤ s.dir.length) :
    Excluded rules cs isDir ↔ LastHit (·.Hits isDir cs) (·.negated = false) rules := by
  constructor
  · rintro ⟨before, r, behind, rfl, hr, hpos, hbehind, -⟩
    refine ⟨before, r, behind, rfl, hr, hpos, fun s hs hit => ?_⟩
    have hdeeper := List.rel_of_pairwise_cons (List.pairwise_append.1 hsorted).2.1 hs
    exact absurd (hbehind s hs hit) (Nat.not_lt.2 hdeeper)
  · rintro ⟨before, r, behind, rfl, hr, hpos, hbehind⟩
    refine ⟨before, r, behind, rfl, hr, hpos, fun s hs hit => absurd hit (hbehind s hs), fun s hs _ => ?_⟩
    exact (List.pairwise_append.1 hsorted).2.2 s hs r (List.mem_cons_self ..)

/-- The last rule that the code finds matching overreaches, and the rules before it decide the other
way. -/
def Misled (rules : List Rule) (cs : List Str) (isDir : Bool) : Prop :=
  ∃ before r behind, rules = before ++ r :: behind ∧ r.Overreaches isDir cs ∧
    (∀ s ∈ behind, ¬ (s.Hits isDir cs ∨ s.Overreaches isDir cs)) ∧
    (Excluded before cs isDir ↔ r.negated = true)

theorem decision_iff_excluded (hcs : ∀ c ∈ cs, IsName c) (hne : cs ≠ [])
    (hdirs : ∀ r ∈ rules, ∀ c ∈ r.dir, IsName c)
    (hsorted : rules.Pairwise fun r s => r.dir.length ≤ s.dir.length) :
    (decision (rules.map Rule.toPattern) (joinPath cs) isDir = true ↔ Excluded rules cs isDir) ↔
      ¬ Misled rules cs isDir := by
  rw [decision_iff hcs hne hdirs, excluded_iff hsorted]
  refine (lastHit_iff_not_deviates fun _ (h : Rule.Overreaches _ isDir cs) => h.not_hits).trans ?_
  refine not_congr (exists_congr fun before => exists_congr fun r => exists_congr fun behind => ?_)
  refine and_congr_right fun heq => and_congr_right fun _ => and_congr_right fun _ => ?_
  rw [heq, List.pairwise_append] at hsorted
  rw [excluded_iff hsorted.1]
  simp

end Rules

/-! ## Answers -/

/-- The rules of the files, in their order. -/
def rulesOf (files : List IgnoreFile) : List Rule := files.flatMap fun f => f.lines.filterMap (ruleOf f.dir)

/-- A path is ignored when it or a directory above it is excluded. -/
def Ignored (rules : List Rule) (cs : List Str) (isDir : Bool) : Prop :=
  (∃ n, 0 < n ∧ n < cs.length ∧ Excluded rules (cs.take n) true) ∨ Excluded rules cs isDir

/-- The files as `load_ignore_rules` reads them: from the root down, and of lines as git writes them down. -/
structure Ordered (files : List IgnoreFile) : Prop where
  names : ∀ f ∈ files, ∀ c ∈ f.dir, IsName c
  deeper : files.Pairwise fun f g => f.dir.length ≤ g.dir.length
  plain : ∀ f ∈ files, ∀ line ∈ f.lines, Plain line

theorem ruleOf_dir {dir : List Str} {line : Str} {r : Rule} (h : ruleOf dir line = some r) :
    r.dir = dir := by
  simp only [ruleOf, patternRule] at h
  split_ifs at h <;> exact (Option.some.inj h) ▸ rfl

theorem mem_rulesOf {files : List IgnoreFile} {r : Rule} (h : r ∈ rulesOf files) :
    ∃ f ∈ files, r.dir = f.dir := by
  obtain ⟨f, hf, hr⟩ := List.mem_flatMap.1 h
  obtain ⟨line, -, hline⟩ := List.mem_filterMap.1 hr
  exact ⟨f, hf, ruleOf_dir hline⟩

section Loading

variable {files : List IgnoreFile}

theorem Ordered.rules_sorted (h : Ordered files) :
    (rulesOf files).Pairwise fun r s => r.dir.length ≤ s.dir.length := by
  rw [rulesOf, List.pairwise_flatMap]
  constructor
  · intro f _
    rw [List.pairwise_filterMap]
    refine List.pairwise_of_forall fun _ _ r hr s hs => ?_
    rw [ruleOf_dir hr, ruleOf_dir hs]
  · refine h.deeper.imp fun {f g} hle r hr s hs => ?_
    obtain ⟨_, -, hr⟩ := List.mem_filterMap.1 hr
    obtain ⟨_, -, hs⟩ := List.mem_filterMap.1 hs
    rwa [ruleOf_dir hr, ruleOf_dir hs]

theorem Ordered.rules_names (h : Ordered files) : ∀ r ∈ rulesOf files, ∀ c ∈ r.dir, IsName c := by
  intro r hr
  obtain ⟨f, hf, hdir⟩ := mem_rulesOf hr
  rw [hdir]
  exact h.names f hf

theorem parseIgnoreFile_ok {base : Str} {lines : List Str} {out patterns : List IgnorePattern}
    (h : parseIgnoreFile base lines out = (true, patterns)) :
    patterns = out ++ lines.filterMap (parseIgnoreLine base) := by
  induction lines generalizing out with
  | nil => simpa [parseIgnoreFile] using h.symm
  | cons line lines ih =>
      rw [parseIgnoreFile] at h
      split_ifs at h
      · cases h
      · rw [ih h]
        cases hline : parseIgnoreLine base line <;> simp [hline]

/-- A load that ends within its budget has every pattern of every file. -/
theorem loadFiles_ok {patterns : List IgnorePattern} (h : loadFiles files = (true, patterns)) :
    patterns = files.flatMap fun f => f.lines.filterMap (parseIgnoreLine (joinPath f.dir)) := by
  induction files using List.reverseRecOn generalizing patterns with
  | nil => exact (Prod.mk.inj h).2.symm
  | append_singleton files f ih =>
      rw [loadFiles, List.foldl_append, ← loadFiles] at h
      cases hload : loadFiles files with
      | mk ok before =>
          rw [hload] at h
          simp only [List.foldl_cons, List.foldl_nil] at h
          split_ifs at h with hok
          · subst hok
            rw [parseIgnoreFile_ok h, ih hload]
            simp
          · exact absurd (Prod.mk.inj h).1 hok

theorem Ordered.patterns_eq (h : Ordered files) {patterns : List IgnorePattern}
    (hload : loadFiles files = (true, patterns)) : patterns = (rulesOf files).map Rule.toPattern := by
  rw [loadFiles_ok hload, rulesOf, List.map_flatMap]
  refine List.flatMap_congr fun f hf => ?_
  rw [List.map_filterMap]
  exact List.filterMap_congr fun line hline => (h.plain f hf line hline).parse f.dir

end Loading

section Along

variable {rules : List Rule} {cs : List Str} {isDir : Bool}

/-- Whether the first `n` components are a directory: all but the whole path are. -/
def dirAt (cs : List Str) (isDir : Bool) (n : Nat) : Bool := decide (n < cs.length) || isDir

theorem exists_le_iff {p : Nat → Prop} {n : Nat} (hn : 0 < n) :
    (∃ m, 0 < m ∧ m ≤ n ∧ p m) ↔ (∃ m, 0 < m ∧ m < n ∧ p m) ∨ p n := by
  constructor
  · rintro ⟨m, hm, hle, hp⟩
    obtain hlt | rfl := hle.lt_or_eq
    · exact .inl ⟨m, hm, hlt, hp⟩
    · exact .inr hp
  · rintro (⟨m, hm, hlt, hp⟩ | hp)
    · exact ⟨m, hm, hlt.le, hp⟩
    · exact ⟨n, hn, le_rfl, hp⟩

/-- Two answers by the first step at which one says yes agree along the way when the steps do, up to the
first yes. -/
theorem agree_along_iff {p q : Nat → Prop} {len : Nat} :
    (∀ n, 0 < n → n ≤ len → ((∃ m, 0 < m ∧ m ≤ n ∧ p m) ↔ ∃ m, 0 < m ∧ m ≤ n ∧ q m)) ↔
      ∀ n, 0 < n → n ≤ len → (∀ m, 0 < m → m < n → ¬ q m) → (p n ↔ q n) := by
  constructor
  · intro h n hn hle hno
    have hp : ¬ ∃ m, 0 < m ∧ m < n ∧ p m := by
      rintro ⟨m, hm, hlt, hp⟩
      obtain ⟨k, hk, hkm, hq⟩ := (h m hm (hlt.le.trans hle)).1 ⟨m, hm, le_rfl, hp⟩
      exact hno k hk (hkm.trans_lt hlt) hq
    have hq : ¬ ∃ m, 0 < m ∧ m < n ∧ q m := fun ⟨m, hm, hlt, hq⟩ => hno m hm hlt hq
    have hn := h n hn hle
    rwa [exists_le_iff ‹0 < n›, exists_le_iff ‹0 < n›, or_iff_right hp, or_iff_right hq] at hn
  · intro h n hn hle
    classical
    by_cases hex : ∃ m, 0 < m ∧ m ≤ n ∧ q m
    · refine iff_of_true ?_ hex
      -- At the first yes of `q` the steps agree.
      obtain ⟨hm, hmn, hq⟩ := Nat.find_spec hex
      refine ⟨Nat.find hex, hm, hmn, (h _ hm (hmn.trans hle) fun k hk hlt hqk => ?_).2 hq⟩
      exact Nat.find_min hex hlt ⟨hk, hlt.le.trans hmn, hqk⟩
    · refine iff_of_false ?_ hex
      rintro ⟨m, hm, hmn, hp⟩
      have hno (k : Nat) (hk : 0 < k) (hkm : k ≤ m) : ¬ q k := fun hq => hex ⟨k, hk, hkm.trans hmn, hq⟩
      exact hno m hm le_rfl ((h m hm (hmn.trans hle) fun k hk hlt => hno k hk hlt.le).1 hp)

/-- At no step along the path, up to the first excluded directory, is the code misled. -/
def NeverMisled (rules : List Rule) (cs : List Str) (isDir : Bool) : Prop :=
  ∀ n, 0 < n → n ≤ cs.length → (∀ m, 0 < m → m < n → ¬ Excluded rules (cs.take m) (dirAt cs isDir m)) →
    ¬ Misled rules (cs.take n) (dirAt cs isDir n)

theorem dirAt_of_lt {n : Nat} (h : n < cs.length) : dirAt cs isDir n = true := by simp [dirAt, h]

theorem dirAt_length : dirAt cs isDir cs.length = isDir := by simp [dirAt]

theorem isIgnored_take (hcs : ∀ c ∈ cs, IsName c) (patterns : List IgnorePattern) {n : Nat} (hn : 0 < n)
    (hle : n ≤ cs.length) :
    isIgnored patterns (joinPath (cs.take n)) (dirAt cs isDir n) = true ↔
      ∃ m, 0 < m ∧ m ≤ n ∧ decision patterns (joinPath (cs.take m)) (dirAt cs isDir m) = true := by
  have hlen : (cs.take n).length = n := by
    rw [List.length_take, Nat.min_eq_left hle]
  have hne : cs.take n ≠ [] := List.ne_nil_of_length_pos (by omega)
  have hparts := components_joinPath hne fun c hc => hcs c (List.mem_of_mem_take hc)
  rw [exists_le_iff hn, isIgnored, hparts, hlen, Bool.or_eq_true, List.any_eq_true]
  refine or_congr_left (exists_congr fun m => ?_)
  rw [List.mem_range'_1, List.take_take]
  constructor
  · rintro ⟨⟨hm, hlt⟩, hdecide⟩
    rw [Nat.min_eq_left (by omega)] at hdecide
    exact ⟨by omega, by omega, by rwa [dirAt_of_lt (by omega)]⟩
  · rintro ⟨hm, hlt, hdecide⟩
    rw [dirAt_of_lt (by omega)] at hdecide
    exact ⟨⟨by omega, by omega⟩, by rwa [Nat.min_eq_left (by omega)]⟩

theorem ignored_take {n : Nat} (hn : 0 < n) (hle : n ≤ cs.length) :
    Ignored rules (cs.take n) (dirAt cs isDir n) ↔
      ∃ m, 0 < m ∧ m ≤ n ∧ Excluded rules (cs.take m) (dirAt cs isDir m) := by
  rw [exists_le_iff hn, Ignored, List.length_take, Nat.min_eq_left hle]
  refine or_congr_left (exists_congr fun m => and_congr_right fun _ => and_congr_right fun hlt => ?_)
  rw [List.take_take, Nat.min_eq_left (by omega), dirAt_of_lt (by omega)]

end Along

/-- A file with a pattern that has no slash. -/
def logFiles : List IgnoreFile := [⟨[], ["*.log".toList]⟩]

section Keep

def build : Str := "build".toList
def keep : Str := "keep".toList

/-- One file at the root: everything inside `build` but `build/keep`. -/
def keepFiles : List IgnoreFile := [⟨[], ["build/**".toList, "!build/keep".toList]⟩]

def insideRule : Rule := ⟨[], "build/**".toList, false, false, true, by simp⟩
def keepRule : Rule := ⟨[], "build/keep".toList, true, false, true, by simp⟩

theorem rulesOf_keepFiles : rulesOf keepFiles = [insideRule, keepRule] := rfl

theorem keepFiles_ordered : Ordered keepFiles where
  names := by simp [keepFiles]
  deeper := by simp [keepFiles]
  plain := by
    simp only [keepFiles, List.mem_singleton, forall_eq]
    intro line hline
    fin_cases hline <;> exact ⟨by decide, by decide, by decide⟩

theorem names_build_keep : ∀ c ∈ [build, keep], IsName c := by
  simp only [IsName]
  decide

theorem insideRule_parts : insideRule.body.splitOn '/' = [build, doubleStar] := by decide

theorem keepRule_parts : keepRule.body.splitOn '/' = [build, keep] := by decide

theorem matches_literal (name : Str) (h : globMatchSegment name name = true) :
    Matches (segmentItems name) name := (globMatchSegment_iff _ _).1 h

theorem matches_build : Matches (segmentItems build) build :=
  matches_literal build (by simp [globMatchSegment, greedy, segmentLook, build])

theorem matches_keep : Matches (segmentItems keep) keep :=
  matches_literal keep (by simp [globMatchSegment, greedy, segmentLook, keep])

theorem not_pathMatches_inside : ¬ PathMatches [build, doubleStar] [build] := by
  intro h
  obtain _ | ⟨-, -, hrest⟩ := h
  cases hrest with
  | none hps _ => exact hps rfl

theorem insideRule_not_hits : ¬ insideRule.Hits true [build] := by
  rintro ⟨-, us, -, heq, hmatch⟩
  obtain rfl : [build] = us := heq
  have hanchored : insideRule.anchored = true := rfl
  rw [if_pos hanchored, insideRule_parts] at hmatch
  exact not_pathMatches_inside hmatch

theorem insideRule_overreaches : insideRule.Overreaches true [build] := by
  refine ⟨nofun, rfl, [build], by simp, rfl, ⟨[build], insideRule_parts, ?_⟩, ?_⟩
  · rw [pathItems_one (by decide)]
    exact .one ((globMatchSegment_iff _ _).2 matches_build) .nil
  · rw [insideRule_parts]
    exact not_pathMatches_inside

theorem keepRule_not_match : ¬ Matches (pathItems [build, keep]) [build] := by
  rw [pathItems_one (by decide), matches_one_cons, pathItems_one (by decide)]
  rintro ⟨-, hrest⟩
  cases hrest

/-- `build/keep` says nothing about `build`, in either reading. -/
theorem keepRule_silent : ¬ (keepRule.Hits true [build] ∨ keepRule.Overreaches true [build]) := by
  rintro (⟨-, us, -, heq, hmatch⟩ | ⟨-, -, us, -, heq, hends, -⟩)
  · obtain rfl : [build] = us := heq
    have hanchored : keepRule.anchored = true := rfl
    rw [if_pos hanchored, keepRule_parts] at hmatch
    exact keepRule_not_match hmatch.matches_items
  · obtain rfl : [build] = us := heq
    rw [keepRule_parts] at hends
    exact keepRule_not_match ((globMatchPath_iff _ _).1 (globMatchPath_eq.2 (.inr hends)))

theorem keepRule_hits : keepRule.Hits false [build, keep] := by
  refine ⟨nofun, [build, keep], by simp, rfl, ?_⟩
  have hanchored : keepRule.anchored = true := rfl
  rw [if_pos hanchored, keepRule_parts]
  exact .one (by decide) matches_build (.one (by decide) matches_keep .nil)

/-- Git goes into `build`, where the later rule takes `build/keep` back in. -/
theorem not_ignored_keep : ¬ Ignored (rulesOf keepFiles) [build, keep] false := by
  have hsorted := keepFiles_ordered.rules_sorted
  rintro (⟨n, hn, hlt, hexcluded⟩ | hexcluded)
  · obtain rfl : n = 1 := by
      rw [List.length_cons, List.length_singleton] at hlt
      omega
    obtain ⟨before, r, behind, heq, hr, -⟩ := hexcluded
    have hmem : r ∈ rulesOf keepFiles := heq ▸ by simp
    rw [rulesOf_keepFiles] at hmem
    fin_cases hmem
    · exact insideRule_not_hits hr
    · exact keepRule_silent (.inl hr)
  · rw [excluded_iff hsorted, rulesOf_keepFiles] at hexcluded
    have hkeep : keepRule.negated = false := (@lastHit_concat_of_hit Rule (·.Hits false [build, keep])
      (·.negated = false) [insideRule] keepRule keepRule_hits).1 hexcluded
    cases hkeep

end Keep

end Tethra.Ignore
