import Tethra.Core.Error
import Tethra.Lib.Wildcard

set_option autoImplicit false

/-! # Ignore rules (`core/src/gitsafe.rs`)

The patterns of `.gitignore` files and the answer of `is_ignored`, as the code computes them. What the two
glob matchers decide is said by the items of a pattern (`globMatchSegment_iff`, `globMatchPath_iff`). -/

namespace Tethra.Ignore

open Wildcard

/-! ## Components -/

/-- The body of a `[...]` class; the number counts the characters read. -/
def classLoop (c : Char) (matched first : Bool) (read : Nat) : Str → Option (Bool × Nat)
  | [] => none
  | ch :: rest =>
      if ch = ']' ∧ first = false then some (matched, read + 1)
      else
        match rest with
        | '-' :: hi :: behind =>
            if hi ≠ ']' then
              classLoop c (matched || (decide (ch ≤ c) && decide (c ≤ hi))) false (read + 3) behind
            else classLoop c (matched || ch == c) false (read + 1) ('-' :: hi :: behind)
        | rest => classLoop c (matched || ch == c) false (read + 1) rest

/-- `match_class`, on the pattern behind the bracket; `none` when the class is unterminated. -/
def matchClass (pattern : Str) (c : Char) : Option (Bool × Nat) :=
  let negate := pattern.head? = some '!' ∨ pattern.head? = some '^'
  if negate then (classLoop c false true 1 pattern.tail).map fun (matched, read) => (!matched, read)
  else classLoop c false true 0 pattern

/-- What `glob_match_segment` does at a pattern position. -/
def segmentLook : Str → Char → Look
  | '*' :: _, _ => .star
  | '?' :: _, _ => .step 0
  | '[' :: p, x =>
      match matchClass p x with
      | some (matched, read) => if matched then .step read else .stuck
      -- An unterminated bracket is a literal.
      | none => if '[' = x then .step 0 else .stuck
  | '\\' :: c :: _, x => if c = x then .step 1 else .stuck
  | c :: _, x => if c = x then .step 0 else .stuck
  | [], _ => .stuck

def globMatchSegment (pattern text : Str) : Bool := greedy (· == '*') segmentLook pattern text none

/-! ## Paths -/

def doubleStar : Str := ['*', '*']

def pathLook : List Str → Str → Look
  | [], _ => .stuck
  | p :: _, component =>
      if p = doubleStar then .star else if globMatchSegment p component then .step 0 else .stuck

def globMatchPath (pattern text : List Str) : Bool := greedy (· == doubleStar) pathLook pattern text none

/-! ## Files -/

def maxIgnorePatterns : Nat := 20000

structure IgnorePattern where
  base : Str
  body : Str
  negated : Bool
  dirOnly : Bool
  anchored : Bool
  deriving DecidableEq, Repr

/-- `trim_trailing_unescaped_spaces`, on the characters from the end. -/
def trimBackwards : Str → Str
  | [] => []
  | c :: rest =>
      if c = ' ' ∨ c = '\t' then
        if (rest.takeWhile (· == '\\')).length % 2 = 1 then c :: rest else trimBackwards rest
      else c :: rest

def trimTrailingUnescapedSpaces (s : Str) : Str := (trimBackwards s.reverse).reverse

def stripSuffixChar (c : Char) (s : Str) : Str := if s.getLast? = some c then s.dropLast else s

def stripPrefixChar (c : Char) (s : Str) : Str := if s.head? = some c then s.tail else s

/-- One line of `parse_ignore_file`. -/
def parseIgnoreLine (base raw : Str) : Option IgnorePattern :=
  let line := trimTrailingUnescapedSpaces (stripSuffixChar '\r' raw)
  if line = [] then none
  else if line.head? = some '#' then none
  else
    let negated : Bool := decide (line.head? = some '!')
    let rest := if negated then line.tail else (Text.stripPrefix ['\\', '!'] line).getD line
    if rest = [] then none
    else
      let dirOnly : Bool := decide (rest.getLast? = some '/')
      let rest := stripSuffixChar '/' rest
      if rest = [] then none
      else
        let body := stripPrefixChar '/' rest
        if body = [] then none
        else some ⟨base, body, negated, dirOnly, decide ('/' ∈ rest)⟩

/-- The lines of one file; false when the budget of patterns cut it short. -/
def parseIgnoreFile (base : Str) : List Str → List IgnorePattern → Bool × List IgnorePattern
  | [], out => (true, out)
  | raw :: lines, out =>
      if maxIgnorePatterns ≤ out.length then (false, out)
      else parseIgnoreFile base lines (out ++ (parseIgnoreLine base raw).toList)

/-- A file of ignore lines and the directory it is in. -/
structure IgnoreFile where
  dir : List Str
  lines : List Str
  deriving DecidableEq, Repr

def joinPath (components : List Str) : Str := ['/'].intercalate components

/-- The loop of `load_ignore_rules` over the files that are there: after the budget is spent no other file
is parsed. -/
def loadFiles (files : List IgnoreFile) : Bool × List IgnorePattern :=
  files.foldl (fun (ok, patterns) f =>
    if ok then parseIgnoreFile (joinPath f.dir) f.lines patterns else (ok, patterns)) (true, [])

/-! ## Answers -/

def components (path : Str) : List Str := (path.splitOn '/').filter (· ≠ [])

def stripBase (rel base : Str) : Option Str :=
  if base = [] then some rel else (Text.stripPrefix base rel).bind (Text.stripPrefix ['/'])

/-- Whether a pattern says something about a path: the body of the loop in `matches`. -/
def IgnorePattern.hit (pattern : IgnorePattern) (rel : Str) (isDir : Bool) : Bool :=
  if pattern.dirOnly && !isDir then false
  else
    match stripBase rel pattern.base with
    | none => false
    | some under =>
        let pathParts := components under
        if pathParts = [] then false
        else
          let patParts := pattern.body.splitOn '/'
          if pattern.anchored then globMatchPath patParts pathParts
          else (List.range pathParts.length).any fun start => globMatchPath patParts (pathParts.drop start)

/-- `matches`: the last pattern that hits decides. -/
def decision (patterns : List IgnorePattern) (rel : Str) (isDir : Bool) : Bool :=
  patterns.foldl (fun ignored p => if p.hit rel isDir then !p.negated else ignored) false

def isIgnored (patterns : List IgnorePattern) (rel : Str) (isDir : Bool) : Bool :=
  let parts := components rel
  (List.range' 1 (parts.length - 1)).any
      (fun depth => decision patterns (joinPath (parts.take depth)) true) ||
    decision patterns rel isDir

end Tethra.Ignore
