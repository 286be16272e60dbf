import Tethra.Lib.Text

set_option autoImplicit false

/-! # The lossless `.env` document (`core/src/envfile.rs`)

A `.env` file is parsed line by line into blanks, comments, `KEY=value` entries and malformed lines;
edits touch single entries, and rendering emits every line that was not edited verbatim. Parsing is
purely textual. `SecretString` only redacts what is displayed and is a plain text here. -/

namespace Tethra.Core.EnvFile

open Text

/-- `GATEWAY_MARKER_TAG`: the substring that makes a comment line an ownership marker. -/
def gatewayMarkerTag : List Char := "tethra-gateway".toList

inductive Newline where
  | lf
  | crLf
  deriving DecidableEq, Repr

def Newline.asStr : Newline → List Char
  | .lf => ['\n']
  | .crLf => ['\r', '\n']

inductive Quoting where
  | bare
  | single
  | double
  deriving DecidableEq, Repr

/-- One `KEY=value` entry. `raw` is the source line, regenerated whenever the value is replaced;
    `exported` is the `export ` prefix; `line` is 0 for added entries. -/
structure EnvEntry where
  key : List Char
  value : List Char
  quoting : Quoting
  exported : Bool
  inlineComment : Option (List Char)
  raw : List Char
  line : Nat
  deriving DecidableEq, Repr

inductive EnvLine where
  | blank (raw : List Char)
  | comment (raw : List Char)
  | entry (e : EnvEntry)
  | malformed (raw : List Char) (line : Nat) (reason : List Char)
  deriving DecidableEq, Repr

structure EnvDocument where
  lines : List EnvLine
  newline : Newline
  trailingNewline : Bool
  deriving DecidableEq, Repr

/-! ## Values -/

def validKey : List Char → Bool
  | [] => false
  | c :: cs =>
      (isAsciiAlphabetic c || c == '_') && (c :: cs).all fun d => isAsciiAlphanumeric d || d == '_'

/-- Decode a double-quoted value's escapes; unknown escapes are kept with their backslash. -/
def decodeDouble : List Char → List Char
  | [] => []
  | '\\' :: [] => ['\\']
  | '\\' :: 'n' :: cs => '\n' :: decodeDouble cs
  | '\\' :: 'r' :: cs => '\r' :: decodeDouble cs
  | '\\' :: 't' :: cs => '\t' :: decodeDouble cs
  | '\\' :: '"' :: cs => '"' :: decodeDouble cs
  | '\\' :: '\\' :: cs => '\\' :: decodeDouble cs
  | '\\' :: c :: cs => '\\' :: c :: decodeDouble cs
  | c :: cs => c :: decodeDouble cs

def encodeDoubleChar (c : Char) : List Char :=
  if c = '"' then ['\\', '"']
  else if c = '\\' then ['\\', '\\']
  else if c = '\n' then ['\\', 'n']
  else if c = '\r' then ['\\', 'r']
  else if c = '\t' then ['\\', 't']
  else [c]

def encodeDouble (value : List Char) : List Char := value.flatMap encodeDoubleChar

/-- `Quoting::Single` can carry the value: no single quote, no control character. -/
def fitsSingle (value : List Char) : Bool :=
  !value.contains '\'' && !value.any isControl

/-- `Quoting::Bare` can carry the value. -/
def fitsBare (value : List Char) : Bool :=
  !value.isEmpty && !(value.head? == some '\'') &&
    !(value.any fun c => isWhitespace c || c == '#' || c == '"' || isControl c) &&
    trim value == value

def renderValue (quoting : Quoting) (value : List Char) : List Char :=
  match quoting with
  | .single =>
      if fitsSingle value then '\'' :: value ++ ['\'']
      else '"' :: encodeDouble value ++ ['"']
  | .bare => if fitsBare value then value else '"' :: encodeDouble value ++ ['"']
  | .double => '"' :: encodeDouble value ++ ['"']

def renderComment : Option (List Char) → List Char
  | some comment => ' ' :: comment
  | none => []

/-- Render an entry to a source line. -/
def renderEntry (e : EnvEntry) : List Char :=
  (if e.exported then "export ".toList else []) ++ e.key ++ '=' ::
    (renderValue e.quoting e.value ++ renderComment e.inlineComment)

/-- `EnvEntry::new`. -/
def EnvEntry.new (key value : List Char) : EnvEntry :=
  let e : EnvEntry :=
    { key, value, quoting := .bare, exported := false, inlineComment := none, raw := [], line := 0 }
  { e with raw := renderEntry e }

/-- Replace the value, keeping quoting style, `export` prefix and inline comment. -/
def EnvEntry.setValue (e : EnvEntry) (value : List Char) : EnvEntry :=
  { e with value, raw := renderEntry { e with value } }

/-! ## Parsing -/

def parseTailComment (tail : List Char) : Except (List Char) (Option (List Char)) :=
  match tail with
  | [] => .ok none
  | '#' :: _ => .ok (some tail)
  | _ => .error "unexpected content after closing quote".toList

/-- Cut at the closing unescaped double quote (`find_closing_double`); the flag says that the
    previous character was a backslash. -/
def findClosingDouble : Bool → List Char → Option (List Char × List Char)
  | _, [] => none
  | true, c :: cs => (findClosingDouble false cs).map fun r => (c :: r.1, r.2)
  | false, c :: cs =>
      if c = '"' then some ([], cs)
      else (findClosingDouble (c == '\\') cs).map fun r => (c :: r.1, r.2)

/-- Cut a bare value at its inline comment: a `#` at the start or after ASCII whitespace. The flag
    says whether a `#` here would open one. -/
def cutInlineComment : Bool → List Char → List Char × Option (List Char)
  | _, [] => ([], none)
  | opens, c :: cs =>
      if opens && c == '#' then ([], some (trimEnd (c :: cs)))
      else
        let r := cutInlineComment (isAsciiWhitespace c) cs
        (c :: r.1, r.2)

/-- The part after `=`: value, quoting and inline comment. -/
def parseValue (valuePart : List Char) :
    Except (List Char) (List Char × Quoting × Option (List Char)) :=
  match trimStart valuePart with
  | '\'' :: after =>
      match splitOnce '\'' after with
      | none => .error "unterminated single quote".toList
      | some (value, tail) => (parseTailComment (trim tail)).map fun c => (value, .single, c)
  | '"' :: after =>
      match findClosingDouble false after with
      | none => .error "unterminated double quote".toList
      | some (value, tail) =>
          (parseTailComment (trim tail)).map fun c => (decodeDouble value, .double, c)
  | bare =>
      let r := cutInlineComment true bare
      .ok (trim r.1, .bare, r.2)

/-- Strip the `export ` prefix of a line whose leading whitespace is gone. -/
def stripExport (trimmed : List Char) : Bool × List Char :=
  match stripPrefix "export ".toList trimmed with
  | some rest => (true, trimStart rest)
  | none => (false, trimmed)

/-- Parse `KEY=value`, what `parse_entry` does once the `export ` prefix is gone. -/
def parseAssignment (exported : Bool) (rest line : List Char) (lineNo : Nat) :
    Except (List Char) EnvEntry :=
  match splitOnce '=' rest with
  | none => .error "no '=' found".toList
  | some (before, valuePart) =>
      let key := trimEnd before
      if validKey key then
        (parseValue valuePart).map fun (value, quoting, inlineComment) =>
          { key, value, quoting, exported, inlineComment, raw := line, line := lineNo }
      else .error ("'".toList ++ key ++ "' is not a valid variable name".toList)

/-- Parse a single line that is neither blank nor a comment. -/
def parseEntry (line : List Char) (lineNo : Nat) : Except (List Char) EnvEntry :=
  let (exported, rest) := stripExport (trimStart line)
  parseAssignment exported rest line lineNo

/-- Classify one line, its ending removed. -/
def parseLine (line : List Char) (lineNo : Nat) : EnvLine :=
  match trim line with
  | [] => .blank line
  | '#' :: _ => .comment line
  | _ =>
      match parseEntry line lineNo with
      | .ok e => .entry e
      | .error reason => .malformed line lineNo reason

/-- How often a line feed follows a carriage return. -/
def countCrLf : List Char → Nat
  | [] => 0
  | c :: cs => (if c = '\r' ∧ cs.head? = some '\n' then 1 else 0) + countCrLf cs

/-- The dominant line ending. -/
def dominantNewline (content : List Char) : Newline :=
  if 0 < countCrLf content ∧ content.count '\n' ≤ countCrLf content * 2 then .crLf else .lf

/-- The pieces between line feeds; the empty piece after a final line feed is not a line. -/
def fragments (content : List Char) : List (List Char) :=
  let all := content.splitOn '\n'
  if (content.isEmpty || content.getLast? == some '\n') && all.getLast? == some [] then all.dropLast
  else all

/-- `EnvDocument::parse`. -/
def EnvDocument.parse (content : List Char) : EnvDocument where
  lines := (fragments content).mapIdx fun idx rawLine => parseLine (stripCr rawLine) (idx + 1)
  newline := dominantNewline content
  trailingNewline := content.isEmpty || content.getLast? == some '\n'

/-! ## Rendering -/

def EnvLine.raw : EnvLine → List Char
  | .blank raw => raw
  | .comment raw => raw
  | .entry e => e.raw
  | .malformed raw _ _ => raw

/-- `EnvDocument::render`: unmodified lines are emitted verbatim. -/
def EnvDocument.render (doc : EnvDocument) : List Char :=
  doc.newline.asStr.intercalate (doc.lines.map EnvLine.raw) ++
    if doc.trailingNewline && !doc.lines.isEmpty then doc.newline.asStr else []

/-! ## Reading and editing entries -/

def EnvLine.asEntry : EnvLine → Option EnvEntry
  | .entry e => some e
  | _ => none

def EnvDocument.entries (doc : EnvDocument) : List EnvEntry := doc.lines.filterMap EnvLine.asEntry

/-- The entry for `key`: the last occurrence wins. -/
def EnvDocument.get (doc : EnvDocument) (key : List Char) : Option EnvEntry :=
  (doc.entries.filter (·.key = key)).getLast?

/-- Whether a line is an occurrence of `key`. -/
def EnvLine.isEntryFor (key : List Char) : EnvLine → Bool
  | .entry e => e.key = key
  | _ => false

/-- Whether a line is a comment that carries the ownership tag. -/
def EnvLine.isMarker : EnvLine → Bool
  | .comment raw => gatewayMarkerTag <:+: raw
  | _ => false

/-- Replace the value of a line that is an occurrence of `key`. -/
def EnvLine.setValueFor (key value : List Char) : EnvLine → EnvLine
  | .entry e => if e.key = key then .entry (e.setValue value) else .entry e
  | l => l

/-- Set `key` to `value`: every existing occurrence, or a new entry at the end. -/
def EnvDocument.set (doc : EnvDocument) (key value : List Char) : EnvDocument :=
  if doc.lines.any (EnvLine.isEntryFor key) then
    { doc with lines := doc.lines.map (EnvLine.setValueFor key value) }
  else { doc with lines := doc.lines ++ [.entry (EnvEntry.new key value)] }

/-- Give the occurrences of `key` the values in order; occurrences beyond `values` keep getting
    `last`. -/
def assignOccurrences (key last : List Char) : List (List Char) → List EnvLine → List EnvLine
  | _, [] => []
  | values, l :: ls =>
      if l.isEntryFor key then
        l.setValueFor key (values.headD last) :: assignOccurrences key last values.tail ls
      else l :: assignOccurrences key last values ls

/-- Restore each occurrence of `key` to its own recorded value, in file order. -/
def EnvDocument.setEachOccurrence (doc : EnvDocument) (key : List Char)
    (values : List (List Char)) : EnvDocument :=
  match values.getLast? with
  | none => doc
  | some last => { doc with lines := assignOccurrences key last values doc.lines }

/-- The lines before the first occurrence of `key` (all lines, when there is none). -/
def linesBefore (key : List Char) (lines : List EnvLine) : List EnvLine :=
  lines.takeWhile fun l => !l.isEntryFor key

/-- The lines from the first occurrence of `key` on. -/
def linesFrom (key : List Char) (lines : List EnvLine) : List EnvLine :=
  lines.dropWhile fun l => !l.isEntryFor key

/-- The comment line `set_with_comment` places. -/
def renderMarker (comment : List Char) : List Char :=
  if (trimStart comment).head? = some '#' then comment else '#' :: ' ' :: comment

/-- Keep exactly one marker directly above the first occurrence of `key`: an identical one stays, a
    stale one is replaced, anything else above is kept. -/
def placeMarker (key rendered : List Char) (lines : List EnvLine) : List EnvLine :=
  let before := linesBefore key lines
  match before.getLast? with
  | some (.comment existing) =>
      if trim existing = trim rendered then lines
      else if gatewayMarkerTag <:+: existing then
        before.dropLast ++ .comment rendered :: linesFrom key lines
      else before ++ .comment rendered :: linesFrom key lines
  | _ => before ++ .comment rendered :: linesFrom key lines

/-- Set `key` to `value` with one ownership marker above its first occurrence. -/
def EnvDocument.setWithComment (doc : EnvDocument) (key value comment : List Char) : EnvDocument :=
  let doc := doc.set key value
  { doc with lines := placeMarker key (renderMarker comment) doc.lines }

/-- Drop a marker that ends the list. -/
def dropMarker (before : List EnvLine) : List EnvLine :=
  match before.getLast? with
  | some l => if l.isMarker then before.dropLast else before
  | none => before

/-- The loop of `remove_with_comment`: `before` holds no occurrence of `key`, so the next one is the
    first of the rest. -/
def removeLoop (key : List Char) : List EnvLine → List EnvLine → List EnvLine
  | before, [] => before
  | before, l :: ls =>
      if l.isEntryFor key then removeLoop key (dropMarker before) ls
      else removeLoop key (before ++ [l]) ls

/-- Remove every occurrence of `key` and any marker directly above one. -/
def EnvDocument.removeWithComment (doc : EnvDocument) (key : List Char) : EnvDocument :=
  { doc with lines := removeLoop key [] doc.lines }

/-- Remove the marker directly above the first occurrence of `key`; the flag says whether there was
    one. -/
def EnvDocument.removeMarkerAbove (doc : EnvDocument) (key : List Char) : EnvDocument × Bool :=
  if doc.lines.any (EnvLine.isEntryFor key) then
    let before := linesBefore key doc.lines
    ({ doc with lines := dropMarker before ++ linesFrom key doc.lines },
      before.getLast?.any EnvLine.isMarker)
  else (doc, false)

/-- The values of the occurrences of `key`, in file order. -/
def EnvDocument.values (doc : EnvDocument) (key : List Char) : List (List Char) :=
  (doc.entries.filter (·.key = key)).map EnvEntry.value

end Tethra.Core.EnvFile
