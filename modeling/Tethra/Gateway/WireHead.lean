import Tethra.Gateway.Head

set_option autoImplicit false

/-! # Heads on the wire

How a strict recipient reads a head: lines that end in CRLF up to a blank line, each a token, a colon
and a value without the blanks around it; and how it decides where the body ends. -/

namespace Tethra.Gateway

open Observe (asciiLower)

/-- A field as a recipient sees it. -/
structure WireField where
  name : Bytes
  value : Bytes
  deriving DecidableEq

/-- Field names are compared without case. -/
def WireField.lower (f : WireField) : Option Str := (fromUtf8 f.name).map asciiLower

def trimBlanks (value : Bytes) : Bytes := (value.dropWhile isBlank).rdropWhile isBlank

/-- The first line, and what is behind its CRLF. -/
def nextLine : Bytes → Option (Bytes × Bytes)
  | b :: c :: rest =>
      if b = cr ∧ c = lf then some ([], rest)
      else (nextLine (c :: rest)).map fun p => (b :: p.1, p.2)
  | _ => none

def colon : UInt8 := 0x3a

def readField (line : Bytes) : Option WireField :=
  match line.dropWhile (· ≠ colon) with
  | [] => none
  | _ :: value =>
      let name := line.takeWhile (· ≠ colon)
      if name ≠ [] ∧ name.all isTokenByte then some ⟨name, trimBlanks value⟩ else none

/-- The fields up to the blank line, of at most `n` lines, and what is behind it. -/
def readFields : Nat → Bytes → Option (List WireField × Bytes)
  | 0, _ => none
  | n + 1, bytes =>
      match nextLine bytes with
      | none => none
      | some (line, rest) =>
          if line = [] then some ([], rest)
          else do
            let f ← readField line
            let (fields, body) ← readFields n rest
            return (f :: fields, body)

/-- The start line, the fields, and the bytes from which the body is read. -/
def readHead (bytes : Bytes) : Option (Bytes × List WireField × Bytes) := do
  let (start, rest) ← nextLine bytes
  let (fields, body) ← readFields (rest.length + 1) rest
  return (start, fields, body)

def decimal (value : Bytes) : Option Nat := do
  let digits ← fromUtf8 value
  if digits ≠ [] ∧ digits.all Char.isDigit then some (Nat.ofDigitChars 10 digits 0) else none

/-- The values of the fields with a name. -/
def valuesOf (name : String) (fields : List WireField) : List Bytes :=
  (fields.filter fun f => f.lower = some name.toList).map WireField.value

/-- Where the body of a request ends; anything ambiguous is refused. -/
def wireFraming (fields : List WireField) : Option BodyFraming :=
  match valuesOf "transfer-encoding" fields, valuesOf "content-length" fields with
  | [], [] => some .none
  | [], [value] => (decimal value).map .contentLength
  | [value], [] => if value = wire "chunked" then some .chunked else none
  | _, _ => none

/-! ## What is read back -/

theorem nextLine_append {line : Bytes} (hline : cr ∉ line) (more : Bytes) :
    nextLine (line ++ crlf ++ more) = some (line, more) := by
  induction line with
  | nil => simp [nextLine, crlf]
  | cons b line ih =>
      have hb : b ≠ cr := fun h => hline (h ▸ List.mem_cons_self ..)
      have htail := ih fun h => hline (List.mem_cons_of_mem _ h)
      cases hrest : line ++ crlf ++ more with
      | nil => simp [crlf] at hrest
      | cons c rest =>
          rw [hrest] at htail
          show nextLine (b :: (line ++ crlf ++ more)) = _
          rw [hrest, nextLine, if_neg (fun h => hb h.1), htail]
          rfl

theorem colon_not_token : isTokenByte colon = false := by decide

/-- A name and a value behind a colon and a blank are read as they are, less the blanks around. -/
theorem readField_line {name value : Bytes} (hname : name ≠ []) (htoken : name.all isTokenByte) :
    readField (name ++ wire ": " ++ value) = some ⟨name, trimBlanks value⟩ := by
  have hcolon : ∀ b ∈ name, (decide (b ≠ colon)) = true := by
    intro b hb
    refine decide_eq_true ?_
    rintro rfl
    have := List.all_eq_true.1 htoken _ hb
    rw [colon_not_token] at this
    cases this
  have hwire : wire ": " = [colon, 32] := by decide
  have htake : (name ++ wire ": " ++ value).takeWhile (· ≠ colon) = name := by
    rw [hwire, List.append_assoc, List.takeWhile_append_of_pos hcolon]
    simp
  have hdrop : (name ++ wire ": " ++ value).dropWhile (· ≠ colon) = colon :: 32 :: value := by
    rw [hwire, List.append_assoc, List.dropWhile_append_of_pos hcolon]
    simp
  unfold readField
  rw [hdrop, htake]
  simp only [hname, htoken, ne_eq, not_false_eq_true, and_self, if_true]
  rfl

/-- A field that can be written on a line. -/
structure WireField.Plain (f : WireField) : Prop where
  named : f.name ≠ []
  token : f.name.all isTokenByte = true
  clean : f.value.any isBreak = false

def WireField.line (f : WireField) : Bytes := fieldLine f.name f.value

def WireField.trimmed (f : WireField) : WireField := ⟨f.name, trimBlanks f.value⟩

theorem cr_not_token : isTokenByte cr = false := by decide

theorem WireField.Plain.cr_notMem {f : WireField} (h : f.Plain) :
    cr ∉ f.name ++ wire ": " ++ f.value := by
  have hwire : cr ∉ wire ": " := by decide
  intro hmem
  rcases List.mem_append.1 hmem with hmem | hmem
  · rcases List.mem_append.1 hmem with hmem | hmem
    · have := List.all_eq_true.1 h.token _ hmem
      rw [cr_not_token] at this
      cases this
    · exact hwire hmem
  · have := List.any_eq_false.1 h.clean _ hmem
    simp [isBreak] at this

theorem readFields_lines {fields : List WireField} (h : ∀ f ∈ fields, f.Plain) {n : Nat}
    (hn : fields.length < n) (body : Bytes) :
    readFields n (fields.flatMap WireField.line ++ crlf ++ body)
      = some (fields.map WireField.trimmed, body) := by
  induction fields generalizing n with
  | nil =>
      obtain ⟨n, rfl⟩ := Nat.exists_eq_succ_of_ne_zero (Nat.pos_iff_ne_zero.1 hn)
      have hline : nextLine (crlf ++ body) = some ([], body) :=
        @nextLine_append [] List.not_mem_nil body
      simp [readFields, hline]
  | cons f fields ih =>
      obtain ⟨n, rfl⟩ := Nat.exists_eq_succ_of_ne_zero (Nat.ne_zero_of_lt hn)
      have hf := h f (List.mem_cons_self ..)
      have htail := @ih (fun g hg => h g (List.mem_cons_of_mem _ hg)) n
        (by simp only [List.length_cons] at hn; omega)
      have hline : nextLine ((f :: fields).flatMap WireField.line ++ crlf ++ body)
          = some (f.name ++ wire ": " ++ f.value,
              fields.flatMap WireField.line ++ crlf ++ body) := by
        rw [← nextLine_append hf.cr_notMem]
        simp [WireField.line, fieldLine]
      have hne : f.name ++ wire ": " ++ f.value ≠ [] := by simp [hf.named]
      unfold readFields
      rw [hline]
      simp only [if_neg hne, readField_line hf.named hf.token, htail]
      rfl

theorem length_le_lines (fields : List WireField) :
    fields.length ≤ (fields.flatMap WireField.line).length := by
  induction fields with
  | nil => simp
  | cons f fields ih =>
      rw [List.flatMap_cons, List.length_append, List.length_cons]
      have hline : 0 < f.line.length := by simp [WireField.line, fieldLine, crlf]
      omega

/-- A head that is written line by line is read back, with the bytes behind it. -/
theorem readHead_lines {start : Bytes} (hstart : cr ∉ start) {fields : List WireField}
    (h : ∀ f ∈ fields, f.Plain) (body : Bytes) :
    readHead (start ++ crlf ++ (fields.flatMap WireField.line ++ crlf) ++ body)
      = some (start, fields.map WireField.trimmed, body) := by
  have hlen : fields.length < (fields.flatMap WireField.line ++ crlf ++ body).length + 1 := by
    have hle := length_le_lines fields
    simp only [List.length_append]
    omega
  have hline : nextLine (start ++ crlf ++ (fields.flatMap WireField.line ++ crlf) ++ body)
      = some (start, fields.flatMap WireField.line ++ crlf ++ body) := by
    rw [← nextLine_append hstart]
    simp
  unfold readHead
  simp only [hline, Option.bind_eq_bind, Option.bind_some, readFields_lines h hlen body]
  rfl

/-! ## Numbers -/

theorem fromUtf8_utf8 (t : Str) : fromUtf8 (utf8 t) = some t := fromUtf8_eq_some.2 rfl

theorem decimal_toString (n : Nat) : decimal (wire (toString n)) = some n := by
  have hdigits : (toString n).toList = Nat.toDigits 10 n := Nat.toList_repr
  have hall : ∀ c ∈ Nat.toDigits 10 n, c.isDigit = true :=
    fun c hc => Nat.isDigit_of_mem_toDigits (by decide) (by decide) hc
  unfold decimal wire
  rw [fromUtf8_utf8, hdigits]
  simpa [Nat.toDigits_ne_nil, Nat.ofDigitChars_ten_toDigits] using hall

end Tethra.Gateway
