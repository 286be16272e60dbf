import Tethra.Observe.PlainTarget

set_option autoImplicit false

/-! # Rewriting the head of a plain request (`observe/src/proxy.rs`)

The head that the parser accepts is cut again, at each line feed: the first line is dropped as the request
line, and the first empty line after it ends the head. The parser skips empty lines before the request
line, so with one of those the request line is forwarded as a field, and with two no field is. Exactly for
the heads of `Exact` the upstream gets what the child has sent (`plain_head_exact`). -/

namespace Tethra.Interception

open Gateway Observe

/-! ## The rewriting -/

def lowerByte (b : UInt8) : UInt8 := if 0x41 ≤ b && b ≤ 0x5a then b + 0x20 else b

/-- `<[u8]>::eq_ignore_ascii_case`. -/
def eqIgnoreCase (a b : Bytes) : Bool := a.map lowerByte = b.map lowerByte

/-- `strip_suffix(b"\r")`, or the line itself. -/
def stripCr (line : Bytes) : Bytes := if line.getLast? = some cr then line.dropLast else line

def lineName (line : Bytes) : Bytes := line.takeWhile (· ≠ colon)

def isStripped (name : Bytes) : Bool :=
  eqIgnoreCase name (wire "proxy-authorization") || eqIgnoreCase name (wire "proxy-connection")
    || eqIgnoreCase name (wire "connection")

/-- The loop over the lines behind the first. -/
def forwardLines : List Bytes → Bytes
  | [] => []
  | raw :: lines =>
      let line := stripCr raw
      if line = [] then []
      else if isStripped (lineName line) then forwardLines lines
      else line ++ crlf ++ forwardLines lines

def rewritePlainRequest (raw : Bytes) (method originPath : Str) : Bytes :=
  utf8 method ++ wire " " ++ utf8 originPath ++ wire " HTTP/1.1\r\n" ++ forwardLines (raw.splitOn lf).tail
    ++ wire "Connection: close\r\n\r\n"

/-- The head that `handle_plain` sends upstream, when it does not refuse the request. -/
def sentHead (lookup : Lookup) (allow : AllowList) (parts : HeadParts RequestHead) : Option Bytes :=
  (plainDestination lookup allow parts.head.target).map fun d =>
    rewritePlainRequest parts.raw parts.head.method d.2.2

/-! ## Heads as the parser accepts them -/

inductive LineEnd where
  | crlf
  | lf
  deriving DecidableEq, Repr

/-- What is before the line feed. -/
def LineEnd.before : LineEnd → Bytes
  | .crlf => [cr]
  | .lf => []

def LineEnd.bytes (e : LineEnd) : Bytes := e.before ++ [Gateway.lf]

def isBreakByte (b : UInt8) : Bool := b = cr || b = lf

/-- A field line: a token, a colon and a value, which may have blanks around it. -/
structure FieldLine where
  name : Bytes
  value : Bytes
  stop : LineEnd
  name_token : name.all isTokenByte = true
  value_clean : value.any isBreakByte = false

def FieldLine.line (f : FieldLine) : Bytes := f.name ++ colon :: f.value

def FieldLine.bytes (f : FieldLine) : Bytes := f.line ++ f.stop.bytes

/-- A request head in a spelling that the parser accepts. -/
structure SpelledHead where
  blanks : List LineEnd
  method : Str
  target : Str
  version : HttpVersion
  stop : LineEnd
  fields : List FieldLine
  last : LineEnd
  method_token : (utf8 method).all isTokenByte = true
  target_clean : (utf8 target).any isBreakByte = false

def versionText : HttpVersion → Bytes
  | .http10 => wire "HTTP/1.0"
  | .http11 => wire "HTTP/1.1"

def SpelledHead.requestLine (h : SpelledHead) : Bytes :=
  utf8 h.method ++ wire " " ++ utf8 h.target ++ wire " " ++ versionText h.version

def SpelledHead.fieldBytes (h : SpelledHead) : Bytes := h.fields.flatMap FieldLine.bytes ++ h.last.bytes

def SpelledHead.bytes (h : SpelledHead) : Bytes :=
  h.blanks.flatMap LineEnd.bytes ++ (h.requestLine ++ h.stop.bytes ++ h.fieldBytes)

/-- `httparse` as it is documented: a complete head is spelled so. -/
structure AcceptsSpelled (httparse : Bytes → ParseStatus) : Prop where
  complete : ∀ buf n method path version headers,
    httparse buf = .complete n method path version headers →
      ∃ h : SpelledHead, buf.take n = h.bytes ∧ method = some h.method ∧ path = some h.target

/-! ## What the upstream is to get -/

def keptLines (fields : List FieldLine) : Bytes :=
  (fields.filter fun f => !isStripped f.name).flatMap fun f => f.line ++ crlf

/-- The request line in origin form, the fields but for three, and the end of the connection. -/
def SpelledHead.forwarded (h : SpelledHead) : Bytes :=
  utf8 h.method ++ wire " " ++ utf8 (originForm (h.target.drop 7)) ++ wire " HTTP/1.1\r\n"
    ++ keptLines h.fields ++ wire "Connection: close\r\n\r\n"

/-- No line is a field with the token of the session. -/
def NoToken (sent : Bytes) : Prop :=
  ∀ line ∈ sent.splitOn lf, eqIgnoreCase (lineName (stripCr line)) (wire "proxy-authorization") = false

/-- No empty line is before the request line, or at least two where every field is stripped; and no
    query is right behind the authority. -/
def Exact (h : SpelledHead) : Prop :=
  (h.blanks = [] ∨ 2 ≤ h.blanks.length ∧ ∀ f ∈ h.fields, isStripped f.name = true) ∧
    ((h.target.drop 7).dropWhile (!isAuthorityEnd ·)).head? ≠ some '?'

/-! ## Lines -/

section

variable {line more : Bytes} {e : LineEnd} {f : FieldLine}

theorem splitOn_line (h : lf ∉ line) (e : LineEnd) (more : Bytes) :
    (line ++ e.bytes ++ more).splitOn lf = (line ++ e.before) :: more.splitOn lf := by
  have hline : lf ∉ line ++ e.before := by
    cases e <;> simp [LineEnd.before, h, show lf ≠ cr by decide]
  have hcut : line ++ e.bytes ++ more = (line ++ e.before) ++ lf :: more := by simp [LineEnd.bytes]
  rw [hcut, List.splitOn_append_cons_self_of_not_mem hline]

theorem stripCr_before (h : line.getLast? ≠ some cr) (e : LineEnd) : stripCr (line ++ e.before) = line := by
  cases e with
  | crlf => simp [stripCr, LineEnd.before]
  | lf => simp [stripCr, LineEnd.before, h]

theorem getLast?_ne_of_not_mem (h : cr ∉ line) : line.getLast? ≠ some cr := fun hlast =>
  h (List.mem_of_getLast? hlast)

theorem breaks_not_token : isTokenByte cr = false ∧ isTokenByte lf = false ∧ isTokenByte 0x20 = false := by
  decide

theorem not_mem_of_token {name : Bytes} (h : name.all isTokenByte = true) {b : UInt8}
    (hb : isTokenByte b = false) : b ∉ name := by
  intro hmem
  rw [List.all_eq_true.1 h b hmem] at hb
  cases hb

theorem not_mem_of_clean {value : Bytes} (h : value.any isBreakByte = false) :
    cr ∉ value ∧ lf ∉ value := by
  constructor <;> intro hmem
  · exact List.any_eq_false.1 h cr hmem (by decide)
  · exact List.any_eq_false.1 h lf hmem (by decide)

theorem FieldLine.cr_notMem (f : FieldLine) : cr ∉ f.line := by
  simp [FieldLine.line, not_mem_of_token f.name_token breaks_not_token.1,
    (not_mem_of_clean f.value_clean).1, show cr ≠ colon by decide]

theorem FieldLine.lf_notMem (f : FieldLine) : lf ∉ f.line := by
  simp [FieldLine.line, not_mem_of_token f.name_token breaks_not_token.2.1,
    (not_mem_of_clean f.value_clean).2, show lf ≠ colon by decide]

theorem FieldLine.ne_nil (f : FieldLine) : f.line ≠ [] := by simp [FieldLine.line]

theorem FieldLine.lineName_line (f : FieldLine) : lineName f.line = f.name := by
  have hall : ∀ b ∈ f.name, decide (b ≠ colon) = true := by
    intro b hb
    rw [decide_eq_true_iff]
    rintro rfl
    exact not_mem_of_token f.name_token colon_not_token hb
  rw [lineName, FieldLine.line, List.takeWhile_append_of_pos hall]
  simp

end

/-- An empty line ends the head. -/
theorem forwardLines_before (e : LineEnd) (lines : List Bytes) : forwardLines (e.before :: lines) = [] := by
  cases e <;> rfl

/-- The fields of a head, up to its end. -/
theorem forwardLines_fields (fields : List FieldLine) (last : LineEnd) :
    forwardLines ((fields.flatMap FieldLine.bytes ++ last.bytes).splitOn lf) = keptLines fields := by
  induction fields with
  | nil =>
      have hlast := splitOn_line List.not_mem_nil last []
      rw [List.nil_append, List.append_nil] at hlast
      rw [List.flatMap_nil, List.nil_append, hlast, List.nil_append, forwardLines_before]
      rfl
  | cons f fields ih =>
      rw [List.flatMap_cons, List.append_assoc, FieldLine.bytes, splitOn_line f.lf_notMem, forwardLines,
        stripCr_before (getLast?_ne_of_not_mem f.cr_notMem), if_neg f.ne_nil, f.lineName_line, ih]
      by_cases hstripped : isStripped f.name = true
      · simp [keptLines, hstripped]
      · simp [keptLines, hstripped]

theorem space_notMem_of_isStripped {name : Bytes} (h : isStripped name = true) : 0x20 ∉ name := by
  intro hmem
  have hlower : lowerByte 0x20 ∈ name.map lowerByte := List.mem_map_of_mem hmem
  simp only [isStripped, eqIgnoreCase, Bool.or_eq_true, decide_eq_true_eq, or_assoc] at h
  rcases h with h | h | h
  · rw [h] at hlower
    revert hlower
    decide
  · rw [h] at hlower
    revert hlower
    decide
  · rw [h] at hlower
    revert hlower
    decide

/-- A line that begins with a method and a space has no name that is stripped. -/
theorem not_isStripped_of_space {method : Bytes} (hmethod : method.all isTokenByte = true) (more : Bytes) :
    isStripped (lineName (method ++ 0x20 :: more)) = false := by
  have hall : ∀ b ∈ method, decide (b ≠ colon) = true := by
    intro b hb
    rw [decide_eq_true_iff]
    rintro rfl
    exact not_mem_of_token hmethod colon_not_token hb
  have hmem : 0x20 ∈ lineName (method ++ 0x20 :: more) := by
    rw [lineName, List.takeWhile_append_of_pos hall]
    simp [show (0x20 : UInt8) ≠ colon by decide]
  rw [Bool.eq_false_iff]
  exact fun h => space_notMem_of_isStripped h hmem

section

variable (h : SpelledHead)

theorem SpelledHead.requestLine_eq :
    h.requestLine = utf8 h.method ++ 0x20 :: (utf8 h.target ++ wire " " ++ versionText h.version) := by
  have hspace : wire " " = [0x20] := by decide
  simp [SpelledHead.requestLine, hspace]

theorem versionText_clean (v : HttpVersion) : cr ∉ versionText v ∧ lf ∉ versionText v := by
  cases v <;> decide

theorem SpelledHead.requestLine_clean : cr ∉ h.requestLine ∧ lf ∉ h.requestLine := by
  have hmethod : ∀ b, isTokenByte b = false → b ∉ utf8 h.method := fun b hb =>
    not_mem_of_token h.method_token hb
  have hspace : cr ∉ wire " " ∧ lf ∉ wire " " := by decide
  have htarget := not_mem_of_clean h.target_clean
  have hversion := versionText_clean h.version
  simp [SpelledHead.requestLine, hmethod _ breaks_not_token.1, hmethod _ breaks_not_token.2.1, hspace,
    htarget, hversion]

/-- What the loop forwards of a head: its fields, behind one empty line the request line too, and nothing
    behind two. -/
theorem SpelledHead.forwardLines_tail :
    forwardLines (h.bytes.splitOn lf).tail =
      match h.blanks with
      | [] => keptLines h.fields
      | [_] => h.requestLine ++ crlf ++ keptLines h.fields
      | _ :: _ :: _ => [] := by
  obtain ⟨hcr, hlf⟩ := h.requestLine_clean
  have hrequest := splitOn_line hlf h.stop h.fieldBytes
  have hfields : forwardLines (h.fieldBytes.splitOn lf) = keptLines h.fields :=
    forwardLines_fields h.fields h.last
  have hblank : ∀ (e : LineEnd) (more : Bytes),
      (e.bytes ++ more).splitOn lf = e.before :: more.splitOn lf := fun e more =>
    splitOn_line List.not_mem_nil e more
  unfold SpelledHead.bytes
  split
  · rename_i heq
    rw [heq, List.flatMap_nil, List.nil_append, hrequest, List.tail_cons, hfields]
  · rename_i e heq
    have hne : h.requestLine ≠ [] := by
      rw [h.requestLine_eq]
      simp
    have hname : isStripped (lineName h.requestLine) = false := by
      rw [h.requestLine_eq]
      exact not_isStripped_of_space h.method_token _
    rw [heq, List.flatMap_singleton, hblank, List.tail_cons, hrequest, forwardLines,
      stripCr_before (getLast?_ne_of_not_mem hcr), if_neg hne, hname, hfields]
    simp
  · rename_i e e' more heq
    rw [heq, List.flatMap_cons, List.flatMap_cons, List.append_assoc, List.append_assoc, hblank,
      List.tail_cons, hblank, forwardLines_before]

end

/-! ## Exactness -/

theorem lf_notMem_of_subset {path target : Str} (htarget : lf ∉ utf8 target)
    (h : ∀ c ∈ path, c = '/' ∨ c ∈ target) : lf ∉ utf8 path := by
  intro hmem
  obtain ⟨c, hc, hlf⟩ := mem_utf8.1 hmem
  rcases h c hc with rfl | hin
  · revert hlf
    decide
  · exact htarget (mem_utf8.2 ⟨c, hin, hlf⟩)

theorem plainDestination_path {lookup : Lookup} {allow : AllowList} {target : Str} {d : Destination}
    (h : plainDestination lookup allow target = some d) :
    d.2.2 = if (target.drop 7).dropWhile (· ≠ '/') = [] then ['/']
      else (target.drop 7).dropWhile (· ≠ '/') := by
  obtain ⟨hsplit, -⟩ := Option.filter_eq_some_iff.1 h
  obtain ⟨rest, hstrip, h⟩ := Option.bind_eq_some_iff.1 hsplit
  rw [Text.stripPrefix_eq_some] at hstrip
  have hrest : target.drop 7 = rest := by
    rw [hstrip]
    exact List.drop_left' (by decide)
  dsimp only at h
  split_ifs at h with hhost hpath
  · rw [hrest, if_pos hpath, ← Option.some.inj h]
  · rw [hrest, if_neg hpath, ← Option.some.inj h]

theorem path_subset {rest target : Str} (hrest : ∀ c ∈ rest, c ∈ target) :
    ∀ c ∈ (if rest.dropWhile (· ≠ '/') = [] then ['/'] else rest.dropWhile (· ≠ '/')),
      c = '/' ∨ c ∈ target := by
  intro c hc
  split_ifs at hc
  · exact .inl (List.mem_singleton.1 hc)
  · exact .inr (hrest c ((List.dropWhile_suffix _).subset hc))

theorem originForm_subset {rest target : Str} (hrest : ∀ c ∈ rest, c ∈ target) :
    ∀ c ∈ originForm rest, c = '/' ∨ c ∈ target := by
  intro c hc
  have htail : ∀ c ∈ rest.dropWhile (!isAuthorityEnd ·), c ∈ target := fun c hc =>
    hrest c ((List.dropWhile_suffix _).subset hc)
  unfold originForm at hc
  dsimp only at hc
  split_ifs at hc
  · exact .inr (htail c hc)
  · exact (List.mem_cons.1 hc).imp_right (htail c)

/-- Two heads are one when their paths and what is behind the request line are. -/
theorem request_line_inj {a p q x y : Bytes} (ha : lf ∉ a) (hp : lf ∉ p) (hq : lf ∉ q) :
    a ++ p ++ wire " HTTP/1.1\r\n" ++ x = a ++ q ++ wire " HTTP/1.1\r\n" ++ y ↔ p = q ∧ x = y := by
  refine ⟨fun h => ?_, fun ⟨hpq, hxy⟩ => by rw [hpq, hxy]⟩
  have hwire : wire " HTTP/1.1\r\n" = wire " HTTP/1.1" ++ LineEnd.crlf.bytes := by decide
  have hversion : lf ∉ wire " HTTP/1.1" := by decide
  have hcut : ∀ {r z : Bytes}, lf ∉ r → (a ++ r ++ wire " HTTP/1.1\r\n" ++ z).splitOn lf =
      (a ++ r ++ wire " HTTP/1.1" ++ LineEnd.crlf.before) :: z.splitOn lf := by
    intro r z hr
    rw [hwire, ← List.append_assoc, splitOn_line]
    simp [ha, hr, hversion]
  have hsplit := congrArg (List.splitOn lf) h
  rw [hcut hp, hcut hq] at hsplit
  have hline := (List.cons.inj hsplit).1
  simp only [List.append_cancel_right_eq, List.append_cancel_left_eq] at hline
  subst hline
  exact ⟨rfl, List.append_cancel_left h⟩

/-- What the loop forwards is the fields that are kept, exactly where no empty line is in front or where
    none is kept behind two. -/
theorem SpelledHead.forwardLines_iff (h : SpelledHead) :
    forwardLines (h.bytes.splitOn lf).tail = keptLines h.fields ↔
      (h.blanks = [] ∨ 2 ≤ h.blanks.length ∧ ∀ f ∈ h.fields, isStripped f.name = true) := by
  rw [h.forwardLines_tail]
  split
  · rename_i heq
    simp [heq]
  · rename_i e heq
    refine iff_of_false (fun hsame => ?_) (by simp [heq])
    have hlen := congrArg List.length hsame
    simp only [List.length_append, crlf, List.length_cons, List.length_nil] at hlen
    omega
  · rename_i e e' more heq
    rw [heq, keptLines, eq_comm, List.flatMap_eq_nil_iff]
    simp [crlf]

theorem noToken_line {line more : Bytes} (hlf : lf ∉ line) (hcr : line.getLast? ≠ some cr)
    (hname : isStripped (lineName line) = false) (hmore : NoToken more) :
    NoToken (line ++ crlf ++ more) := by
  have hcrlf : crlf = LineEnd.crlf.bytes := rfl
  rw [hcrlf]
  intro l hl
  rw [splitOn_line hlf] at hl
  rcases List.mem_cons.1 hl with rfl | hl
  · rw [stripCr_before hcr]
    simp only [isStripped, Bool.or_eq_false_iff] at hname
    exact hname.1.1
  · exact hmore l hl

theorem noToken_keptLines (fields : List FieldLine) {more : Bytes} (hmore : NoToken more) :
    NoToken (keptLines fields ++ more) := by
  induction fields with
  | nil => exact hmore
  | cons f fields ih =>
      by_cases hstripped : isStripped f.name = true
      · rw [keptLines, List.filter_cons_of_neg (by simp [hstripped])]
        exact ih
      · rw [keptLines, List.filter_cons_of_pos (by simp [hstripped]), List.flatMap_cons, List.append_assoc]
        refine noToken_line f.lf_notMem (getLast?_ne_of_not_mem f.cr_notMem) ?_ ih
        rw [f.lineName_line]
        simpa using hstripped

/-- Whatever is forwarded, no field with the token of the session is. -/
theorem noToken_rewrite (h : SpelledHead) {path : Str} (hpath : lf ∉ utf8 path) :
    NoToken (rewritePlainRequest h.bytes h.method path) := by
  have hend : NoToken (wire "Connection: close\r\n\r\n") := by unfold NoToken; decide
  have hforward : NoToken (forwardLines (h.bytes.splitOn lf).tail ++ wire "Connection: close\r\n\r\n") := by
    rw [h.forwardLines_tail]
    split
    · exact noToken_keptLines h.fields hend
    · rw [List.append_assoc]
      refine noToken_line h.requestLine_clean.2 (getLast?_ne_of_not_mem h.requestLine_clean.1) ?_
        (noToken_keptLines h.fields hend)
      rw [h.requestLine_eq]
      exact not_isStripped_of_space h.method_token _
    · exact hend
  have hline : rewritePlainRequest h.bytes h.method path =
      (utf8 h.method ++ 0x20 :: (utf8 path ++ wire " HTTP/1.1")) ++ crlf
        ++ (forwardLines (h.bytes.splitOn lf).tail ++ wire "Connection: close\r\n\r\n") := by
    have hspace : wire " " = [0x20] := by decide
    have hwire : wire " HTTP/1.1\r\n" = wire " HTTP/1.1" ++ crlf := by decide
    simp [rewritePlainRequest, hspace, hwire]
  have hversion : lf ∉ wire " HTTP/1.1" ∧ (wire " HTTP/1.1").getLast? = some 0x31 := by decide
  rw [hline]
  refine noToken_line ?_ ?_ (not_isStripped_of_space h.method_token _) hforward
  · simp [not_mem_of_token h.method_token breaks_not_token.2.1, hpath, hversion.1, show lf ≠ 0x20 by decide]
  · rw [List.getLast?_append_of_ne_nil _ (by simp), ← List.cons_append,
      List.getLast?_append_of_ne_nil _ (by decide), hversion.2]
    decide

/-- The head that is sent for an accepted one is what is to be forwarded, and has no token in it, exactly
    when the accepted head is `Exact`. -/
theorem plain_head_exact {httparse : Bytes → ParseStatus} (hparser : AcceptsSpelled httparse)
    (lookup : Lookup) (allow : AllowList) {buf sent : Bytes} {parts : HeadParts RequestHead}
    (haccept : acceptRequest httparse buf = .ok (some parts))
    (hsent : sentHead lookup allow parts = some sent) :
    ∃ h : SpelledHead, parts.raw = h.bytes ∧ parts.head.method = h.method ∧ parts.head.target = h.target ∧
      (sent = h.forwarded ∧ NoToken sent ↔ Exact h) := by
  obtain ⟨h, hraw, hmethod, htarget⟩ : ∃ h : SpelledHead,
      parts.raw = h.bytes ∧ parts.head.method = h.method ∧ parts.head.target = h.target := by
    unfold acceptRequest at haccept
    split at haccept
    · rename_i n method path version headers hparse
      obtain ⟨h, hraw, rfl, rfl⟩ := hparser.complete _ _ _ _ _ _ hparse
      obtain rfl := Option.some.inj (Except.ok.inj haccept)
      exact ⟨h, hraw, rfl, rfl⟩
    · cases haccept
    · cases haccept
  refine ⟨h, hraw, hmethod, htarget, ?_⟩
  obtain ⟨d, hdest, rfl⟩ := Option.map_eq_some_iff.1 hsent
  rw [htarget] at hdest
  rw [hraw, hmethod, plainDestination_path hdest]
  -- neither path can break the request line
  have hlf := (not_mem_of_clean h.target_clean).2
  have hdrop : ∀ c ∈ h.target.drop 7, c ∈ h.target := fun c hc => List.mem_of_mem_drop hc
  have hpath := lf_notMem_of_subset hlf (path_subset hdrop)
  have hform := lf_notMem_of_subset hlf (originForm_subset hdrop)
  have hstart : lf ∉ utf8 h.method ++ wire " " := by
    have hspace : lf ∉ wire " " := by decide
    simp [not_mem_of_token h.method_token breaks_not_token.2.1, hspace]
  rw [and_iff_left (noToken_rewrite h hpath)]
  unfold rewritePlainRequest SpelledHead.forwarded
  rw [List.append_cancel_right_eq, request_line_inj hstart hpath hform, h.forwardLines_iff, Exact, and_comm]
  refine and_congr_right fun _ => ?_
  rw [← path_eq_originForm_iff]
  constructor
  · intro heq
    have htext := congrArg fromUtf8 heq
    rw [fromUtf8_utf8, fromUtf8_utf8] at htext
    exact Option.some.inj htext
  · exact fun heq => congrArg utf8 heq

/-! ## An empty line in front -/

/-- A request that is sent behind an empty line. -/
def behindBlank : SpelledHead where
  blanks := [.crlf]
  method := "GET".toList
  target := "http://example.com/".toList
  version := .http11
  stop := .crlf
  fields := []
  last := .crlf
  method_token := by decide
  target_clean := by decide

/-- A parser that accepts one head. -/
def parserOf (h : SpelledHead) (buf : Bytes) : ParseStatus :=
  if h.bytes.isPrefixOf buf then .complete h.bytes.length (some h.method) (some h.target) (some 1) []
  else .incomplete

theorem parserOf_acceptsSpelled (h : SpelledHead) : AcceptsSpelled (parserOf h) where
  complete := by
    intro buf n method path version headers hparse
    unfold parserOf at hparse
    split_ifs at hparse with hprefix
    obtain ⟨more, rfl⟩ := List.isPrefixOf_iff_prefix.1 hprefix
    simp only [ParseStatus.complete.injEq] at hparse
    obtain ⟨rfl, rfl, rfl, -, -⟩ := hparse
    exact ⟨h, List.take_left, rfl, rfl⟩

def SpelledHead.parts (h : SpelledHead) : HeadParts RequestHead :=
  ⟨requestFrom (some h.method) (some h.target) (some 1) [], h.bytes, []⟩

theorem acceptRequest_parserOf (h : SpelledHead) :
    acceptRequest (parserOf h) h.bytes = .ok (some h.parts) := by
  have hprefix : h.bytes.isPrefixOf h.bytes = true := List.isPrefixOf_iff_prefix.2 (List.prefix_refl _)
  simp [acceptRequest, parserOf, hprefix, SpelledHead.parts]

theorem sentHead_behindBlank : sentHead onePublic [] behindBlank.parts =
    some (rewritePlainRequest behindBlank.bytes "GET".toList "/".toList) := by decide

theorem plain_head_exact_behindBlank : ∃ h : SpelledHead, behindBlank.parts.raw = h.bytes ∧
    behindBlank.parts.head.method = h.method ∧ behindBlank.parts.head.target = h.target ∧
      (rewritePlainRequest behindBlank.bytes "GET".toList "/".toList = h.forwarded ∧
        NoToken (rewritePlainRequest behindBlank.bytes "GET".toList "/".toList) ↔ Exact h) :=
  plain_head_exact (parserOf_acceptsSpelled behindBlank) onePublic [] (acceptRequest_parserOf behindBlank)
    sentHead_behindBlank

/-- The request line is forwarded a second time, as a field. -/
theorem request_line_forwarded :
    acceptRequest (parserOf behindBlank) behindBlank.bytes = .ok (some behindBlank.parts) ∧
      (sentHead onePublic [] behindBlank.parts).isSome = true ∧
      sentHead onePublic [] behindBlank.parts ≠ some behindBlank.forwarded := by
  refine ⟨acceptRequest_parserOf behindBlank, ?_⟩
  rw [sentHead_behindBlank]
  decide

end Tethra.Interception
