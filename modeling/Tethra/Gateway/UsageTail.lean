import Tethra.Gateway.Digest
import Tethra.Gateway.UsageExtract
import Tethra.Lib.Braces

set_option autoImplicit false

/-! # The tail of a JSON body (`gateway/src/usage.rs`)

Of a body that is not streamed the last 64 KiB are kept, and where they are not a document of their own, the
object behind the last `"usage"` in them is read. They give the counts of the body's usage object where they
hold its key too and no `"usage"` stands behind that (`tail_matches`). A later `"usage"`, even as a value, hides
it (`later_usage_hides`). -/

namespace Tethra.Gateway.UsageTail

open Braces

/-- `JSON_TAIL_WINDOW`. -/
def jsonTailWindow : Nat := 64 * 1024

/-- `feed` of a body that is not streamed. -/
def feed (tail bytes : Bytes) : Bytes :=
  let tail := tail ++ bytes
  if jsonTailWindow < tail.length then tail.drop (tail.length - jsonTailWindow) else tail

def feedAll (chunks : List Bytes) : Bytes := chunks.foldl feed []

def needle : Bytes := wire "\"usage\""

def colon : UInt8 := 0x3a

/-- The first loop of `last_usage_object`: the bytes behind the last needle. -/
def lastStart (start : Option Bytes) : Bytes → Option Bytes
  | [] => start
  | b :: rest =>
      lastStart (if needle.isPrefixOf (b :: rest) then some ((b :: rest).drop needle.length) else start) rest

def isSkipped (b : UInt8) : Bool := b = colon || isAsciiWhitespaceByte b

/-- The last loop of `last_usage_object`: the bytes up to the brace that closes what is open. -/
def objectEnd (mode : Mode) (depth : Nat) : Bytes → Option Bytes
  | [] => none
  | b :: rest =>
      match mode with
      | .escaped => (objectEnd .inside depth rest).map (b :: ·)
      | .inside =>
          let mode := if b = backslash then .escaped else if b = quote then .outside else .inside
          (objectEnd mode depth rest).map (b :: ·)
      | .outside =>
          if b = quote then (objectEnd .inside depth rest).map (b :: ·)
          else if b = opening then (objectEnd .outside (depth + 1) rest).map (b :: ·)
          else if b = closing then
            if depth - 1 = 0 then some [b] else (objectEnd .outside (depth - 1) rest).map (b :: ·)
          else (objectEnd .outside depth rest).map (b :: ·)

/-- `last_usage_object`. -/
def lastUsageObject (window : Bytes) : Option Bytes :=
  (lastStart none window).bind fun text =>
    let text := text.dropWhile isSkipped
    if text.head? = some opening then objectEnd .outside 0 text else none

/-- `finish_json`. -/
def finishJson (parse : Bytes → Option Json) (shape : Shape) (acc : Acc) (tail : Bytes) : Acc :=
  if tail = [] then acc
  else
    match parse tail with
    | some v => acc.absorbJson shape v
    | none =>
        match (lastUsageObject tail).bind parse with
        | some u => acc.absorbJson shape (.object [("usage".toList, u)])
        | none => { acc with malformed := true }

/-- The counts of a body that comes in chunks. -/
def recovered (parse : Bytes → Option Json) (shape : Shape) (chunks : List Bytes) :
    Option Nat × Option Nat × Option Nat × Option Nat :=
  (finishJson parse shape .default (feedAll chunks)).observed shape

/-! ## The usage object of a document -/

/-- The white space of JSON. -/
def isJsonSpace (b : UInt8) : Bool := b = 32 || b = 9 || b = 10 || b = 13

/-- What is used of a parser of JSON: outside of strings the braces of a document match, and white space before
    it is skipped. -/
structure ParsesJson (parse : Bytes → Option Json) : Prop where
  balanced : ∀ {text v}, parse text = some v → Balanced text
  skipsSpace : ∀ {space text}, space.all isJsonSpace → parse (space ++ text) = parse text

/-- Where a document has its usage object, inside the outer braces only, and what that is. -/
structure TopUsage (parse : Bytes → Option Json) (body : Bytes) where
  space : Bytes
  before : Bytes
  inner : Bytes
  rest : Bytes
  body_eq : body = space ++ opening :: (before ++ (opening :: (inner ++ closing :: rest)))
  space_white : space.all isJsonSpace
  before_balanced : Balanced before
  inner_balanced : Balanced inner
  document : Json
  members : List (Str × Json)
  parse_body : parse body = some document
  usage_eq : document.get "usage" = some (.object members)
  parse_usage : parse (opening :: (inner ++ [closing])) = some (.object members)

section

variable {parse : Bytes → Option Json} {body : Bytes}

/-- The bytes in front of the usage object. -/
def TopUsage.front (top : TopUsage parse body) : Bytes := top.space ++ opening :: top.before

/-- The bytes behind its opening brace. -/
def TopUsage.behind (top : TopUsage parse body) : Bytes := top.inner ++ closing :: top.rest

/-- The counts that the usage object carries. -/
def TopUsage.counts (top : TopUsage parse body) (shape : Shape) :
    Option Nat × Option Nat × Option Nat × Option Nat :=
  (Acc.default.absorbUsage shape (.object top.members)).observed shape

/-- Whether the usage object lies inside the window. -/
def TopUsage.InWindow (top : TopUsage parse body) : Prop :=
  body.length - jsonTailWindow ≤ top.front.length

/-- Whether the window has the document, with some of the white space in front of it at most left out. -/
def TopUsage.Fits (top : TopUsage parse body) : Prop :=
  body.length - jsonTailWindow ≤ top.space.length

/-- Whether the window has the key of the usage object and no `"usage"` stands behind that. -/
def TopUsage.KeyIsLast (top : TopUsage parse body) : Prop :=
  ∃ lead gap, top.before = lead ++ (needle ++ gap) ∧ gap.all isSkipped ∧
    body.length - jsonTailWindow ≤ (top.space ++ opening :: lead).length ∧
    ¬needle <:+: gap ++ opening :: top.behind

end

/-- The value that stands as an object behind the last `"usage"` of a text. -/
def LastUsage (parse : Bytes → Option Json) (window : Bytes) (u : Json) : Prop :=
  ∃ lead gap inner rest, window = lead ++ (needle ++ (gap ++ opening :: (inner ++ closing :: rest))) ∧
    gap.all isSkipped ∧ Balanced inner ∧ ¬needle <:+: gap ++ opening :: (inner ++ closing :: rest) ∧
    parse (opening :: (inner ++ [closing])) = some u

/-- The counts of a value as the usage object of an answer. -/
def usageCounts (shape : Shape) (u : Json) : Option Nat × Option Nat × Option Nat × Option Nat :=
  (Acc.default.absorbJson shape (.object [("usage".toList, u)])).observed shape

def noCounts : Option Nat × Option Nat × Option Nat × Option Nat := (none, none, none, none)

/-- Whether what stands behind the last `"usage"` of the window carries the counts of the usage object. -/
def TopUsage.SameCounts {parse : Bytes → Option Json} {body : Bytes} (top : TopUsage parse body)
    (shape : Shape) : Prop :=
  (∃ u, LastUsage parse (body.drop (body.length - jsonTailWindow)) u ∧
      usageCounts shape u = top.counts shape) ∨
    (¬∃ u, LastUsage parse (body.drop (body.length - jsonTailWindow)) u) ∧ top.counts shape = noCounts

/-! ## The window -/

theorem feed_eq (tail bytes : Bytes) :
    feed tail bytes = (tail ++ bytes).drop ((tail ++ bytes).length - jsonTailWindow) := by
  unfold feed
  dsimp only
  split_ifs with h
  · rfl
  · rw [Nat.sub_eq_zero_of_le (Nat.le_of_not_lt h), List.drop_zero]

/-- The end of a text's end and more is the end of the text and more. -/
theorem drop_drop_append (n : Nat) (text bytes : Bytes) :
    (text.drop (text.length - n) ++ bytes).drop ((text.drop (text.length - n) ++ bytes).length - n) =
      (text ++ bytes).drop ((text ++ bytes).length - n) := by
  have hle : text.length - n ≤ text.length := Nat.sub_le _ _
  have hsum : text.length - n + ((text.drop (text.length - n) ++ bytes).length - n) =
      (text ++ bytes).length - n := by
    simp only [List.length_append, List.length_drop]
    omega
  rw [← hsum, ← List.drop_drop, List.drop_append_of_le_length hle]

/-- Whatever the chunks are, the end of the body is kept. -/
theorem feedAll_eq (chunks : List Bytes) :
    feedAll chunks = chunks.flatten.drop (chunks.flatten.length - jsonTailWindow) := by
  suffices hfold : ∀ text : Bytes, chunks.foldl feed (text.drop (text.length - jsonTailWindow)) =
      (text ++ chunks.flatten).drop ((text ++ chunks.flatten).length - jsonTailWindow) by
    rw [feedAll]
    have hnil := hfold []
    rwa [List.drop_nil, List.nil_append] at hnil
  induction chunks with
  | nil =>
      intro text
      rw [List.flatten_nil, List.append_nil, List.foldl_nil]
  | cons bytes chunks ih =>
      intro text
      rw [List.foldl_cons, feed_eq, drop_drop_append, ih, List.flatten_cons, List.append_assoc]

/-! ## The object behind the key -/

theorem lastStart_of_not_infix {text : Bytes} (h : ¬needle <:+: text) (start : Option Bytes) :
    lastStart start text = start := by
  induction text generalizing start with
  | nil => rfl
  | cons b rest ih =>
      have hhere : needle.isPrefixOf (b :: rest) = false := by
        rw [Bool.eq_false_iff]
        exact fun hbegins => h (List.isPrefixOf_iff_prefix.1 hbegins).isInfix
      rw [lastStart, hhere, ih fun hlater => h (hlater.trans (List.suffix_cons b rest).isInfix)]
      rfl

/-- No needle begins inside of one, so only those wholly behind it count. -/
theorem not_infix_tail {text : Bytes} (h : ¬needle <:+: text) (hhead : text.head? ≠ some 0x75) :
    ¬needle <:+: needle.tail ++ text := by
  have hneedle : needle = [0x22, 0x75, 0x73, 0x61, 0x67, 0x65, 0x22] := by decide
  have hbegins : ∀ b rest, b ≠ 0x22 → ¬needle <+: b :: rest := by
    intro b rest hne hpre
    rw [hneedle, List.cons_prefix_cons] at hpre
    exact hne hpre.1.symm
  have htext : ¬needle <+: 0x22 :: text := by
    intro hpre
    rw [hneedle, List.cons_prefix_cons] at hpre
    obtain ⟨more, hmore⟩ := hpre.2
    exact hhead (by rw [← hmore]; rfl)
  have htail : needle.tail ++ text = 0x75 :: 0x73 :: 0x61 :: 0x67 :: 0x65 :: 0x22 :: text := by
    rw [hneedle]
    rfl
  rw [htail]
  repeat rw [List.infix_cons_iff, not_or]
  exact ⟨hbegins _ _ (by decide), hbegins _ _ (by decide), hbegins _ _ (by decide), hbegins _ _ (by decide),
    hbegins _ _ (by decide), htext, h⟩

theorem lastStart_append {text : Bytes} (h : ¬needle <:+: text) (hhead : text.head? ≠ some 0x75)
    (before : Bytes) (start : Option Bytes) : lastStart start (before ++ (needle ++ text)) = some text := by
  induction before generalizing start with
  | nil =>
      have hneedle : needle = 0x22 :: needle.tail := by decide
      have hall : needle ++ text = 0x22 :: (needle.tail ++ text) := by
        rw [← List.cons_append, ← hneedle]
      have hbegins : needle.isPrefixOf (needle ++ text) = true :=
        List.isPrefixOf_iff_prefix.2 (List.prefix_append _ _)
      rw [List.nil_append, hall, lastStart, ← hall, hbegins, List.drop_left]
      exact lastStart_of_not_infix (not_infix_tail h hhead) _
  | cons b before ih => exact ih _

theorem exists_of_lastStart {window text : Bytes} {start : Option Bytes}
    (h : lastStart start window = some text) :
    start = some text ∧ ¬needle <:+: window ∨
      ∃ lead, window = lead ++ (needle ++ text) ∧ ¬needle <:+: text := by
  induction window generalizing start with
  | nil => exact .inl ⟨h, by decide⟩
  | cons b rest ih =>
      rw [lastStart] at h
      rcases ih h with ⟨hstart, hnone⟩ | ⟨lead, hrest, hnone⟩
      · by_cases hbegins : needle.isPrefixOf (b :: rest) = true
        · rw [if_pos hbegins, Option.some.injEq] at hstart
          obtain ⟨more, hmore⟩ := List.isPrefixOf_iff_prefix.1 hbegins
          rw [← hmore, List.drop_left] at hstart
          subst hstart
          refine .inr ⟨[], hmore.symm, fun hlater => hnone (hlater.trans ?_)⟩
          have hrest : rest = needle.tail ++ more := congrArg List.tail hmore.symm
          rw [hrest]
          exact (List.suffix_append _ _).isInfix
        · rw [if_neg hbegins] at hstart
          refine .inl ⟨hstart, fun hlater => ?_⟩
          rcases List.infix_cons_iff.1 hlater with hhere | hbehind
          · exact hbegins (List.isPrefixOf_iff_prefix.2 hhere)
          · exact hnone hbehind
      · exact .inr ⟨b :: lead, by rw [hrest, List.cons_append], hnone⟩

/-- Where the scan goes on at one brace less, the matching goes on. -/
theorem objectEnd_cons {mode mid : Mode} {depth d : Nat} {b : UInt8}
    (h : step (mode, depth) b = some (mid, d)) (rest : Bytes) :
    objectEnd mode (depth + 1) (b :: rest) = (objectEnd mid (d + 1) rest).map (b :: ·) := by
  cases mode with
  | escaped =>
      simp only [step, Option.some.injEq, Prod.mk.injEq] at h
      obtain ⟨rfl, rfl⟩ := h
      rfl
  | inside =>
      simp only [step, Option.some.injEq, Prod.mk.injEq] at h
      obtain ⟨rfl, rfl⟩ := h
      rfl
  | outside =>
      simp only [step] at h
      rw [objectEnd]
      split_ifs at h with hquote hopen hclose hzero hback
      · simp only [Option.some.injEq, Prod.mk.injEq] at h
        obtain ⟨rfl, rfl⟩ := h
        rw [if_pos hquote]
      · simp only [Option.some.injEq, Prod.mk.injEq] at h
        obtain ⟨rfl, rfl⟩ := h
        rw [if_neg hquote, if_pos hopen]
      · simp only [Option.some.injEq, Prod.mk.injEq] at h
        obtain ⟨rfl, rfl⟩ := h
        rw [if_neg hquote, if_neg hopen, if_pos hclose, Nat.add_sub_cancel, if_neg hzero,
          Nat.sub_add_cancel (Nat.pos_of_ne_zero hzero)]
      · simp only [Option.some.injEq, Prod.mk.injEq] at h
        obtain ⟨rfl, rfl⟩ := h
        rw [if_neg hquote, if_neg hopen, if_neg hclose]

/-- The matching of braces goes over a text as the scan does. -/
theorem objectEnd_append {mode mode' : Mode} {depth depth' : Nat} {text : Bytes}
    (h : scan (mode, depth) text = some (mode', depth')) (rest : Bytes) :
    objectEnd mode (depth + 1) (text ++ rest) = (objectEnd mode' (depth' + 1) rest).map (text ++ ·) := by
  induction text generalizing mode depth with
  | nil =>
      simp only [scan, Option.some.injEq, Prod.mk.injEq] at h
      obtain ⟨rfl, rfl⟩ := h
      simp
  | cons b text ih =>
      obtain ⟨⟨mid, d⟩, hstep, hrest⟩ := Option.bind_eq_some_iff.1 h
      rw [List.cons_append, objectEnd_cons hstep, ih hrest, Option.map_map]
      rfl

/-- What is matched, where the scan goes over it, is closed by the brace that ends it. -/
theorem exists_of_objectEnd {mode : Mode} {depth : Nat} {text object : Bytes}
    (h : objectEnd mode (depth + 1) text = some object) (hscan : (scan (mode, depth + 1) object).isSome) :
    ∃ inner rest, text = inner ++ closing :: rest ∧ object = inner ++ [closing] ∧
      scan (mode, depth) inner = some (.outside, 0) := by
  induction text generalizing mode depth object with
  | nil => simp [objectEnd] at h
  | cons b text ih =>
      cases hstep : step (mode, depth) b with
      | some s =>
          obtain ⟨mid, d⟩ := s
          rw [objectEnd_cons hstep] at h
          obtain ⟨object, hobject, rfl⟩ := Option.map_eq_some_iff.1 h
          rw [scan, step_add hstep 1] at hscan
          obtain ⟨inner, rest, rfl, rfl, hinner⟩ := ih hobject hscan
          refine ⟨b :: inner, rest, rfl, rfl, ?_⟩
          rw [scan, hstep]
          exact hinner
      | none =>
          -- The last brace is closed here, and a backslash is in no text that the scan goes over.
          obtain ⟨rfl, ⟨rfl, rfl⟩ | rfl⟩ := step_eq_none hstep
          · have hobject : [closing] = object := Option.some.inj h
            exact ⟨[], text, rfl, hobject.symm, rfl⟩
          · obtain ⟨object, -, rfl⟩ := Option.map_eq_some_iff.1 h
            have hback : step (.outside, depth + 1) backslash = none := rfl
            rw [scan, hback] at hscan
            cases hscan

theorem objectEnd_object {inner : Bytes} (hinner : Balanced inner) (rest : Bytes) :
    objectEnd .outside 0 (opening :: (inner ++ closing :: rest)) =
      some (opening :: (inner ++ [closing])) := by
  have hopen : objectEnd .outside 0 (opening :: (inner ++ closing :: rest)) =
      (objectEnd .outside 1 (inner ++ closing :: rest)).map (opening :: ·) := rfl
  have hclose : objectEnd .outside 1 (closing :: rest) = some [closing] := rfl
  rw [hopen, objectEnd_append hinner, hclose]
  rfl

theorem head_gap {gap : Bytes} (hgap : gap.all isSkipped) (text : Bytes) :
    (gap ++ opening :: text).head? ≠ some 0x75 := by
  intro hhead
  cases gap with
  | nil => simp [opening] at hhead
  | cons b gap =>
      rw [List.cons_append, List.head?_cons, Option.some.injEq] at hhead
      rw [List.all_cons, Bool.and_eq_true, hhead] at hgap
      exact absurd hgap.1 (by decide)

/-- The object behind the last needle is found. -/
theorem lastUsageObject_eq {gap inner rest : Bytes} (hgap : gap.all isSkipped) (hinner : Balanced inner)
    (hlater : ¬needle <:+: gap ++ opening :: (inner ++ closing :: rest)) (before : Bytes) :
    lastUsageObject (before ++ (needle ++ (gap ++ opening :: (inner ++ closing :: rest)))) =
      some (opening :: (inner ++ [closing])) := by
  have hskip : (gap ++ opening :: (inner ++ closing :: rest)).dropWhile isSkipped =
      opening :: (inner ++ closing :: rest) := by
    rw [List.dropWhile_append_of_pos fun b hb => List.all_eq_true.1 hgap b hb]
    rfl
  rw [lastUsageObject, lastStart_append hlater (head_gap hgap _), Option.bind_some, hskip]
  dsimp only
  rw [if_pos (List.head?_cons ..), objectEnd_object hinner]

theorem dropWhile_split {text rest : Bytes} (h : text.dropWhile isSkipped = rest) :
    ∃ gap, text = gap ++ rest ∧ gap.all isSkipped :=
  ⟨text.takeWhile isSkipped, by rw [← h, List.takeWhile_append_dropWhile], List.all_takeWhile⟩

/-- The object that is found is the one behind the last needle. -/
theorem bind_lastUsageObject {parse : Bytes → Option Json} (hparse : ParsesJson parse) {window : Bytes}
    {u : Json} : (lastUsageObject window).bind parse = some u ↔ LastUsage parse window u := by
  constructor
  · intro h
    obtain ⟨object, hobject, hu⟩ := Option.bind_eq_some_iff.1 h
    obtain ⟨text, hstart, hend⟩ := Option.bind_eq_some_iff.1 hobject
    obtain ⟨lead, rfl, hlater⟩ := (exists_of_lastStart hstart).resolve_left (by simp)
    dsimp only at hend
    split_ifs at hend with hhead
    obtain ⟨behind, hbehind⟩ := List.head?_eq_some_iff.1 hhead
    obtain ⟨gap, rfl, hgap⟩ := dropWhile_split hbehind
    rw [hbehind] at hend
    obtain ⟨object, hmatch, rfl⟩ := Option.map_eq_some_iff.1 (hend : (objectEnd .outside 1 behind).map _ = _)
    have hscan : scan (.outside, 1) object = some (.outside, 0) := hparse.balanced hu
    obtain ⟨inner, rest, rfl, rfl, hinner⟩ := exists_of_objectEnd hmatch (by rw [hscan]; rfl)
    exact ⟨lead, gap, inner, rest, rfl, hgap, hinner, hlater, hu⟩
  · rintro ⟨lead, gap, inner, rest, rfl, hgap, hinner, hlater, hu⟩
    rw [lastUsageObject_eq hgap hinner hlater, Option.bind_some, hu]

theorem LastUsage.unique {parse : Bytes → Option Json} (hparse : ParsesJson parse) {window : Bytes}
    {u u' : Json} (h : LastUsage parse window u) (h' : LastUsage parse window u') : u = u' :=
  Option.some.inj (((bind_lastUsageObject hparse).2 h).symm.trans ((bind_lastUsageObject hparse).2 h'))

/-! ## What the tail gives -/

section

variable {parse : Bytes → Option Json} {body : Bytes} {shape : Shape}

theorem isPlain_of_isJsonSpace {b : UInt8} (h : isJsonSpace b = true) : IsPlain b := by
  simp only [isJsonSpace, Bool.or_eq_true, decide_eq_true_eq] at h
  obtain ((rfl | rfl) | rfl) | rfl := h <;> decide

theorem TopUsage.body_eq_front (top : TopUsage parse body) :
    body = top.front ++ opening :: top.behind := by
  rw [front, behind, List.append_assoc, List.cons_append]
  exact top.body_eq

/-- The body less some of the white space in front of it is the same document. -/
theorem parse_document (hparse : ParsesJson parse) (top : TopUsage parse body) {n : Nat}
    (hspace : n ≤ top.space.length) : parse (body.drop n) = some top.document := by
  have hbody := top.body_eq
  generalize opening :: (top.before ++ opening :: (top.inner ++ closing :: top.rest)) = text at hbody
  have hdrop : body.drop n = top.space.drop n ++ text :=
    (congrArg (List.drop n) hbody).trans (List.drop_append_of_le_length hspace)
  have hwhite : (top.space.drop n).all isJsonSpace := by
    rw [List.all_eq_true]
    exact fun b hb => List.all_eq_true.1 top.space_white b (List.mem_of_mem_drop hb)
  calc parse (body.drop n) = parse text := by rw [hdrop, hparse.skipsSpace hwhite]
    _ = parse (top.space ++ text) := (hparse.skipsSpace top.space_white).symm
    _ = some top.document := by rw [← hbody, top.parse_body]

/-- A part of the body that begins inside the outer braces and has the usage object is no document. -/
theorem parse_window (hparse : ParsesJson parse) (top : TopUsage parse body) {n : Nat}
    (hspace : top.space.length < n) (hwindow : n ≤ top.front.length) : parse (body.drop n) = none := by
  rw [Option.eq_none_iff_forall_ne_some]
  intro v hv
  have hbody : Balanced (body.take n ++ body.drop n) := by
    rw [List.take_append_drop]
    exact hparse.balanced top.parse_body
  obtain ⟨k, rfl⟩ := Nat.exists_eq_add_of_lt hspace
  have htake : body.take (top.space.length + k + 1) = top.space ++ opening :: top.before.take k := by
    calc body.take (top.space.length + k + 1)
        = (top.front ++ opening :: top.behind).take (top.space.length + k + 1) :=
          congrArg (List.take _) top.body_eq_front
      _ = top.front.take (top.space.length + (k + 1)) := List.take_append_of_le_length hwindow
      _ = top.space ++ (opening :: top.before).take (k + 1) := List.take_length_add_append _
  have hbefore : Balanced (top.before.take k ++ top.before.drop k) := by
    rw [List.take_append_drop]
    exact top.before_balanced
  obtain ⟨mode, depth, hscan⟩ := scan_begin hbefore
  have hspaces := scan_of_plain (by decide : Mode.outside ≠ .escaped) 0
    fun b hb => isPlain_of_isJsonSpace (List.all_eq_true.1 top.space_white b hb)
  have hopen : scan (.outside, 0) (body.take (top.space.length + k + 1)) = some (mode, depth + 1) := by
    rw [htake, scan_append, hspaces]
    exact hscan
  exact not_balanced_rest hbody hopen (hparse.balanced hv)

/-- A value that has the usage object carries its counts. -/
theorem observed_absorbJson {v : Json} {members : List (Str × Json)}
    (h : v.get "usage" = some (.object members)) :
    (Acc.default.absorbJson shape v).observed shape =
      (Acc.default.absorbUsage shape (.object members)).observed shape := by
  have husage : usageOf shape v = some (.object members) := by
    cases shape <;> simp [usageOf, h, Json.isNull]
  refine observed_congr fun field => ?_
  rw [field_absorbJson, husage, field_absorbUsage]
  rfl

theorem get_usage (u : Json) : (Json.object [("usage".toList, u)]).get "usage" = some u := by
  simp [Json.get]

theorem drop_ne_nil (top : TopUsage parse body) {n : Nat} (hwindow : n ≤ top.front.length) :
    body.drop n ≠ [] := by
  intro hnil
  have hlen := congrArg List.length top.body_eq_front
  rw [List.length_append, List.length_cons] at hlen
  have := List.drop_eq_nil_iff.1 hnil
  omega

theorem finishJson_some {tail : Bytes} (htail : tail ≠ []) {v : Json} (hv : parse tail = some v) :
    finishJson parse shape .default tail = Acc.default.absorbJson shape v := by
  rw [finishJson, if_neg htail, hv]

/-- Of a tail that is no document the object behind the last needle gives the counts. -/
theorem observed_finishJson (hparse : ParsesJson parse) (shape : Shape) {tail : Bytes} (htail : tail ≠ [])
    (hnone : parse tail = none) :
    (∀ u, LastUsage parse tail u →
      (finishJson parse shape .default tail).observed shape = usageCounts shape u) ∧
    ((¬∃ u, LastUsage parse tail u) → (finishJson parse shape .default tail).observed shape = noCounts) := by
  rw [finishJson, if_neg htail, hnone]
  dsimp only
  constructor
  · intro u hu
    rw [(bind_lastUsageObject hparse).2 hu]
    rfl
  · intro hno
    have hbind : (lastUsageObject tail).bind parse = none := by
      rw [Option.eq_none_iff_forall_ne_some]
      exact fun u hu => hno ⟨u, (bind_lastUsageObject hparse).1 hu⟩
    rw [hbind]
    cases shape <;> rfl

theorem TopUsage.usageCounts_members (top : TopUsage parse body) :
    usageCounts shape (.object top.members) = top.counts shape :=
  observed_absorbJson (get_usage _)

theorem TopUsage.KeyIsLast.sameCounts {top : TopUsage parse body} (h : top.KeyIsLast) (shape : Shape) :
    top.SameCounts shape := by
  obtain ⟨lead, gap, hbefore, hgap, hlead, hlater⟩ := h
  refine .inl ⟨.object top.members, ⟨(top.space ++ opening :: lead).drop (body.length - jsonTailWindow), gap,
    top.inner, top.rest, ?_, hgap, top.inner_balanced, hlater, top.parse_usage⟩, top.usageCounts_members⟩
  have hsplit : body = (top.space ++ opening :: lead) ++ (needle ++ (gap ++ opening :: top.behind)) := by
    refine top.body_eq_front.trans ?_
    rw [TopUsage.front, hbefore]
    simp only [List.append_assoc, List.cons_append]
  exact (congrArg (List.drop _) hsplit).trans (List.drop_append_of_le_length hlead)

end

/-- The counts recovered are those of the usage object where the window has the document or what stands behind
    its last `"usage"` carries the same. That is so where the key of the usage object is the last one. -/
theorem tail_matches {parse : Bytes → Option Json} (hparse : ParsesJson parse) (shape : Shape)
    (chunks : List Bytes) (top : TopUsage parse chunks.flatten) (hwindow : top.InWindow) :
    (recovered parse shape chunks = top.counts shape ↔ top.Fits ∨ top.SameCounts shape) ∧
      (top.KeyIsLast → recovered parse shape chunks = top.counts shape) := by
  have htail := drop_ne_nil top hwindow
  have hiff : recovered parse shape chunks = top.counts shape ↔ top.Fits ∨ top.SameCounts shape := by
    rw [recovered, feedAll_eq]
    by_cases hfits : top.Fits
    · rw [finishJson_some htail (parse_document hparse top hfits)]
      exact iff_of_true (observed_absorbJson top.usage_eq) (.inl hfits)
    · obtain ⟨hsome, hno⟩ := observed_finishJson hparse shape htail
        (parse_window hparse top (Nat.lt_of_not_le hfits) hwindow)
      rw [or_iff_right hfits]
      by_cases hlast : ∃ u, LastUsage parse (chunks.flatten.drop (chunks.flatten.length - jsonTailWindow)) u
      · obtain ⟨u, hu⟩ := hlast
        rw [hsome u hu]
        constructor
        · exact fun hsame => .inl ⟨u, hu, hsame⟩
        · rintro (⟨u', hu', hsame⟩ | ⟨hnone, -⟩)
          · rwa [hu.unique hparse hu']
          · exact absurd ⟨u, hu⟩ hnone
      · rw [hno hlast]
        constructor
        · exact fun hsame => .inr ⟨hlast, hsame.symm⟩
        · rintro (⟨u, hu, -⟩ | ⟨-, hsame⟩)
          · exact absurd ⟨u, hu⟩ hlast
          · exact hsame.symm
  exact ⟨hiff, fun hkey => hiff.2 (.inr (hkey.sameCounts shape))⟩

/-! ## A body longer than the window -/

/-- What is in front of the usage object, its outer brace apart. -/
def paddedLead : Bytes := wire "\"pad\":\"" ++ (List.replicate jsonTailWindow 0x61 ++ wire "\",")

def fiveInner : Bytes := wire "\"prompt_tokens\":5"

def padded (rest : Bytes) : Bytes :=
  opening :: ((paddedLead ++ (needle ++ [colon])) ++ (opening :: (fiveInner ++ closing :: rest)))

def fiveMembers : List (Str × Json) := [("prompt_tokens".toList, .number (some 5))]

def paddedDocument (more : List (Str × Json)) : Json :=
  .object (("pad".toList, .string (List.replicate jsonTailWindow 'a')) ::
    ("usage".toList, .object fiveMembers) :: more)

/-- A parser that knows the padded body and its usage object. -/
def parsePadded (rest : Bytes) (more : List (Str × Json)) (text : Bytes) : Option Json :=
  let text := text.dropWhile isJsonSpace
  if text = opening :: (fiveInner ++ [closing]) then some (.object fiveMembers)
  else if text = padded rest then some (paddedDocument more)
  else none

theorem balanced_paddedBefore : Balanced (paddedLead ++ (needle ++ [colon])) := by
  have hkey : scan (.outside, 0) (wire "\"pad\":\"") = some (.inside, 0) := by decide
  have hfill : scan (.inside, 0) (List.replicate jsonTailWindow 0x61) = some (.inside, 0) :=
    scan_of_plain (by decide) 0 fun b hb => by
      rw [List.eq_of_mem_replicate hb]
      decide
  have hclose : scan (.inside, 0) (wire "\"," ++ (needle ++ [colon])) = some (.outside, 0) := by decide
  rw [paddedLead, List.append_assoc, List.append_assoc, Braces.Balanced, scan_append, hkey, Option.bind_some,
    scan_append, hfill]
  exact hclose

theorem balanced_padded {rest : Bytes} (hrest : scan (.outside, 1) rest = some (.outside, 0)) :
    Balanced (padded rest) := by
  have hopen : step (.outside, 0) opening = some (.outside, 1) := rfl
  have hobject : scan (.outside, 1) ((opening :: (fiveInner ++ [closing])) ++ rest) = some (.outside, 0) := by
    have hfive : scan (.outside, 1) (opening :: (fiveInner ++ [closing])) = some (.outside, 1) := by
      decide
    rw [scan_append, hfive]
    exact hrest
  rw [Braces.Balanced, padded, scan, hopen, Option.bind_some, scan_append, balanced_paddedBefore.scan,
    Option.bind_some, ← hobject]
  simp only [List.cons_append, List.append_assoc, List.nil_append]

theorem parsesJson_parsePadded {rest : Bytes} (hrest : scan (.outside, 1) rest = some (.outside, 0))
    (more : List (Str × Json)) : ParsesJson (parsePadded rest more) where
  balanced := by
    intro text v hv
    have hspace : Balanced (text.takeWhile isJsonSpace) :=
      scan_of_plain (by decide) 0 fun b hb => isPlain_of_isJsonSpace (List.mem_takeWhile_imp hb)
    rw [← text.takeWhile_append_dropWhile (p := isJsonSpace)]
    refine hspace.append ?_
    unfold parsePadded at hv
    dsimp only at hv
    split_ifs at hv with hobject hbody
    · rw [hobject]
      decide
    · rw [hbody]
      exact balanced_padded hrest
  skipsSpace := by
    intro space text hspace
    unfold parsePadded
    rw [List.dropWhile_append_of_pos fun b hb => List.all_eq_true.1 hspace b hb]

theorem length_paddedLead : paddedLead.length = jsonTailWindow + 9 := by
  have hkey : (wire "\"pad\":\"").length = 7 := by decide
  have hclose : (wire "\",").length = 2 := by decide
  rw [paddedLead, List.length_append, List.length_append, List.length_replicate]
  omega

theorem length_padded (rest : Bytes) : (padded rest).length = rest.length + 37 + jsonTailWindow := by
  have hkey : (needle ++ [colon]).length = 8 := by decide
  have hobject : fiveInner.length = 17 := by decide
  rw [padded]
  simp only [List.length_cons, List.length_append, length_paddedLead] at hkey ⊢
  generalize jsonTailWindow = w
  omega

theorem padded_ne (rest : Bytes) : padded rest ≠ opening :: (fiveInner ++ [closing]) := by
  intro h
  have hlen := congrArg List.length h
  have hobject : (opening :: (fiveInner ++ [closing])).length = 19 := by decide
  rw [length_padded, hobject] at hlen
  omega

theorem parsePadded_padded (rest : Bytes) (more : List (Str × Json)) :
    parsePadded rest more (padded rest) = some (paddedDocument more) := by
  have hspace : (padded rest).dropWhile isJsonSpace = padded rest :=
    List.dropWhile_cons_of_neg (by decide)
  rw [parsePadded, hspace]
  rw [if_neg (padded_ne rest), if_pos rfl]

theorem parsePadded_five (rest : Bytes) (more : List (Str × Json)) :
    parsePadded rest more (opening :: (fiveInner ++ [closing])) = some (.object fiveMembers) := by
  rw [parsePadded, List.dropWhile_cons_of_neg (by decide)]
  rw [if_pos rfl]

/-- The usage object of the padded body. -/
def paddedUsage (rest : Bytes) (more : List (Str × Json))
    (husage : (paddedDocument more).get "usage" = some (.object fiveMembers)) :
    TopUsage (parsePadded rest more) [padded rest].flatten where
  space := []
  before := paddedLead ++ (needle ++ [colon])
  inner := fiveInner
  rest := rest
  body_eq := List.flatten_singleton
  space_white := rfl
  before_balanced := balanced_paddedBefore
  inner_balanced := by decide
  document := paddedDocument more
  members := fiveMembers
  parse_body := by rw [List.flatten_singleton, parsePadded_padded]
  usage_eq := husage
  parse_usage := parsePadded_five rest more

theorem dropped_padded (rest : Bytes) : [padded rest].flatten.length - jsonTailWindow = rest.length + 37 := by
  rw [List.flatten_singleton, length_padded, Nat.add_sub_cancel]

section

variable {rest : Bytes} {more : List (Str × Json)}
  {husage : (paddedDocument more).get "usage" = some (.object fiveMembers)}

theorem front_padded :
    (paddedUsage rest more husage).front = opening :: (paddedLead ++ (needle ++ [colon])) := rfl

theorem inWindow_padded (hrest : rest.length ≤ 20) : (paddedUsage rest more husage).InWindow := by
  have hwindow : 64 ≤ jsonTailWindow := by decide
  rw [TopUsage.InWindow, dropped_padded, front_padded, List.length_cons, List.length_append, length_paddedLead]
  omega

theorem keyIsLast_padded (hrest : rest.length ≤ 20)
    (hlater : ¬needle <:+: [colon] ++ opening :: (fiveInner ++ closing :: rest)) :
    (paddedUsage rest more husage).KeyIsLast := by
  have hwindow : 64 ≤ jsonTailWindow := by decide
  refine ⟨paddedLead, [colon], rfl, by decide, ?_, hlater⟩
  have hspace : (paddedUsage rest more husage).space = [] := rfl
  rw [dropped_padded, hspace, List.nil_append, List.length_cons, length_paddedLead]
  omega

end

/-- A text in which `"usage"` stands as a value at the end. -/
def later : Bytes := wire ",\"object\":" ++ (needle ++ [closing])

def laterMembers : List (Str × Json) := [("object".toList, .string "usage".toList)]

theorem lastUsageObject_later : lastUsageObject ([padded later].flatten.drop (later.length + 37)) = none := by
  have hlen : later.length = 18 := by decide
  have hwindow : 64 ≤ jsonTailWindow := by decide
  have hsplit : [padded later].flatten = (opening :: ((paddedLead ++ (needle ++ [colon])) ++
      (opening :: (fiveInner ++ closing :: wire ",\"object\":")))) ++ (needle ++ [closing]) := by
    rw [List.flatten_singleton, padded, later]
    simp only [List.cons_append, List.append_assoc]
  have hdrop : later.length + 37 ≤ (opening :: ((paddedLead ++ (needle ++ [colon])) ++
      (opening :: (fiveInner ++ closing :: wire ",\"object\":")))).length := by
    rw [hlen, List.length_cons, List.length_append, List.length_append, length_paddedLead]
    omega
  rw [hsplit, List.drop_append_of_le_length hdrop, lastUsageObject,
    lastStart_append (by decide) (by decide)]
  rfl

theorem recovered_later : recovered (parsePadded later laterMembers) .openAi [padded later] = noCounts := by
  have hclosed : scan (.outside, 1) later = some (.outside, 0) := by decide
  have hparse := parsesJson_parsePadded hclosed laterMembers
  have hwindow : (paddedUsage later laterMembers rfl).InWindow := inWindow_padded (by decide)
  have htail := drop_ne_nil _ hwindow
  rw [TopUsage.InWindow] at hwindow
  rw [dropped_padded] at hwindow htail
  rw [recovered, feedAll_eq, dropped_padded]
  have hnone := parse_window hparse (paddedUsage later laterMembers rfl) (Nat.succ_pos (later.length + 36))
    hwindow
  refine (observed_finishJson hparse .openAi htail hnone).2 ?_
  rintro ⟨u, hu⟩
  have hbind := (bind_lastUsageObject hparse).2 hu
  rw [lastUsageObject_later] at hbind
  cases hbind

/-- A value `"usage"` behind the usage object hides it: the window has the object, and no counts are
    recovered. -/
theorem later_usage_hides :
    ¬∀ (parse : Bytes → Option Json) (shape : Shape) (chunks : List Bytes)
      (top : TopUsage parse chunks.flatten), ParsesJson parse → top.InWindow →
        recovered parse shape chunks = top.counts shape := by
  intro h
  have hclosed : scan (.outside, 1) later = some (.outside, 0) := by decide
  have hsame := h _ .openAi [padded later] (paddedUsage later laterMembers rfl)
    (parsesJson_parsePadded hclosed laterMembers) (inWindow_padded (by decide))
  rw [recovered_later] at hsame
  cases congrArg Prod.fst hsame

theorem tail_matches_padded :
    recovered (parsePadded [closing] []) .openAi [padded [closing]] = (some 5, none, none, none) :=
  (tail_matches (parsesJson_parsePadded rfl []) .openAi [padded [closing]] (paddedUsage [closing] [] rfl)
    (inWindow_padded (by decide))).2 (keyIsLast_padded (by decide) (by decide))

end Tethra.Gateway.UsageTail
