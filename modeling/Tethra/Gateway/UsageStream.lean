import Tethra.Gateway.UsageExtract
import Tethra.Gateway.WireHead

set_option autoImplicit false

/-! # Usage in event streams (`gateway/src/usage.rs`)

The extractor takes one byte after the other and holds one line and one event. A line that is too long is
dropped each time the buffer is full, so what is left of it at its end may be nothing, and then it is taken
for the end of the event.

The reference cuts the stream into lines and events as the format of event streams says, and drops an event
with a line or data over the limit. Here the extractor is brought from bytes to lines and from lines to
events: what it scans and counts of an event does not depend on what was before (`onBlock_eq`). -/

namespace Tethra.Gateway

/-! ## The extractor -/

/-- `MAX_EVENT`. -/
def maxEvent : Nat := 128 * 1024

/-- `MAX_LINE`. -/
def maxLine : Nat := maxEvent

/-- `UsageExtractor` of a stream. What it does with the data of an event is a parameter of the functions. -/
structure UsageExtractor (σ : Type) where
  line : Bytes
  event : Bytes
  oversized : Bool
  droppedEvents : Nat
  acc : σ

def dataColon : Bytes := wire "data:"

/-- `strip_prefix`. -/
def afterPrefix (start line : Bytes) : Option Bytes :=
  if start.isPrefixOf line then some (line.drop start.length) else none

def dropSpace (value : Bytes) : Bytes :=
  match value with
  | 0x20 :: rest => rest
  | _ => value

/-- `strip_suffix(b"\r")`, or the line itself. -/
def dropCr (line : Bytes) : Bytes := if line.getLast? = some cr then line.dropLast else line

namespace UsageExtractor

variable {σ : Type}

def init (acc : σ) : UsageExtractor σ := ⟨[], [], false, 0, acc⟩

/-- The end of an event. -/
def onBoundary (scan : σ → Bytes → σ) (s : UsageExtractor σ) : UsageExtractor σ :=
  let ended := { s with event := [], oversized := false }
  if s.oversized then { ended with droppedEvents := s.droppedEvents + 1 }
  else if s.event ≠ [] then { ended with acc := scan s.acc s.event }
  else ended

def onData (s : UsageExtractor σ) (rest : Bytes) : UsageExtractor σ :=
  if maxEvent < s.event.length + rest.length + 1 then { s with oversized := true, event := [] }
  else { s with event := (if s.event = [] then [] else s.event ++ [lf]) ++ rest }

/-- Fields other than `data`, and comments, are ignored. -/
def onField (s : UsageExtractor σ) (line : Bytes) : UsageExtractor σ :=
  match afterPrefix dataColon line with
  | some rest => s.onData (dropSpace rest)
  | none => s

def onLine (scan : σ → Bytes → σ) (s : UsageExtractor σ) (line : Bytes) : UsageExtractor σ :=
  let line := dropCr line
  if line = [] then s.onBoundary scan
  else if s.oversized then s
  else s.onField line

def feedByte (scan : σ → Bytes → σ) (s : UsageExtractor σ) (b : UInt8) : UsageExtractor σ :=
  if b = lf then { s with line := [] }.onLine scan s.line
  else if maxLine ≤ s.line.length then { s with oversized := true, line := [] }
  else { s with line := s.line ++ [b] }

def feed (scan : σ → Bytes → σ) (s : UsageExtractor σ) (bytes : Bytes) : UsageExtractor σ :=
  bytes.foldl (feedByte scan) s

def run (scan : σ → Bytes → σ) (acc : σ) (chunks : List Bytes) : UsageExtractor σ :=
  chunks.foldl (feed scan) (init acc)

end UsageExtractor

/-! ## The reference -/

namespace Sse

/-- The byte order mark that may begin a stream. -/
def bom : Bytes := [0xef, 0xbb, 0xbf]

/-- The lines that have ended, by a carriage return, a line feed or both. -/
def linesFrom (line : Bytes) : Bytes → List Bytes
  | [] => []
  | 13 :: 10 :: rest => line :: linesFrom [] rest
  | 13 :: rest => line :: linesFrom [] rest
  | 10 :: rest => line :: linesFrom [] rest
  | b :: rest => linesFrom (line ++ [b]) rest

def lines (stream : Bytes) : List Bytes :=
  linesFrom [] (if bom.isPrefixOf stream then stream.drop bom.length else stream)

/-- The lines of each event that has ended. -/
def blocks {α : Type} (isBlank : α → Bool) (block : List α) : List α → List (List α)
  | [] => []
  | l :: ls => if isBlank l then block :: blocks isBlank [] ls else blocks isBlank (block ++ [l]) ls

/-- The lines behind the last event that has ended. -/
def pending {α : Type} (isBlank : α → Bool) (block : List α) : List α → List α
  | [] => block
  | l :: ls => if isBlank l then pending isBlank [] ls else pending isBlank (block ++ [l]) ls

def isBlank (line : Bytes) : Bool := line = []

/-- The value of a `data` field; a field without a colon has an empty one. -/
def dataValue (line : Bytes) : Option Bytes :=
  if line.takeWhile (· ≠ colon) = wire "data" then some (dropSpace ((line.dropWhile (· ≠ colon)).drop 1))
  else none

def values (event : List Bytes) : List Bytes := event.filterMap dataValue

def data (event : List Bytes) : Bytes := [lf].intercalate (values event)

/-- A line of the event, or its data, is over the limit. -/
def isOver (event : List Bytes) : Bool :=
  event.any (fun line => maxLine < line.length) || maxEvent < (data event).length

/-- An event that is over the limit is dropped and counted; another is scanned if it has data. -/
def step {σ : Type} (scan : σ → Bytes → σ) (s : σ × Nat) (event : List Bytes) : σ × Nat :=
  if isOver event then (s.1, s.2 + 1)
  else if values event = [] then s
  else (scan s.1 (data event), s.2)

def run {σ : Type} (scan : σ → Bytes → σ) (acc : σ) (stream : Bytes) : σ × Nat :=
  (blocks isBlank [] (lines stream)).foldl (step scan) (acc, 0)

end Sse

/-! ## Buffers and chunks -/

namespace UsageExtractor

variable {σ : Type} {scan : σ → Bytes → σ} {s : UsageExtractor σ}

theorem onField_cases (s : UsageExtractor σ) (line : Bytes) :
    s.onField line = s ∨ ∃ rest, s.onField line = s.onData rest := by
  unfold UsageExtractor.onField
  cases afterPrefix dataColon line with
  | none => exact .inl rfl
  | some rest => exact .inr ⟨dropSpace rest, rfl⟩

/-- An empty line ends the event, and another adds data or does nothing. -/
theorem onLine_cases (scan : σ → Bytes → σ) (s : UsageExtractor σ) (line : Bytes) :
    dropCr line = [] ∧ s.onLine scan line = s.onBoundary scan ∨
      dropCr line ≠ [] ∧ (s.onLine scan line = s ∨ ∃ rest, s.onLine scan line = s.onData rest) := by
  unfold UsageExtractor.onLine
  dsimp only
  by_cases hblank : dropCr line = []
  · exact .inl ⟨hblank, if_pos hblank⟩
  · rw [if_neg hblank]
    by_cases hover : s.oversized = true
    · exact .inr ⟨hblank, .inl (if_pos hover)⟩
    · rw [if_neg hover]
      exact .inr ⟨hblank, onField_cases s (dropCr line)⟩

/-- What a line does goes along with a map of states that the end of an event and data go along with. -/
theorem map_onLine {τ : Type} {scan' : τ → Bytes → τ} (f : UsageExtractor σ → UsageExtractor τ)
    (hover : ∀ s, (f s).oversized = s.oversized)
    (hboundary : ∀ s, (f s).onBoundary scan' = f (s.onBoundary scan))
    (hdata : ∀ s rest, (f s).onData rest = f (s.onData rest)) (s : UsageExtractor σ) (line : Bytes) :
    (f s).onLine scan' line = f (s.onLine scan line) := by
  unfold UsageExtractor.onLine
  dsimp only
  rw [hover]
  by_cases hblank : dropCr line = []
  · rw [if_pos hblank, if_pos hblank, hboundary]
  · rw [if_neg hblank, if_neg hblank]
    by_cases hbig : s.oversized = true
    · rw [if_pos hbig, if_pos hbig]
    · rw [if_neg hbig, if_neg hbig]
      unfold UsageExtractor.onField
      cases afterPrefix dataColon (dropCr line) with
      | none => rfl
      | some rest => exact hdata s (dropSpace rest)

/-- The buffers are within their bounds. -/
def Bounded (s : UsageExtractor σ) : Prop := s.line.length ≤ maxLine ∧ s.event.length ≤ maxEvent

theorem Bounded.onBoundary (h : s.Bounded) : (s.onBoundary scan).Bounded := by
  unfold UsageExtractor.onBoundary
  dsimp only
  split_ifs <;> exact ⟨h.1, Nat.zero_le _⟩

theorem Bounded.onData (h : s.Bounded) (rest : Bytes) : (s.onData rest).Bounded := by
  unfold UsageExtractor.onData
  split_ifs with hfits hnil
  · exact ⟨h.1, Nat.zero_le _⟩
  · refine ⟨h.1, ?_⟩
    simp only [List.nil_append]
    omega
  · refine ⟨h.1, ?_⟩
    simp only [List.length_append, List.length_singleton]
    omega

theorem Bounded.onLine (h : s.Bounded) (line : Bytes) : (s.onLine scan line).Bounded := by
  rcases onLine_cases scan s line with ⟨-, hends⟩ | ⟨-, hsame | ⟨rest, hadds⟩⟩
  · rw [hends]
    exact h.onBoundary
  · rw [hsame]
    exact h
  · rw [hadds]
    exact h.onData rest

theorem Bounded.feedByte (h : s.Bounded) (b : UInt8) : (s.feedByte scan b).Bounded := by
  unfold UsageExtractor.feedByte
  split_ifs with hlf hfull
  · have hempty : Bounded { s with line := [] } := ⟨Nat.zero_le _, h.2⟩
    exact hempty.onLine s.line
  · exact ⟨Nat.zero_le _, h.2⟩
  · refine ⟨?_, h.2⟩
    simp only [List.length_append, List.length_singleton]
    omega

theorem Bounded.feed (h : s.Bounded) (bytes : Bytes) : (s.feed scan bytes).Bounded := by
  unfold UsageExtractor.feed
  induction bytes generalizing s with
  | nil => exact h
  | cons b bytes ih => exact ih (h.feedByte b)

/-- However the stream is cut into chunks, its bytes are fed. -/
theorem run_eq (scan : σ → Bytes → σ) (acc : σ) (chunks : List Bytes) :
    run scan acc chunks = (init acc).feed scan chunks.flatten := by
  rw [run, UsageExtractor.feed, List.foldl_flatten]
  rfl

theorem bounded_run (scan : σ → Bytes → σ) (acc : σ) (chunks : List Bytes) :
    (run scan acc chunks).Bounded := by
  rw [run_eq]
  exact Bounded.feed ⟨Nat.zero_le _, Nat.zero_le _⟩ _

/-! ## What is scanned -/

/-- The extractor that keeps what it would scan. -/
abbrev Trace : Type := UsageExtractor (List Bytes)

def keep (scanned : List Bytes) (data : Bytes) : List Bytes := scanned ++ [data]

/-- The state that has scanned what the trace has kept. -/
def Trace.scanWith (scan : σ → Bytes → σ) (acc : σ) (t : Trace) : UsageExtractor σ where
  line := t.line
  event := t.event
  oversized := t.oversized
  droppedEvents := t.droppedEvents
  acc := t.acc.foldl scan acc

theorem onBoundary_scanWith (scan : σ → Bytes → σ) (acc : σ) (t : Trace) :
    (t.scanWith scan acc).onBoundary scan = Trace.scanWith scan acc (t.onBoundary keep) := by
  by_cases hover : t.oversized = true
  · simp [onBoundary, Trace.scanWith, hover]
  · by_cases hevent : t.event = []
    · simp [onBoundary, Trace.scanWith, hover, hevent]
    · simp [onBoundary, Trace.scanWith, hover, hevent, keep]

theorem onData_scanWith (scan : σ → Bytes → σ) (acc : σ) (t : Trace) (rest : Bytes) :
    (t.scanWith scan acc).onData rest = Trace.scanWith scan acc (t.onData rest) := by
  have hevent : (t.scanWith scan acc).event = t.event := rfl
  rw [onData, onData, hevent]
  by_cases hfits : maxEvent < t.event.length + rest.length + 1
  · rw [if_pos hfits, if_pos hfits]
    rfl
  · rw [if_neg hfits, if_neg hfits]
    rfl

theorem onLine_scanWith (scan : σ → Bytes → σ) (acc : σ) (t : Trace) (line : Bytes) :
    (t.scanWith scan acc).onLine scan line = Trace.scanWith scan acc (t.onLine keep line) :=
  map_onLine (Trace.scanWith scan acc) (fun _ => rfl) (onBoundary_scanWith scan acc) (onData_scanWith scan acc)
    t line

theorem feed_scanWith (scan : σ → Bytes → σ) (acc : σ) (t : Trace) (bytes : Bytes) :
    (t.scanWith scan acc).feed scan bytes = Trace.scanWith scan acc (t.feed keep bytes) := by
  induction bytes generalizing t with
  | nil => rfl
  | cons b bytes ih =>
      have hstep : (t.scanWith scan acc).feedByte scan b = Trace.scanWith scan acc (t.feedByte keep b) := by
        have hline : (t.scanWith scan acc).line = t.line := rfl
        unfold feedByte
        rw [hline]
        by_cases hlf : b = lf
        · rw [if_pos hlf, if_pos hlf]
          exact onLine_scanWith scan acc { t with line := [] } t.line
        · rw [if_neg hlf, if_neg hlf]
          by_cases hfull : maxLine ≤ t.line.length
          · rw [if_pos hfull, if_pos hfull]
            rfl
          · rw [if_neg hfull, if_neg hfull]
            rfl
      rw [feed, List.foldl_cons, hstep]
      exact ih _

/-! ## Lines -/

/-- What is in the buffer of a line at its end. -/
def residual (raw : Bytes) : Bytes := raw.drop (raw.length / (maxLine + 1) * (maxLine + 1))

theorem length_residual (raw : Bytes) : (residual raw).length = raw.length % (maxLine + 1) := by
  rw [residual, List.length_drop, Nat.mod_eq_sub_mul_div, Nat.mul_comm]

theorem residual_of_le {raw : Bytes} (h : raw.length ≤ maxLine) : residual raw = raw := by
  rw [residual, Nat.div_eq_of_lt (by omega), Nat.zero_mul, List.drop_zero]

/-- A byte more: the buffer is emptied by it when it is full. -/
theorem residual_concat (raw : Bytes) (b : UInt8) :
    residual (raw ++ [b]) = if maxLine ≤ (residual raw).length then [] else residual raw ++ [b] := by
  have hmod := Nat.div_add_mod raw.length (maxLine + 1)
  have hlt : raw.length % (maxLine + 1) < maxLine + 1 := Nat.mod_lt _ (Nat.succ_pos maxLine)
  rw [length_residual]
  split_ifs with hfull
  · have heq : raw.length % (maxLine + 1) = maxLine := by omega
    have hlen : (raw ++ [b]).length = (raw.length / (maxLine + 1) + 1) * (maxLine + 1) := by
      rw [List.length_append, List.length_singleton, Nat.add_mul, Nat.mul_comm]
      omega
    rw [residual, hlen, Nat.mul_div_cancel _ (Nat.succ_pos maxLine), ← hlen, List.drop_length]
  · have hdiv : (raw ++ [b]).length / (maxLine + 1) = raw.length / (maxLine + 1) := by
      rw [List.length_append, List.length_singleton]
      refine Nat.div_eq_of_lt_le ?_ ?_
      · rw [Nat.mul_comm]
        omega
      · rw [Nat.add_mul, Nat.mul_comm]
        omega
    rw [residual, hdiv, List.drop_append_of_le_length (Nat.div_mul_le_self _ _), residual]

theorem feed_append_cons (scan : σ → Bytes → σ) (s : UsageExtractor σ) (line : Bytes) (b : UInt8)
    (bytes : Bytes) :
    s.feed scan (line ++ b :: bytes) = ((s.feed scan line).feedByte scan b).feed scan bytes := by
  simp [feed]

/-- The bytes of a line leave its residual in the buffer. -/
theorem feed_line (scan : σ → Bytes → σ) {s : UsageExtractor σ} (hs : s.line = []) {raw : Bytes}
    (hraw : lf ∉ raw) :
    s.feed scan raw =
      { s with line := residual raw, oversized := s.oversized || decide (maxLine < raw.length) } := by
  induction raw using List.reverseRecOn with
  | nil =>
      obtain ⟨line, event, oversized, dropped, acc⟩ := s
      obtain rfl : line = [] := hs
      simp [feed, residual]
  | append_singleton raw b ih =>
      simp only [List.mem_append, List.mem_singleton, not_or] at hraw
      have hb : b ≠ lf := fun h => hraw.2 h.symm
      have hconcat : s.feed scan (raw ++ [b]) = (s.feed scan raw).feedByte scan b :=
        feed_append_cons scan s raw b []
      rw [hconcat, ih hraw.1, feedByte, if_neg hb, residual_concat]
      dsimp only
      have hconcatlen : (raw ++ [b]).length = raw.length + 1 := by simp
      rw [hconcatlen]
      by_cases hfull : maxLine ≤ (residual raw).length
      · have hle : maxLine ≤ raw.length := hfull.trans (length_residual raw ▸ Nat.mod_le _ _)
        have hover : decide (maxLine < raw.length + 1) = true := decide_eq_true (by omega)
        rw [if_pos hfull, if_pos hfull, hover, Bool.or_true]
      · have hsame : decide (maxLine < raw.length + 1) = decide (maxLine < raw.length) := by
          rw [decide_eq_decide]
          refine ⟨fun h => ?_, fun h => by omega⟩
          by_contra hle
          rw [residual_of_le (by omega)] at hfull
          omega
        rw [if_neg hfull, if_neg hfull, hsame]

/-- A line with its line feed. -/
def onRaw (t : Trace) (raw : Bytes) : Trace :=
  { t with oversized := t.oversized || decide (maxLine < raw.length) }.onLine keep (residual raw)

theorem line_onBoundary (t : Trace) : (t.onBoundary keep).line = t.line := by
  unfold onBoundary
  dsimp only
  split_ifs <;> rfl

theorem line_onData (t : Trace) (rest : Bytes) : (t.onData rest).line = t.line := by
  unfold onData
  split_ifs <;> rfl

theorem line_onLine (t : Trace) (line : Bytes) : (t.onLine keep line).line = t.line := by
  rcases onLine_cases keep t line with ⟨-, hends⟩ | ⟨-, hsame | ⟨rest, hadds⟩⟩
  · rw [hends, line_onBoundary]
  · rw [hsame]
  · rw [hadds, line_onData]

theorem line_onRaw (t : Trace) (raw : Bytes) : (t.onRaw raw).line = t.line := line_onLine _ _

/-- The lines that a line feed ends. -/
def rawLines (stream : Bytes) : List Bytes := Sse.blocks (· = lf) [] stream

theorem feed_blocks {t : Trace} (ht : t.line = []) {line : Bytes} (hline : lf ∉ line) (bytes : Bytes) :
    (t.feed keep (line ++ bytes)).acc = ((Sse.blocks (· = lf) line bytes).foldl onRaw t).acc ∧
      (t.feed keep (line ++ bytes)).droppedEvents =
        ((Sse.blocks (· = lf) line bytes).foldl onRaw t).droppedEvents := by
  induction bytes generalizing t line with
  | nil =>
      rw [List.append_nil, feed_line keep ht hline]
      exact ⟨rfl, rfl⟩
  | cons b bytes ih =>
      by_cases hb : b = lf
      · subst hb
        have hend : t.feed keep (line ++ lf :: bytes) = (t.onRaw line).feed keep ([] ++ bytes) := by
          rw [feed_append_cons, feed_line keep ht hline, feedByte, if_pos rfl]
          obtain ⟨line', event, oversized, dropped, acc⟩ := t
          obtain rfl : line' = [] := ht
          rfl
        rw [hend, Sse.blocks, if_pos (by simp), List.foldl_cons]
        exact ih ((line_onRaw t line).trans ht) List.not_mem_nil
      · rw [Sse.blocks, if_neg (by simpa using hb), List.append_cons]
        exact ih ht (by simp [hline, Ne.symm hb])

/-! ## Events -/

def clean (dropped : Nat) (acc : List Bytes) : Trace := ⟨[], [], false, dropped, acc⟩

/-- The lines of an event, from where nothing is held, and its end. -/
def onBlock (s : List Bytes × Nat) (raws : List Bytes) : List Bytes × Nat :=
  let t := (raws.foldl onRaw (clean s.2 s.1)).onBoundary keep
  (t.acc, t.droppedEvents)

/-- The line is empty without its end. -/
def isBlankRaw (raw : Bytes) : Bool := Sse.isBlank (dropCr raw)

theorem onBoundary_eq_clean {t : Trace} (ht : t.line = []) :
    t.onBoundary keep = clean (t.onBoundary keep).droppedEvents (t.onBoundary keep).acc := by
  unfold onBoundary clean
  dsimp only
  split_ifs <;> simp [ht]

theorem length_le_of_isBlankRaw {raw : Bytes} (h : isBlankRaw raw = true) : raw.length ≤ 1 := by
  have hnil : dropCr raw = [] := by simpa [isBlankRaw, Sse.isBlank] using h
  unfold dropCr at hnil
  split_ifs at hnil
  · have := congrArg List.length hnil
    rw [List.length_dropLast, List.length_nil] at this
    omega
  · simp [hnil]

theorem one_le_maxLine : 1 ≤ maxLine := by decide

theorem onRaw_of_isBlankRaw {raw : Bytes} (h : isBlankRaw raw = true) (t : Trace) :
    t.onRaw raw = t.onBoundary keep := by
  have hle : raw.length ≤ maxLine := (length_le_of_isBlankRaw h).trans one_le_maxLine
  have hnil : dropCr raw = [] := by simpa [isBlankRaw, Sse.isBlank] using h
  have hfits : decide (maxLine < raw.length) = false := decide_eq_false (by omega)
  rw [onRaw, hfits, Bool.or_false, residual_of_le hle, onLine, if_pos hnil]

theorem line_foldl_onRaw {t : Trace} (ht : t.line = []) (raws : List Bytes) :
    (raws.foldl onRaw t).line = [] := by
  induction raws generalizing t with
  | nil => exact ht
  | cons raw raws ih => exact ih ((line_onRaw t raw).trans ht)

/-- The events that have ended are handled one by one, and the rest stays. -/
theorem foldl_onRaw_eq (s : List Bytes × Nat) (block raws : List Bytes) :
    raws.foldl onRaw (block.foldl onRaw (clean s.2 s.1)) =
      (Sse.pending isBlankRaw block raws).foldl onRaw
        (clean ((Sse.blocks isBlankRaw block raws).foldl onBlock s).2
          ((Sse.blocks isBlankRaw block raws).foldl onBlock s).1) := by
  induction raws generalizing s block with
  | nil => rfl
  | cons raw raws ih =>
      rw [List.foldl_cons, Sse.pending, Sse.blocks]
      by_cases hblank : isBlankRaw raw = true
      · rw [if_pos hblank, if_pos hblank, onRaw_of_isBlankRaw hblank, List.foldl_cons,
          onBoundary_eq_clean (line_foldl_onRaw rfl block)]
        exact ih (onBlock s block) []
      · rw [if_neg hblank, if_neg hblank, ← ih s (block ++ [raw]), List.foldl_append, List.foldl_cons,
          List.foldl_nil]

/-! ## What the lines of an event add -/

/-- A state with more behind it. -/
def shift (s : List Bytes × Nat) (t : Trace) : Trace :=
  { t with droppedEvents := s.2 + t.droppedEvents, acc := s.1 ++ t.acc }

theorem onBoundary_shift (s : List Bytes × Nat) (t : Trace) :
    (shift s t).onBoundary keep = shift s (t.onBoundary keep) := by
  by_cases hover : t.oversized = true
  · simp [onBoundary, shift, hover, Nat.add_assoc]
  · by_cases hevent : t.event = []
    · simp [onBoundary, shift, hover, hevent]
    · simp [onBoundary, shift, hover, hevent, keep]

theorem onData_shift (s : List Bytes × Nat) (t : Trace) (rest : Bytes) :
    (shift s t).onData rest = shift s (t.onData rest) := by
  have hevent : (shift s t).event = t.event := rfl
  rw [onData, onData, hevent]
  by_cases hfits : maxEvent < t.event.length + rest.length + 1
  · rw [if_pos hfits, if_pos hfits]
    rfl
  · rw [if_neg hfits, if_neg hfits]
    rfl

theorem onRaw_shift (s : List Bytes × Nat) (t : Trace) (raw : Bytes) :
    (shift s t).onRaw raw = shift s (t.onRaw raw) :=
  map_onLine (shift s) (fun _ => rfl) (onBoundary_shift s) (onData_shift s)
    { t with oversized := t.oversized || decide (maxLine < raw.length) } (residual raw)

theorem foldl_onRaw_shift (s : List Bytes × Nat) (t : Trace) (raws : List Bytes) :
    raws.foldl onRaw (shift s t) = shift s (raws.foldl onRaw t) := by
  induction raws generalizing t with
  | nil => rfl
  | cons raw raws ih => rw [List.foldl_cons, List.foldl_cons, onRaw_shift, ih]

/-- What an event adds does not depend on what was before it. -/
theorem onBlock_eq (s : List Bytes × Nat) (raws : List Bytes) :
    onBlock s raws = (s.1 ++ (onBlock ([], 0) raws).1, s.2 + (onBlock ([], 0) raws).2) := by
  have hclean : clean s.2 s.1 = shift s (clean 0 []) := by simp [clean, shift]
  unfold onBlock
  rw [hclean, foldl_onRaw_shift, onBoundary_shift]
  rfl

end UsageExtractor

end Tethra.Gateway
