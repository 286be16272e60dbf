import Tethra.Gateway.UsageStream

set_option autoImplicit false

/-! # Events split by long lines (`gateway/src/usage.rs`)

An event none of whose lines is cut off to nothing is handled as in the format. Such a line ends the event
and counts it, and what is behind it is taken for an event of its own: it must have no more to count or to
scan, and the format must drop the event too. Summed over the events of a stream, nothing makes up for a
difference in one, so the extractor agrees with the reference exactly when no event is split
(`usage_stream_matches`). -/

namespace Tethra.Gateway

namespace UsageExtractor

/-! ## Lines that are cut off to nothing -/

/-- The line is over the limit, and the buffer is empty at its end, or has its carriage return. -/
def isCut (raw : Bytes) : Bool :=
  maxLine < raw.length &&
    (raw.length % (maxLine + 1) = 0 || raw.length % (maxLine + 1) = 1 && raw.getLast? = some cr)

theorem dropCr_eq_nil {line : Bytes} : dropCr line = [] ↔ line = [] ∨ line = [cr] := by
  unfold dropCr
  constructor
  · intro h
    split_ifs at h with hlast
    · right
      have hconcat := List.dropLast_append_getLast? cr hlast
      rw [h] at hconcat
      exact hconcat.symm
    · exact .inl h
  · rintro (rfl | rfl) <;> rfl

theorem residual_eq_singleton {raw : Bytes} {b : UInt8} :
    residual raw = [b] ↔ raw.length % (maxLine + 1) = 1 ∧ raw.getLast? = some b := by
  rw [← length_residual]
  have hsuffix : residual raw <:+ raw := List.drop_suffix _ _
  obtain ⟨before, hbefore⟩ := hsuffix
  constructor
  · intro h
    rw [h] at hbefore
    rw [h, ← hbefore]
    simp
  · rintro ⟨hlen, hlast⟩
    obtain ⟨c, hc⟩ := List.length_eq_one_iff.1 hlen
    rw [hc] at hbefore
    rw [← hbefore, List.getLast?_concat] at hlast
    rw [hc, Option.some.inj hlast]

/-- Of the lines that are not blank, these and no others end as a blank one. -/
theorem dropCr_residual {raw : Bytes} (h : isBlankRaw raw = false) :
    dropCr (residual raw) = [] ↔ isCut raw = true := by
  by_cases hle : raw.length ≤ maxLine
  · have hnil : dropCr raw ≠ [] := by simpa [isBlankRaw, Sse.isBlank] using h
    have hfits : ¬maxLine < raw.length := by omega
    rw [residual_of_le hle]
    simp [hnil, isCut, hfits]
  · have hover : maxLine < raw.length := by omega
    rw [dropCr_eq_nil, residual_eq_singleton, ← List.length_eq_zero_iff, length_residual]
    simp [isCut, hover]

/-- A line that is cut off to nothing ends the event, and is counted. -/
theorem onRaw_of_isCut {raw : Bytes} (hblank : isBlankRaw raw = false) (hcut : isCut raw = true)
    {t : Trace} (ht : t.line = []) : t.onRaw raw = clean (t.droppedEvents + 1) t.acc := by
  have hover : decide (maxLine < raw.length) = true := (Bool.and_eq_true_iff.1 hcut).1
  rw [onRaw, hover, Bool.or_true, onLine, if_pos ((dropCr_residual hblank).2 hcut)]
  simp [onBoundary, clean, ht]

/-- The data that is added by a line that is not cut. -/
theorem onRaw_of_not_isCut {raw : Bytes} (hblank : isBlankRaw raw = false) (hcut : isCut raw = false)
    (t : Trace) : t.onRaw raw =
      if t.oversized || decide (maxLine < raw.length) then { t with oversized := true }
      else t.onField (dropCr raw) := by
  have hne : dropCr (residual raw) ≠ [] := by
    rw [Ne, dropCr_residual hblank, hcut]
    simp
  rw [onRaw, onLine, if_neg hne]
  by_cases hover : (t.oversized || decide (maxLine < raw.length)) = true
  · rw [if_pos hover, if_pos hover, hover]
  · have hfits : raw.length ≤ maxLine := by
      simp only [Bool.or_eq_true, decide_eq_true_eq, not_or, Nat.not_lt] at hover
      exact hover.2
    have hsame : ({ t with oversized := t.oversized || decide (maxLine < raw.length) } : Trace) = t := by
      simp only [Bool.or_eq_true, decide_eq_true_eq, not_or, Bool.not_eq_true] at hover
      obtain ⟨line, event, oversized, dropped, acc⟩ := t
      simp only at hover
      simp [hover.1, Nat.not_lt.2 hfits]
    rw [if_neg hover, if_neg hover, hsame, residual_of_le hfits]

/-! ## Events without such a line -/

theorem length_dropCr (raw : Bytes) :
    (dropCr raw).length = if raw.getLast? = some cr then raw.length - 1 else raw.length := by
  unfold dropCr
  split_ifs <;> simp

/-- A line over the limit is over it without its end, when it is not cut. -/
theorem over_iff {raw : Bytes} (hcut : isCut raw = false) :
    maxLine < (dropCr raw).length ↔ maxLine < raw.length := by
  rw [length_dropCr]
  split_ifs with hlast
  · refine ⟨fun h => by omega, fun h => ?_⟩
    by_contra hle
    have hlen : raw.length = maxLine + 1 := by omega
    rw [isCut, hlen, Nat.mod_self] at hcut
    simp at hcut
  · rfl

end UsageExtractor

namespace Sse

theorem lineData_dataColon (rest : Bytes) : dataValue (dataColon ++ rest) = some (dropSpace rest) := by
  have hsplit : dataColon = wire "data" ++ [colon] := by decide
  have hname : ∀ b ∈ wire "data", decide (b ≠ colon) = true := by decide +kernel
  rw [dataValue, hsplit, List.append_assoc, List.takeWhile_append_of_pos hname,
    List.dropWhile_append_of_pos hname]
  simp

/-- A line with a colon is a `data` field as the extractor takes it. -/
theorem dataValue_eq {line : Bytes} (h : line ≠ wire "data") :
    dataValue line = (afterPrefix dataColon line).map dropSpace := by
  unfold afterPrefix
  by_cases hbegins : dataColon.isPrefixOf line = true
  · obtain ⟨rest, rfl⟩ := List.isPrefixOf_iff_prefix.1 hbegins
    rw [if_pos hbegins, List.drop_left, lineData_dataColon]
    rfl
  · rw [if_neg hbegins, Option.map_none, dataValue, if_neg]
    intro hname
    have hsplit := List.takeWhile_append_dropWhile (p := (· ≠ colon)) (l := line)
    cases hrest : line.dropWhile (· ≠ colon) with
    | nil =>
        rw [hrest, hname, List.append_nil] at hsplit
        exact h hsplit.symm
    | cons b rest =>
        have hb := List.head?_dropWhile_not (· ≠ colon) line
        rw [hrest] at hb
        obtain rfl : b = colon := by simpa using hb
        rw [hrest, hname] at hsplit
        refine hbegins (List.isPrefixOf_iff_prefix.2 ⟨rest, ?_⟩)
        rw [← hsplit]
        have hcolon : dataColon = wire "data" ++ [colon] := by decide
        rw [hcolon, List.append_assoc]
        rfl

theorem intercalate_concat {values : List Bytes} (value : Bytes) (h : values ≠ []) :
    [lf].intercalate (values ++ [value]) = [lf].intercalate values ++ [lf] ++ value := by
  induction values with
  | nil => exact absurd rfl h
  | cons v values ih =>
      cases values with
      | nil => simp [List.intercalate]
      | cons w values =>
          rw [List.cons_append, List.cons_append, List.intercalate_cons_cons, ← List.cons_append,
            ih (by simp), List.intercalate_cons_cons]
          simp

theorem intercalate_ne_nil {values : List Bytes} (h : values ≠ []) (hfirst : values.head? ≠ some []) :
    [lf].intercalate values ≠ [] := by
  cases values with
  | nil => exact absurd rfl h
  | cons v values =>
      have hv : v ≠ [] := fun hv => hfirst (by simp [hv])
      cases values with
      | nil => simpa [List.intercalate] using hv
      | cons w values =>
          rw [List.intercalate_cons_cons]
          simp

theorem values_concat (event : List Bytes) (line : Bytes) :
    values (event ++ [line]) = values event ++ (dataValue line).toList := by
  rw [values, List.filterMap_append]
  cases h : dataValue line <;> simp [values, h]

theorem data_concat (event : List Bytes) (line : Bytes) :
    data (event ++ [line]) =
      match dataValue line with
      | some value => if values event = [] then value else data event ++ [lf] ++ value
      | none => data event := by
  rw [data, values_concat]
  cases dataValue line with
  | none => simp [data]
  | some value =>
      by_cases hnil : values event = []
      · simp [hnil, List.intercalate]
      · dsimp only
        rw [if_neg hnil]
        exact intercalate_concat value hnil

theorem length_data_le (event : List Bytes) (line : Bytes) :
    (data event).length ≤ (data (event ++ [line])).length := by
  rw [data_concat]
  cases dataValue line with
  | none => exact le_refl _
  | some value =>
      dsimp only
      split_ifs with hnil
      · simp [data, hnil, List.intercalate]
      · simp only [List.length_append]
        omega

theorem isOver_concat (event : List Bytes) (line : Bytes) :
    isOver (event ++ [line]) = true ↔
      isOver event = true ∨ maxLine < line.length ∨ maxEvent < (data (event ++ [line])).length := by
  have hle := length_data_le event line
  simp only [isOver, List.any_append, List.any_cons, List.any_nil, Bool.or_false, Bool.or_eq_true,
    decide_eq_true_eq]
  constructor
  · rintro ((h | h) | h)
    · exact .inl (.inl h)
    · exact .inr (.inl h)
    · exact .inr (.inr h)
  · rintro ((h | h) | h | h)
    · exact .inl (.inl h)
    · exact .inr (by omega)
    · exact .inl (.inr h)
    · exact .inr h

end Sse

namespace UsageExtractor

/-- The lines of an event as the format has them. -/
def eventOf (raws : List Bytes) : List Bytes := raws.map dropCr

/-- What holds of the state after lines that are not cut. -/
structure Holds (raws : List Bytes) (t : Trace) : Prop where
  line : t.line = []
  dropped : t.droppedEvents = 0
  acc : t.acc = []
  oversized : t.oversized = true ↔ Sse.isOver (eventOf raws) = true
  event : Sse.isOver (eventOf raws) = false → t.event = Sse.data (eventOf raws)

theorem length_data_add_le {line rest : Bytes} (h : afterPrefix dataColon line = some rest) :
    (dropSpace rest).length + 5 ≤ line.length := by
  unfold afterPrefix at h
  split_ifs at h with hbegins
  obtain rfl := Option.some.inj h
  obtain ⟨rest, rfl⟩ := List.isPrefixOf_iff_prefix.1 hbegins
  have hcolon : dataColon.length = 5 := by decide
  have hspace : ∀ value : Bytes, (dropSpace value).length ≤ value.length := by
    intro value
    unfold dropSpace
    split
    · simp
    · exact le_refl _
  have := hspace rest
  rw [List.drop_left, List.length_append, hcolon]
  omega

/-- The data that is held grows by the value as in the format, or is over the limit with it. -/
theorem onData_of_holds {raws : List Bytes} {raw rest : Bytes} {t : Trace} (h : Holds raws t)
    (hunder : Sse.isOver (eventOf raws) = false)
    (hfirst : (Sse.values (eventOf (raws ++ [raw]))).head? ≠ some [])
    (hvalue : Sse.dataValue (dropCr raw) = some (dropSpace rest))
    (hfits : (dropSpace rest).length + 5 ≤ maxLine) :
    t.onData (dropSpace rest) =
      if maxEvent < (Sse.data (eventOf (raws ++ [raw]))).length then
        { t with oversized := true, event := [] }
      else { t with event := Sse.data (eventOf (raws ++ [raw])) } := by
  have hdata : Sse.data (eventOf (raws ++ [raw])) =
      if Sse.values (eventOf raws) = [] then dropSpace rest
      else Sse.data (eventOf raws) ++ [lf] ++ dropSpace rest := by
    rw [eventOf, List.map_append, List.map_singleton, Sse.data_concat, hvalue]
    rfl
  have hsame : maxLine = maxEvent := rfl
  rw [onData, h.event hunder, hdata]
  by_cases hnil : Sse.values (eventOf raws) = []
  · have hempty : Sse.data (eventOf raws) = [] := by simp [Sse.data, hnil, List.intercalate]
    rw [if_pos hnil, hempty]
    have hfits' : ¬maxEvent < ([] : Bytes).length + (dropSpace rest).length + 1 := by
      rw [List.length_nil]
      omega
    have hfits'' : ¬maxEvent < (dropSpace rest).length := by omega
    rw [if_neg hfits', if_neg hfits'']
    simp
  · have hne : Sse.data (eventOf raws) ≠ [] := by
      refine Sse.intercalate_ne_nil hnil ?_
      rw [eventOf, List.map_append, List.map_singleton, Sse.values_concat] at hfirst
      cases hvalues : Sse.values (eventOf raws) with
      | nil => exact absurd hvalues hnil
      | cons v values =>
          rw [eventOf] at hvalues
          rw [hvalues] at hfirst
          simpa using hfirst
    have hlen : (Sse.data (eventOf raws) ++ [lf] ++ dropSpace rest).length =
        (Sse.data (eventOf raws)).length + (dropSpace rest).length + 1 := by
      simp only [List.length_append, List.length_singleton]
      omega
    rw [if_neg hnil, hlen, if_neg hne]

/-- One line more. -/
theorem Holds.concat {raws : List Bytes} {raw : Bytes} {t : Trace} (h : Holds raws t)
    (hblank : isBlankRaw raw = false) (hcut : isCut raw = false) (hcolon : dropCr raw ≠ wire "data")
    (hfirst : (Sse.values (eventOf (raws ++ [raw]))).head? ≠ some []) :
    Holds (raws ++ [raw]) (t.onRaw raw) := by
  have hover : Sse.isOver (eventOf (raws ++ [raw])) = true ↔
      Sse.isOver (eventOf raws) = true ∨ maxLine < raw.length ∨
        maxEvent < (Sse.data (eventOf (raws ++ [raw]))).length := by
    rw [← over_iff hcut, eventOf, List.map_append, List.map_singleton, Sse.isOver_concat]
    rfl
  have hline : (t.onRaw raw).line = [] := (line_onRaw t raw).trans h.line
  rw [onRaw_of_not_isCut hblank hcut] at hline ⊢
  by_cases hbig : (t.oversized || decide (maxLine < raw.length)) = true
  · rw [if_pos hbig] at hline ⊢
    have hall : Sse.isOver (eventOf (raws ++ [raw])) = true := by
      rw [hover, ← h.oversized]
      simp only [Bool.or_eq_true, decide_eq_true_eq] at hbig
      rcases hbig with hbig | hbig
      · exact .inl hbig
      · exact .inr (.inl hbig)
    exact ⟨hline, h.dropped, h.acc, iff_of_true rfl hall, fun hnot => absurd hall (by simp [hnot])⟩
  · rw [if_neg hbig] at hline ⊢
    simp only [Bool.or_eq_true, decide_eq_true_eq, not_or, Nat.not_lt, Bool.not_eq_true] at hbig
    have hunder : Sse.isOver (eventOf raws) = false := by
      rw [Bool.eq_false_iff, Ne, ← h.oversized, hbig.1]
      simp
    have hvalue := Sse.dataValue_eq hcolon
    unfold onField
    cases hbegins : afterPrefix dataColon (dropCr raw) with
    | none =>
        have hsame : Sse.data (eventOf (raws ++ [raw])) = Sse.data (eventOf raws) := by
          rw [eventOf, List.map_append, List.map_singleton, Sse.data_concat, hvalue, hbegins]
          rfl
        have hnot : Sse.isOver (eventOf (raws ++ [raw])) = false := by
          rw [Bool.eq_false_iff, Ne, hover, hsame]
          have hfits : ¬maxEvent < (Sse.data (eventOf raws)).length := by
            intro hlt
            simp [Sse.isOver, hlt] at hunder
          simp [hunder, hfits, Nat.not_lt.2 hbig.2]
        refine ⟨h.line, h.dropped, h.acc, iff_of_false ?_ (by simp [hnot]), fun _ => ?_⟩
        · simp [hbig.1]
        · rw [hsame]
          exact h.event hunder
    | some rest =>
        rw [hbegins] at hvalue
        have hfits : (dropSpace rest).length + 5 ≤ maxLine := by
          have := length_data_add_le hbegins
          have hle : (dropCr raw).length ≤ raw.length := by
            rw [length_dropCr]
            split_ifs <;> omega
          omega
        dsimp only
        rw [onData_of_holds h hunder hfirst hvalue hfits]
        by_cases hlong : maxEvent < (Sse.data (eventOf (raws ++ [raw]))).length
        · have hall : Sse.isOver (eventOf (raws ++ [raw])) = true := hover.2 (.inr (.inr hlong))
          rw [if_pos hlong]
          exact ⟨h.line, h.dropped, h.acc, iff_of_true rfl hall, fun hnot => absurd hall (by simp [hnot])⟩
        · have hnot : ¬Sse.isOver (eventOf (raws ++ [raw])) = true := by
            rw [hover]
            simp [hunder, hlong, Nat.not_lt.2 hbig.2]
          rw [if_neg hlong]
          exact ⟨h.line, h.dropped, h.acc, iff_of_false (by simp [hbig.1]) hnot, fun _ => rfl⟩

/-- The lines of an event are plain: none is blank, none is `data` alone, and the first value is not
    empty. -/
structure PlainEvent (raws : List Bytes) : Prop where
  blank : ∀ raw ∈ raws, isBlankRaw raw = false
  colon : ∀ raw ∈ raws, dropCr raw ≠ wire "data"
  first : (Sse.values (eventOf raws)).head? ≠ some []

theorem PlainEvent.left {raws more : List Bytes} (h : PlainEvent (raws ++ more)) : PlainEvent raws where
  blank := fun raw hraw => h.blank raw (List.mem_append_left _ hraw)
  colon := fun raw hraw => h.colon raw (List.mem_append_left _ hraw)
  first := by
    intro hhead
    refine h.first ?_
    rw [eventOf, List.map_append, Sse.values, List.filterMap_append, List.head?_append]
    simp only [eventOf, Sse.values] at hhead
    rw [hhead]
    rfl

theorem holds_foldl {raws : List Bytes} (h : PlainEvent raws) (hcut : ∀ raw ∈ raws, isCut raw = false) :
    Holds raws (raws.foldl onRaw (clean 0 [])) := by
  induction raws using List.reverseRecOn with
  | nil =>
      have hunder : Sse.isOver (eventOf []) = false := by decide
      exact ⟨rfl, rfl, rfl, iff_of_false (by simp [clean]) (by simp [hunder]), fun _ => rfl⟩
  | append_singleton raws raw ih =>
      rw [List.foldl_append, List.foldl_cons, List.foldl_nil]
      exact (ih h.left fun r hr => hcut r (List.mem_append_left _ hr)).concat (h.blank raw (by simp))
        (hcut raw (by simp)) (h.colon raw (by simp)) h.first

/-- An event with no line that is cut is handled as in the format. -/
theorem onBlock_of_not_isCut {raws : List Bytes} (h : PlainEvent raws)
    (hcut : ∀ raw ∈ raws, isCut raw = false) :
    onBlock ([], 0) raws = Sse.step keep ([], 0) (eventOf raws) := by
  have hholds := holds_foldl h hcut
  unfold onBlock onBoundary Sse.step
  dsimp only
  by_cases hover : Sse.isOver (eventOf raws) = true
  · rw [if_pos (hholds.oversized.2 hover), if_pos hover]
    dsimp only
    rw [hholds.acc, hholds.dropped]
  · have hunder := Bool.eq_false_iff.2 hover
    have hnot : ¬(raws.foldl onRaw (clean 0 [])).oversized = true := fun ho => hover (hholds.oversized.1 ho)
    rw [if_neg hnot, if_neg hover, hholds.event hunder]
    by_cases hnil : Sse.values (eventOf raws) = []
    · have hempty : Sse.data (eventOf raws) = [] := by simp [Sse.data, hnil, List.intercalate]
      simp [hempty, hnil, hholds.acc, hholds.dropped]
    · have hne : Sse.data (eventOf raws) ≠ [] := Sse.intercalate_ne_nil hnil h.first
      simp [hne, hnil, hholds.acc, hholds.dropped]

/-! ## Events with such a line -/

/-- The line is not over the limit and has no value. -/
def Harmless (raw : Bytes) : Prop := raw.length ≤ maxLine ∧ (Sse.dataValue (dropCr raw)).getD [] = []

/-- What the state has counted and scanned, and one more if its event will be. -/
def score (t : Trace) : Nat :=
  t.droppedEvents + t.acc.length + if t.oversized = true ∨ t.event ≠ [] then 1 else 0

theorem score_clean (dropped : Nat) (acc : List Bytes) :
    score (clean dropped acc) = dropped + acc.length := by
  simp [score, clean]

theorem score_onBoundary (t : Trace) :
    (t.onBoundary keep).droppedEvents + (t.onBoundary keep).acc.length = score t := by
  by_cases hover : t.oversized = true
  · simp only [onBoundary, score, hover]
    simp
    omega
  · by_cases hevent : t.event = []
    · simp [onBoundary, score, hover, hevent]
    · simp [onBoundary, score, hover, hevent, keep]
      omega

theorem score_onData {t : Trace} (rest : Bytes) : score t ≤ score (t.onData rest) := by
  unfold onData
  split_ifs with hfits hnil
  · simp only [score]
    split_ifs <;> simp_all
  · simp only [score, hnil]
    split_ifs <;> simp_all
  · simp only [score]
    split_ifs <;> simp_all

/-- No line takes anything back. -/
theorem score_onRaw (t : Trace) (raw : Bytes) : score t ≤ score (t.onRaw raw) := by
  have hflag : score t ≤ score { t with oversized := t.oversized || decide (maxLine < raw.length) } := by
    simp only [score]
    split_ifs <;> simp_all
  refine hflag.trans ?_
  rw [onRaw]
  generalize ({ t with oversized := t.oversized || decide (maxLine < raw.length) } : Trace) = u
  rcases onLine_cases keep u (residual raw) with ⟨-, hends⟩ | ⟨-, hsame | ⟨rest, hadds⟩⟩
  · rw [hends, ← score_onBoundary u]
    exact Nat.le_add_right _ _
  · rw [hsame]
  · rw [hadds]
    exact score_onData rest

theorem score_foldl (t : Trace) (raws : List Bytes) : score t ≤ score (raws.foldl onRaw t) := by
  induction raws generalizing t with
  | nil => exact le_refl _
  | cons raw raws ih => exact (score_onRaw t raw).trans (ih _)

theorem dropped_onBoundary (t : Trace) : t.droppedEvents ≤ (t.onBoundary keep).droppedEvents := by
  unfold onBoundary
  dsimp only
  split_ifs <;> simp

theorem same_onData (t : Trace) (rest : Bytes) :
    (t.onData rest).droppedEvents = t.droppedEvents ∧ (t.onData rest).acc = t.acc := by
  unfold onData
  split_ifs <;> exact ⟨rfl, rfl⟩

theorem dropped_onRaw (t : Trace) (raw : Bytes) : t.droppedEvents ≤ (t.onRaw raw).droppedEvents := by
  have hflag : ({ t with oversized := t.oversized || decide (maxLine < raw.length) } : Trace).droppedEvents =
      t.droppedEvents := rfl
  rw [onRaw, ← hflag]
  generalize ({ t with oversized := t.oversized || decide (maxLine < raw.length) } : Trace) = u
  rcases onLine_cases keep u (residual raw) with ⟨-, hends⟩ | ⟨-, hsame | ⟨rest, hadds⟩⟩
  · rw [hends]
    exact dropped_onBoundary u
  · rw [hsame]
  · rw [hadds, (same_onData u rest).1]

theorem dropped_foldl (t : Trace) (raws : List Bytes) :
    t.droppedEvents ≤ (raws.foldl onRaw t).droppedEvents := by
  induction raws generalizing t with
  | nil => exact le_refl _
  | cons raw raws ih => exact (dropped_onRaw t raw).trans (ih _)

/-- Lines that are not cut end no event. -/
theorem foldl_of_not_isCut {raws : List Bytes} (hblank : ∀ raw ∈ raws, isBlankRaw raw = false)
    (hcut : ∀ raw ∈ raws, isCut raw = false) (t : Trace) :
    (raws.foldl onRaw t).droppedEvents = t.droppedEvents ∧ (raws.foldl onRaw t).acc = t.acc := by
  induction raws generalizing t with
  | nil => exact ⟨rfl, rfl⟩
  | cons raw raws ih =>
      obtain ⟨hdropped, hacc⟩ := ih (fun r hr => hblank r (List.mem_cons_of_mem _ hr))
        (fun r hr => hcut r (List.mem_cons_of_mem _ hr)) (t.onRaw raw)
      rw [List.foldl_cons, hdropped, hacc, onRaw_of_not_isCut (hblank raw (by simp)) (hcut raw (by simp))]
      split_ifs
      · exact ⟨rfl, rfl⟩
      · rcases onField_cases t (dropCr raw) with hsame | ⟨rest, hadds⟩
        · rw [hsame]
          exact ⟨rfl, rfl⟩
        · rw [hadds]
          exact same_onData t rest

theorem isCut_of_le {raw : Bytes} (h : raw.length ≤ maxLine) : isCut raw = false := by
  have hfits : ¬maxLine < raw.length := by omega
  simp [isCut, hfits]

theorem onRaw_of_harmless {raw : Bytes} (hblank : isBlankRaw raw = false)
    (hcolon : dropCr raw ≠ wire "data") (h : Harmless raw) (dropped : Nat) (acc : List Bytes) :
    (clean dropped acc).onRaw raw = clean dropped acc := by
  obtain ⟨hfits, hvalue⟩ := h
  have hunder : ¬((clean dropped acc).oversized || decide (maxLine < raw.length)) = true := by
    simp [clean, hfits]
  rw [onRaw_of_not_isCut hblank (isCut_of_le hfits), if_neg hunder]
  rw [Sse.dataValue_eq hcolon] at hvalue
  unfold onField
  cases hbegins : afterPrefix dataColon (dropCr raw) with
  | none => rfl
  | some rest =>
      rw [hbegins] at hvalue
      have hnil : dropSpace rest = [] := hvalue
      dsimp only
      rw [hnil]
      rfl

theorem foldl_of_harmless {raws : List Bytes} (hblank : ∀ raw ∈ raws, isBlankRaw raw = false)
    (hcolon : ∀ raw ∈ raws, dropCr raw ≠ wire "data") (h : ∀ raw ∈ raws, Harmless raw) (dropped : Nat)
    (acc : List Bytes) : raws.foldl onRaw (clean dropped acc) = clean dropped acc := by
  induction raws with
  | nil => rfl
  | cons raw raws ih =>
      rw [List.foldl_cons,
        onRaw_of_harmless (hblank raw (by simp)) (hcolon raw (by simp)) (h raw (by simp))]
      exact ih (fun r hr => hblank r (List.mem_cons_of_mem _ hr))
        (fun r hr => hcolon r (List.mem_cons_of_mem _ hr)) fun r hr => h r (List.mem_cons_of_mem _ hr)

theorem score_of_not_harmless {raw : Bytes} (hblank : isBlankRaw raw = false)
    (hcolon : dropCr raw ≠ wire "data") (h : ¬Harmless raw) (dropped : Nat) (acc : List Bytes) :
    dropped + acc.length + 1 ≤ score ((clean dropped acc).onRaw raw) := by
  by_cases hcut : isCut raw = true
  · rw [onRaw_of_isCut hblank hcut rfl, score_clean]
    simp only [clean]
    omega
  · rw [onRaw_of_not_isCut hblank (Bool.eq_false_iff.2 hcut)]
    by_cases hfits : raw.length ≤ maxLine
    · have hunder : ¬((clean dropped acc).oversized || decide (maxLine < raw.length)) = true := by
        simp [clean, hfits]
      rw [if_neg hunder]
      have hvalue : (Sse.dataValue (dropCr raw)).getD [] ≠ [] := fun hnil => h ⟨hfits, hnil⟩
      rw [Sse.dataValue_eq hcolon] at hvalue
      unfold onField
      cases hbegins : afterPrefix dataColon (dropCr raw) with
      | none =>
          rw [hbegins] at hvalue
          exact absurd rfl hvalue
      | some rest =>
          rw [hbegins] at hvalue
          have hne : dropSpace rest ≠ [] := hvalue
          dsimp only [onData]
          split_ifs with hfull hempty
          · simp [score, clean]
          · simp [score, clean, hne]
          · simp [score, clean]
    · have hover : ((clean dropped acc).oversized || decide (maxLine < raw.length)) = true := by
        simp only [clean, Bool.false_or, decide_eq_true_eq]
        omega
      rw [if_pos hover]
      simp [score, clean]

/-- What an event adds whose first line that is cut is known. -/
theorem onBlock_of_isCut {before after : List Bytes} {raw : Bytes}
    (h : PlainEvent (before ++ raw :: after)) (hbefore : ∀ r ∈ before, isCut r = false)
    (hcut : isCut raw = true) :
    1 ≤ (onBlock ([], 0) (before ++ raw :: after)).2 ∧
      (onBlock ([], 0) (before ++ raw :: after) = ([], 1) ↔ ∀ r ∈ after, Harmless r) := by
  have hstart : (before ++ raw :: after).foldl onRaw (clean 0 []) = after.foldl onRaw (clean 1 []) := by
    obtain ⟨hdropped, hacc⟩ := foldl_of_not_isCut
      (fun r hr => h.blank r (List.mem_append_left _ hr)) hbefore (clean 0 [])
    rw [List.foldl_append, List.foldl_cons,
      onRaw_of_isCut (h.blank raw (by simp)) hcut (line_foldl_onRaw rfl before), hdropped, hacc]
    rfl
  unfold onBlock
  dsimp only
  rw [hstart]
  refine ⟨(dropped_foldl (clean 1 []) after).trans (dropped_onBoundary _), ?_⟩
  have hblank : ∀ r ∈ after, isBlankRaw r = false := fun r hr => h.blank r (by simp [hr])
  have hcolon : ∀ r ∈ after, dropCr r ≠ wire "data" := fun r hr => h.colon r (by simp [hr])
  constructor
  · intro hresult
    by_contra hharm
    obtain ⟨r, hr⟩ := not_forall.1 hharm
    obtain ⟨hr, hnot⟩ := not_forall.1 hr
    classical
    have hfind : (after.find? fun r => decide ¬Harmless r).isSome = true :=
      List.find?_isSome.2 ⟨r, hr, decide_eq_true hnot⟩
    obtain ⟨first, hfirst⟩ := Option.isSome_iff_exists.1 hfind
    obtain ⟨hnotfirst, harmless, more, rfl, hharmless⟩ := List.find?_eq_some_iff_append.1 hfirst
    have hsame : harmless.foldl onRaw (clean 1 []) = clean 1 [] :=
      foldl_of_harmless (fun r hr => hblank r (List.mem_append_left _ hr))
        (fun r hr => hcolon r (List.mem_append_left _ hr)) (fun r hr => by simpa using hharmless r hr) 1 []
    have hscore := score_of_not_harmless (hblank first (by simp)) (hcolon first (by simp))
      (of_decide_eq_true hnotfirst) 1 []
    have htotal := score_onBoundary ((harmless ++ first :: more).foldl onRaw (clean 1 []))
    have hmono := score_foldl ((clean 1 []).onRaw first) more
    rw [List.foldl_append, List.foldl_cons, hsame] at htotal hresult
    obtain ⟨hacc, hdropped⟩ := Prod.mk.inj hresult
    rw [hacc, hdropped] at htotal
    simp only [List.length_nil] at htotal hscore
    omega
  · intro hharmless
    rw [foldl_of_harmless hblank hcolon hharmless]
    rfl

end UsageExtractor

/-! ## Streams -/

namespace Sse

variable {α β : Type}

theorem blocks_map (f : α → β) (p : β → Bool) (block l : List α) :
    blocks p (block.map f) (l.map f) = (blocks (fun a => p (f a)) block l).map (List.map f) := by
  induction l generalizing block with
  | nil => rfl
  | cons a l ih =>
      rw [List.map_cons, blocks, blocks]
      by_cases ha : p (f a) = true
      · rw [if_pos ha, if_pos ha, List.map_cons, ← ih []]
        rfl
      · rw [if_neg ha, if_neg ha, ← ih]
        simp

/-- The members of a block are from the list, and do not end one. -/
theorem mem_blocks {p : α → Bool} {block l b : List α} (hb : b ∈ blocks p block l) :
    ∀ a ∈ b, a ∈ block ∨ a ∈ l ∧ p a = false := by
  induction l generalizing block with
  | nil => simp [blocks] at hb
  | cons x l ih =>
      rw [blocks] at hb
      intro a ha
      by_cases hx : p x = true
      · rw [if_pos hx] at hb
        rcases List.mem_cons.1 hb with rfl | hb
        · exact .inl ha
        · rcases ih hb a ha with hmem | hmem
          · cases hmem
          · exact .inr ⟨List.mem_cons_of_mem _ hmem.1, hmem.2⟩
      · rw [if_neg hx] at hb
        rcases ih hb a ha with hmem | hmem
        · rcases List.mem_append.1 hmem with hmem | hmem
          · exact .inl hmem
          · obtain rfl := List.mem_singleton.1 hmem
            exact .inr ⟨List.mem_cons_self, Bool.eq_false_iff.2 hx⟩
        · exact .inr ⟨List.mem_cons_of_mem _ hmem.1, hmem.2⟩

theorem mem_pending {p : α → Bool} {block l : List α} :
    ∀ a ∈ pending p block l, a ∈ block ∨ a ∈ l ∧ p a = false := by
  induction l generalizing block with
  | nil => exact fun a ha => .inl ha
  | cons x l ih =>
      rw [pending]
      intro a ha
      by_cases hx : p x = true
      · rw [if_pos hx] at ha
        rcases ih a ha with hmem | hmem
        · cases hmem
        · exact .inr ⟨List.mem_cons_of_mem _ hmem.1, hmem.2⟩
      · rw [if_neg hx] at ha
        rcases ih a ha with hmem | hmem
        · rcases List.mem_append.1 hmem with hmem | hmem
          · exact .inl hmem
          · obtain rfl := List.mem_singleton.1 hmem
            exact .inr ⟨List.mem_cons_self, Bool.eq_false_iff.2 hx⟩
        · exact .inr ⟨List.mem_cons_of_mem _ hmem.1, hmem.2⟩

/-- Every carriage return stands before a line feed. -/
def crLf : Bytes → Bool
  | [] => true
  | 13 :: 10 :: rest => crLf rest
  | 13 :: _ => false
  | _ :: rest => crLf rest

/-- Then the lines are those that a line feed ends, without their carriage returns. -/
theorem linesFrom_eq {line bytes : Bytes} (hline : cr ∉ line) (h : crLf bytes = true) :
    linesFrom line bytes = (blocks (· = lf) line bytes).map dropCr := by
  have hdrop : ∀ {l : Bytes}, cr ∉ l → dropCr l = l := fun hl => by
    rw [dropCr, if_neg fun hlast => hl (List.mem_of_getLast? hlast)]
  fun_induction linesFrom line bytes with
  | case1 line => rfl
  | case2 line rest ih =>
      have hcut : blocks (· = lf) line (13 :: 10 :: rest) = (line ++ [cr]) :: blocks (· = lf) [] rest := rfl
      have hlast : dropCr (line ++ [cr]) = line := by simp [dropCr]
      rw [hcut, List.map_cons, hlast, ih List.not_mem_nil (by simpa [crLf] using h)]
  | case3 line rest hnot ih =>
      exfalso
      cases rest with
      | nil => simp [crLf] at h
      | cons b rest =>
          by_cases hb : b = 10
          · subst hb
            exact hnot rest rfl
          · rw [crLf.eq_3 _ (fun more heq => hb (List.cons.inj heq).1)] at h
            cases h
  | case4 line rest ih =>
      have hcut : blocks (· = lf) line (10 :: rest) = line :: blocks (· = lf) [] rest := rfl
      have hrest : crLf rest = true := by
        rw [crLf.eq_4 _ _ (by simp) (by simp)] at h
        exact h
      rw [hcut, List.map_cons, hdrop hline, ih List.not_mem_nil hrest]
  | case5 line b rest hpair hcr hlf ih =>
      have hrest : crLf rest = true := by
        rw [crLf.eq_4 _ _ hpair hcr] at h
        exact h
      have hb : ¬decide (b = lf) = true := fun hb => hlf (of_decide_eq_true hb)
      rw [blocks, if_neg hb]
      refine ih ?_ hrest
      simp only [List.mem_append, List.mem_singleton, not_or]
      exact ⟨hline, fun heq => hcr heq.symm⟩

/-- The stream is in plain spelling: no byte order mark is in front, every line ends in a line feed with at
    most one carriage return before it and none elsewhere, no line is `data` alone, and the first value of
    an event is not empty. -/
structure Plain (stream : Bytes) : Prop where
  no_bom : bom.isPrefixOf stream = false
  cr_lf : crLf stream = true
  colon : ∀ line ∈ lines stream, line ≠ wire "data"
  first : ∀ event ∈ blocks isBlank [] (lines stream), (values event).head? ≠ some []

end Sse

namespace UsageExtractor

/-- The lines of the events that have ended. -/
def rawEvents (stream : Bytes) : List (List Bytes) := Sse.blocks isBlankRaw [] (rawLines stream)

/-- The lines behind them. -/
def rawPending (stream : Bytes) : List Bytes := Sse.pending isBlankRaw [] (rawLines stream)

/-- No line of the event is cut off to nothing; or one is, the event is over the limit, and the lines behind
    that one are harmless. -/
def UnsplitEvent (raws : List Bytes) : Prop :=
  (∀ raw ∈ raws, isCut raw = false) ∨
    Sse.isOver (eventOf raws) = true ∧
      ∃ before raw after, raws = before ++ raw :: after ∧ (∀ r ∈ before, isCut r = false) ∧
        isCut raw = true ∧ ∀ r ∈ after, Harmless r

/-- No event is split by a line that is cut off to nothing. -/
def Unsplit (stream : Bytes) : Prop :=
  (∀ raws ∈ rawEvents stream, UnsplitEvent raws) ∧ ∀ raw ∈ rawPending stream, isCut raw = false

theorem lines_eq {stream : Bytes} (h : Sse.Plain stream) :
    Sse.lines stream = (rawLines stream).map dropCr := by
  rw [Sse.lines, h.no_bom]
  exact Sse.linesFrom_eq List.not_mem_nil h.cr_lf

theorem events_eq {stream : Bytes} (h : Sse.Plain stream) :
    Sse.blocks Sse.isBlank [] (Sse.lines stream) = (rawEvents stream).map eventOf := by
  rw [lines_eq h]
  exact Sse.blocks_map dropCr Sse.isBlank [] (rawLines stream)

theorem plainEvent_of_mem {stream : Bytes} (h : Sse.Plain stream) {raws : List Bytes}
    (hraws : raws ∈ rawEvents stream) : PlainEvent raws where
  blank := fun raw hraw => by
    rcases Sse.mem_blocks hraws raw hraw with hmem | hmem
    · cases hmem
    · exact hmem.2
  colon := fun raw hraw => by
    rcases Sse.mem_blocks hraws raw hraw with hmem | hmem
    · cases hmem
    · exact h.colon _ (lines_eq h ▸ List.mem_map_of_mem hmem.1)
  first := h.first _ (events_eq h ▸ List.mem_map_of_mem hraws)

theorem blank_of_mem_pending {stream : Bytes} : ∀ raw ∈ rawPending stream, isBlankRaw raw = false := by
  intro raw hraw
  rcases Sse.mem_pending raw hraw with hmem | hmem
  · cases hmem
  · exact hmem.2

/-- An event counts at least as often as in the format, and as in the format when no line is cut. -/
theorem onBlock_cases {raws : List Bytes} (h : PlainEvent raws) :
    onBlock ([], 0) raws = Sse.step keep ([], 0) (eventOf raws) ∧ (∀ raw ∈ raws, isCut raw = false) ∨
      ∃ before raw after, raws = before ++ raw :: after ∧ (∀ r ∈ before, isCut r = false) ∧
        isCut raw = true ∧ 1 ≤ (onBlock ([], 0) raws).2 ∧
          (onBlock ([], 0) raws = ([], 1) ↔ ∀ r ∈ after, Harmless r) := by
  by_cases hcut : ∀ raw ∈ raws, isCut raw = false
  · exact .inl ⟨onBlock_of_not_isCut h hcut, hcut⟩
  · obtain ⟨r, hr⟩ := not_forall.1 hcut
    obtain ⟨hr, hcut⟩ := not_forall.1 hr
    have hfind : (raws.find? isCut).isSome = true :=
      List.find?_isSome.2 ⟨r, hr, by simpa using hcut⟩
    obtain ⟨raw, hraw⟩ := Option.isSome_iff_exists.1 hfind
    obtain ⟨hcutraw, before, after, rfl, hbefore⟩ := List.find?_eq_some_iff_append.1 hraw
    have hnone : ∀ r ∈ before, isCut r = false := fun r hr => by simpa using hbefore r hr
    exact .inr ⟨before, raw, after, rfl, hnone, hcutraw, onBlock_of_isCut h hnone hcutraw⟩

theorem step_le (event : List Bytes) : (Sse.step keep ([], 0) event).2 ≤ 1 := by
  unfold Sse.step
  split_ifs <;> simp

theorem step_eq (s : List Bytes × Nat) (event : List Bytes) :
    Sse.step keep s event =
      (s.1 ++ (Sse.step keep ([], 0) event).1, s.2 + (Sse.step keep ([], 0) event).2) := by
  unfold Sse.step
  split_ifs <;> simp [keep]

/-- An event is handled as in the format exactly when it is not split. -/
theorem onBlock_eq_iff {raws : List Bytes} (h : PlainEvent raws) :
    onBlock ([], 0) raws = Sse.step keep ([], 0) (eventOf raws) ↔ UnsplitEvent raws := by
  rcases onBlock_cases h with ⟨hsame, hcut⟩ | ⟨before, raw, after, hraws, hbefore, hcut, hcount, hiff⟩
  · exact iff_of_true hsame (.inl hcut)
  · constructor
    · intro hsame
      have hle := step_le (eventOf raws)
      rw [← hsame] at hle
      have hone : (onBlock ([], 0) raws).2 = 1 := by omega
      have hall : Sse.isOver (eventOf raws) = true := by
        rw [hsame] at hone
        unfold Sse.step at hone
        split_ifs at hone with hover
        · exact hover
      refine .inr ⟨hall, before, raw, after, hraws, hbefore, hcut, hiff.1 ?_⟩
      rw [hsame, Sse.step, if_pos hall]
    · rintro (hnone | ⟨hall, before', raw', after', hraws', hbefore', hcut', hharmless⟩)
      · have := hnone raw (hraws ▸ by simp)
        rw [this] at hcut
        cases hcut
      · have hiff' := (onBlock_of_isCut (hraws' ▸ h) hbefore' hcut').2
        rw [← hraws'] at hiff'
        rw [hiff'.2 hharmless, Sse.step, if_pos hall]

theorem foldl_onBlock (s : List Bytes × Nat) (blocks : List (List Bytes)) :
    blocks.foldl onBlock s = (s.1 ++ blocks.flatMap fun b => (onBlock ([], 0) b).1,
      s.2 + (blocks.map fun b => (onBlock ([], 0) b).2).sum) := by
  induction blocks generalizing s with
  | nil => simp
  | cons b blocks ih =>
      rw [List.foldl_cons, ih, onBlock_eq]
      simp [Nat.add_assoc]

theorem foldl_step (s : List Bytes × Nat) (events : List (List Bytes)) :
    events.foldl (Sse.step keep) s = (s.1 ++ events.flatMap fun e => (Sse.step keep ([], 0) e).1,
      s.2 + (events.map fun e => (Sse.step keep ([], 0) e).2).sum) := by
  induction events generalizing s with
  | nil => simp
  | cons e events ih =>
      rw [List.foldl_cons, ih, step_eq]
      simp [Nat.add_assoc]

/-- Sums are equal when no term is below the other only where each term is equal and nothing is added. -/
theorem sum_eq_iff {α : Type} {f g : α → Nat} {l : List α} (h : ∀ a ∈ l, g a ≤ f a) (more : Nat) :
    (l.map f).sum + more = (l.map g).sum ↔ (∀ a ∈ l, f a = g a) ∧ more = 0 := by
  induction l with
  | nil => simp
  | cons a l ih =>
      have ih := ih fun b hb => h b (List.mem_cons_of_mem _ hb)
      have ha := h a List.mem_cons_self
      have hle : (l.map g).sum ≤ (l.map f).sum :=
        List.sum_le_sum fun b hb => h b (List.mem_cons_of_mem _ hb)
      simp only [List.map_cons, List.sum_cons, List.forall_mem_cons]
      constructor
      · intro hsum
        obtain ⟨hl, hmore⟩ := ih.1 (by omega)
        exact ⟨⟨by omega, hl⟩, hmore⟩
      · rintro ⟨⟨ha, hl⟩, hmore⟩
        have := ih.2 ⟨hl, hmore⟩
        omega

/-- What the extractor has scanned and counted: of the events that have ended, and of the lines behind. -/
theorem trace_eq (chunks : List Bytes) :
    (run keep [] chunks).acc =
        (((rawEvents chunks.flatten).flatMap fun b => (onBlock ([], 0) b).1) ++
          ((rawPending chunks.flatten).foldl onRaw (clean 0 [])).acc) ∧
      (run keep [] chunks).droppedEvents =
        ((rawEvents chunks.flatten).map fun b => (onBlock ([], 0) b).2).sum +
          ((rawPending chunks.flatten).foldl onRaw (clean 0 [])).droppedEvents := by
  have hlines := feed_blocks (t := clean 0 []) rfl List.not_mem_nil chunks.flatten
  have hevents : (rawLines chunks.flatten).foldl onRaw (clean 0 []) =
      shift ((rawEvents chunks.flatten).foldl onBlock ([], 0))
        ((rawPending chunks.flatten).foldl onRaw (clean 0 [])) := by
    rw [← foldl_onRaw_shift]
    refine (foldl_onRaw_eq ([], 0) [] (rawLines chunks.flatten)).trans ?_
    simp [clean, shift, rawEvents, rawPending]
  rw [List.nil_append] at hlines
  have hstart : (init [] : Trace) = clean 0 [] := rfl
  have hsame : (Sse.blocks (· = lf) [] chunks.flatten).foldl onRaw (clean 0 []) =
      (rawLines chunks.flatten).foldl onRaw (clean 0 []) := rfl
  rw [run_eq, hstart, hlines.1, hlines.2, hsame, hevents, foldl_onBlock]
  simp [shift]

theorem reference_eq {stream : Bytes} (h : Sse.Plain stream) :
    Sse.run keep [] stream =
      ((rawEvents stream).flatMap fun b => (Sse.step keep ([], 0) (eventOf b)).1,
        ((rawEvents stream).map fun b => (Sse.step keep ([], 0) (eventOf b)).2).sum) := by
  rw [Sse.run, events_eq h, foldl_step]
  simp [List.flatMap_map, Function.comp_def]

/-- On a plain stream the extractor scans and counts as in the format exactly when no event is split. -/
theorem trace_iff {chunks : List Bytes} (h : Sse.Plain chunks.flatten) :
    ((run keep [] chunks).acc, (run keep [] chunks).droppedEvents) = Sse.run keep [] chunks.flatten ↔
      Unsplit chunks.flatten := by
  obtain ⟨hacc, hdropped⟩ := trace_eq chunks
  rw [hacc, hdropped, reference_eq h]
  have hplain : ∀ b ∈ rawEvents chunks.flatten, PlainEvent b := fun b hb => plainEvent_of_mem h hb
  constructor
  · intro hsame
    obtain ⟨hscanned, hcounted⟩ := Prod.mk.inj hsame
    have hcount : ∀ b ∈ rawEvents chunks.flatten,
        (Sse.step keep ([], 0) (eventOf b)).2 ≤ (onBlock ([], 0) b).2 := by
      intro b hb
      rcases onBlock_cases (hplain b hb) with ⟨heq, -⟩ | ⟨_, _, _, -, -, -, hone, -⟩
      · rw [heq]
      · exact (step_le _).trans hone
    obtain ⟨hcounts, htail⟩ := (sum_eq_iff hcount _).1 hcounted
    have hlength : ∀ b ∈ rawEvents chunks.flatten,
        (Sse.step keep ([], 0) (eventOf b)).1.length ≤ (onBlock ([], 0) b).1.length := by
      intro b hb
      rcases onBlock_cases (hplain b hb) with ⟨heq, -⟩ | ⟨_, _, _, -, -, -, hone, -⟩
      · rw [heq]
      · -- an event that is counted is not scanned in the format
        have htwo := hcounts b hb
        have hnil : (Sse.step keep ([], 0) (eventOf b)).1 = [] := by
          unfold Sse.step at htwo ⊢
          split_ifs at htwo ⊢
          · rfl
          · rfl
          · omega
        rw [hnil]
        exact Nat.zero_le _
    have hlengths := congrArg List.length hscanned
    rw [List.length_append, List.length_flatMap, List.length_flatMap] at hlengths
    obtain ⟨hlengths, -⟩ := (sum_eq_iff hlength _).1 hlengths
    refine ⟨fun b hb => (onBlock_eq_iff (hplain b hb)).1 ?_, fun raw hraw => ?_⟩
    · rcases onBlock_cases (hplain b hb) with ⟨heq, -⟩ | ⟨_, _, _, -, -, -, hone, -⟩
      · exact heq
      · have htwo := hcounts b hb
        have hlen := hlengths b hb
        have hstep : Sse.step keep ([], 0) (eventOf b) = ([], 1) := by
          unfold Sse.step at htwo ⊢
          split_ifs at htwo ⊢
          · rfl
          · omega
          · omega
        rw [hstep] at htwo hlen ⊢
        exact Prod.ext (List.length_eq_zero_iff.1 hlen) htwo
    · by_contra hcut
      rw [Bool.not_eq_false] at hcut
      have hblank := blank_of_mem_pending raw hraw
      obtain ⟨before, after, hsplit⟩ := List.append_of_mem hraw
      have hdrops := dropped_foldl ((before.foldl onRaw (clean 0 [])).onRaw raw) after
      rw [onRaw_of_isCut hblank hcut (line_foldl_onRaw rfl before)] at hdrops
      rw [hsplit, List.foldl_append, List.foldl_cons,
        onRaw_of_isCut hblank hcut (line_foldl_onRaw rfl before)] at htail
      simp only [clean] at hdrops htail
      omega
  · rintro ⟨hevents, hpending⟩
    have hsame : ∀ b ∈ rawEvents chunks.flatten,
        onBlock ([], 0) b = Sse.step keep ([], 0) (eventOf b) := fun b hb =>
      (onBlock_eq_iff (hplain b hb)).2 (hevents b hb)
    obtain ⟨hdropped, hacc⟩ := foldl_of_not_isCut blank_of_mem_pending hpending (clean 0 [])
    rw [hdropped, hacc]
    have hflat : ((rawEvents chunks.flatten).flatMap fun b => (onBlock ([], 0) b).1) =
        (rawEvents chunks.flatten).flatMap fun b => (Sse.step keep ([], 0) (eventOf b)).1 :=
      List.flatMap_congr fun b hb => by rw [hsame b hb]
    have hsum : ((rawEvents chunks.flatten).map fun b => (onBlock ([], 0) b).2) =
        (rawEvents chunks.flatten).map fun b => (Sse.step keep ([], 0) (eventOf b)).2 :=
      List.map_congr_left fun b hb => by rw [hsame b hb]
    rw [hflat, hsum]
    simp [clean]

/-! ## Agreement -/

/-- Whatever is done with the data of an event, the state is that of the reference. -/
def Agrees (chunks : List Bytes) : Prop :=
  ∀ (σ : Type) (scan : σ → Bytes → σ) (acc : σ),
    ((run scan acc chunks).acc, (run scan acc chunks).droppedEvents) = Sse.run scan acc chunks.flatten

theorem reference_scanWith {σ : Type} (scan : σ → Bytes → σ) (acc : σ) (stream : Bytes) :
    Sse.run scan acc stream =
      ((Sse.run keep [] stream).1.foldl scan acc, (Sse.run keep [] stream).2) := by
  unfold Sse.run
  have hfold : ∀ (events : List (List Bytes)) (s : List Bytes × Nat),
      events.foldl (Sse.step scan) (s.1.foldl scan acc, s.2) =
        ((events.foldl (Sse.step keep) s).1.foldl scan acc, (events.foldl (Sse.step keep) s).2) := by
    intro events
    induction events with
    | nil => exact fun s => rfl
    | cons e events ih =>
        intro s
        rw [List.foldl_cons, List.foldl_cons, ← ih]
        congr 1
        unfold Sse.step
        split_ifs <;> simp [keep]
  exact hfold _ ([], 0)

theorem agrees_iff (chunks : List Bytes) :
    Agrees chunks ↔
      ((run keep [] chunks).acc, (run keep [] chunks).droppedEvents) = Sse.run keep [] chunks.flatten := by
  refine ⟨fun h => h _ keep [], fun h σ scan acc => ?_⟩
  have hrun : run scan acc chunks = Trace.scanWith scan acc (run keep [] chunks) := by
    rw [run_eq, run_eq, ← feed_scanWith]
    rfl
  rw [hrun, reference_scanWith, ← h]
  rfl

/-- The buffers are within their bounds on every stream; and on a plain one, however it is cut into chunks,
    the extractor agrees with the reference exactly when no event is split. With `Acc.onEvent` for the scan
    this is the state of the source. -/
theorem usage_stream_matches (chunks : List Bytes) :
    (∀ (parse : Bytes → Option Json) (shape : Shape) (k : Nat),
        (run (Acc.onEvent parse shape) .default (chunks.take k)).Bounded) ∧
      (Sse.Plain chunks.flatten → (Agrees chunks ↔ Unsplit chunks.flatten)) :=
  ⟨fun _ _ _ => bounded_run _ _ _, fun h => (agrees_iff chunks).trans (trace_iff h)⟩

/-- A stream of one small event. -/
def smallStream : Bytes := wire "data: 1\n\n"

theorem usage_stream_matches_smallStream : Agrees [smallStream] ↔ Unsplit [smallStream].flatten :=
  (usage_stream_matches [smallStream]).2
    { no_bom := by decide
      cr_lf := by decide
      colon := by decide
      first := by decide }

/-! ## A line of the length of the buffer and one -/

def usageData : Bytes := wire "\x7b\"usage\":\x7b\"prompt_tokens\":1\x7d\x7d"

/-- A parser that knows one text. -/
def parseUsage (bytes : Bytes) : Option Json :=
  if bytes = usageData then
    some (.object [("usage".toList, .object [("prompt_tokens".toList, .number (some 1))])])
  else none

def longLine : Bytes := wire "data: " ++ List.replicate (maxLine - 5) 0x78

/-- An event with a line over the limit, and a usage behind it. -/
def longStream : Bytes := longLine ++ lf :: (wire "data: " ++ usageData ++ [lf, lf])

theorem length_longLine : longLine.length = maxLine + 1 := by
  have hlen : longLine.length = (wire "data: ").length + (maxLine - 5) := by
    rw [longLine, List.length_append, List.length_replicate]
  have hstart : (wire "data: ").length = 6 := by decide
  have hmax : 5 ≤ maxLine := by decide
  rw [hstart] at hlen
  omega

theorem longLine_clean : lf ∉ longLine ∧ cr ∉ longLine := by
  have hstart : lf ∉ wire "data: " ∧ cr ∉ wire "data: " := by decide
  have hfill : ∀ n, lf ∉ List.replicate n (0x78 : UInt8) ∧ cr ∉ List.replicate n (0x78 : UInt8) := by
    intro n
    constructor <;> intro hmem
    · exact absurd (List.eq_of_mem_replicate hmem) (by decide)
    · exact absurd (List.eq_of_mem_replicate hmem) (by decide)
  simp only [longLine, List.mem_append, not_or]
  exact ⟨⟨hstart.1, (hfill _).1⟩, hstart.2, (hfill _).2⟩

theorem run_longStream :
    (run (Acc.onEvent parseUsage .openAi) .default [longStream]).acc.input = some 1 := by
  have hresidual : residual longLine = [] := by
    rw [← List.length_eq_zero_iff, length_residual, length_longLine, Nat.mod_self]
  have hover : decide (maxLine < longLine.length) = true := by
    rw [length_longLine]
    exact decide_eq_true (Nat.lt_succ_self maxLine)
  rw [run_eq, List.flatten_singleton, longStream, feed_append_cons, feed_line _ rfl longLine_clean.1,
    hresidual, hover]
  decide +kernel

theorem linesFrom_append {line : Bytes} (hline : lf ∉ line ∧ cr ∉ line) (before rest : Bytes) :
    Sse.linesFrom before (line ++ rest) = Sse.linesFrom (before ++ line) rest := by
  induction line generalizing before with
  | nil => simp
  | cons b line ih =>
      simp only [List.mem_cons, not_or] at hline
      have hlf : b ≠ 10 := fun h => hline.1.1 h.symm
      have hcr : b ≠ 13 := fun h => hline.2.1 h.symm
      rw [List.cons_append, Sse.linesFrom, ih ⟨hline.1.2, hline.2.2⟩]
      · simp
      · exact fun _ h _ => hcr h
      · exact hcr
      · exact hlf

theorem reference_longStream :
    (Sse.run (Acc.onEvent parseUsage .openAi) .default longStream).1.input = none := by
  have hbom : Sse.bom.isPrefixOf longStream = false := rfl
  have hlines : Sse.lines longStream = [longLine, wire "data: " ++ usageData, []] := by
    have hrest : Sse.linesFrom longLine (lf :: (wire "data: " ++ usageData ++ [lf, lf])) =
        longLine :: Sse.linesFrom [] (wire "data: " ++ usageData ++ [lf, lf]) := rfl
    have htail : Sse.linesFrom [] (wire "data: " ++ usageData ++ [lf, lf]) =
        [wire "data: " ++ usageData, []] := by decide
    rw [Sse.lines, hbom, longStream]
    simp only [Bool.false_eq_true, if_false]
    rw [linesFrom_append longLine_clean, List.nil_append, hrest, htail]
  have hne : Sse.isBlank longLine = false := by
    rw [Sse.isBlank, decide_eq_false_iff_not]
    intro hnil
    have := length_longLine
    rw [hnil, List.length_nil] at this
    omega
  have hblocks : Sse.blocks Sse.isBlank [] [longLine, wire "data: " ++ usageData, []] =
      [[longLine, wire "data: " ++ usageData]] := by
    rw [Sse.blocks, hne]
    rfl
  have hover : Sse.isOver [longLine, wire "data: " ++ usageData] = true := by
    simp [Sse.isOver, length_longLine]
  rw [Sse.run, hlines, hblocks, List.foldl_cons, List.foldl_nil, Sse.step, if_pos hover]
  rfl

/-- The end of the long line is taken for the end of the event, and what is behind it is scanned. -/
theorem long_line_splits : ¬Agrees [longStream] := by
  intro h
  have hsame := (Prod.mk.inj ((h Acc (Acc.onEvent parseUsage .openAi) .default).trans Prod.mk.eta.symm)).1
  rw [List.flatten_singleton] at hsame
  have hinput := congrArg Acc.input hsame
  rw [run_longStream, reference_longStream] at hinput
  cases hinput

end UsageExtractor

end Tethra.Gateway
