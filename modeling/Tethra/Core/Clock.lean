import Tethra.Core.Error

set_option autoImplicit false

/-! # Timestamps (`core/src/clock.rs`)

Persisted timestamps are RFC 3339 strings in UTC, and they are compared as strings. A fraction is
written only when it is not zero, so the strings of a first second lie on both sides of the string of
its hour (`toRfc3339_lt_hourStart`). -/

namespace Tethra.Clock

structure Timestamp where
  year : Nat
  month : Nat
  day : Nat
  hour : Nat
  minute : Nat
  second : Nat
  nanos : Nat
  year_lt : year < 10000
  month_lt : month < 13
  day_lt : day < 32
  hour_lt : hour < 24
  minute_lt : minute < 60
  second_lt : second < 60
  nanos_lt : nanos < 1000000000
  deriving DecidableEq, Repr

/-- The timestamp of fields that are all within their bounds. -/
def Timestamp.ofFields (year month day hour minute second nanos : Nat)
    (h : year < 10000 ∧ month < 13 ∧ day < 32 ∧ hour < 24 ∧ minute < 60 ∧ second < 60 ∧ nanos < 1000000000) :
    Timestamp :=
  ⟨year, month, day, hour, minute, second, nanos, h.1, h.2.1, h.2.2.1, h.2.2.2.1, h.2.2.2.2.1, h.2.2.2.2.2.1,
    h.2.2.2.2.2.2⟩

def digit (n : Nat) : Char := Char.ofNat ('0'.toNat + n % 10)

/-- The last `n` digits of a number. -/
def pad : Nat → Nat → Str
  | 0, _ => []
  | n + 1, v => pad n (v / 10) ++ [digit v]

@[simp] theorem length_pad (n v : Nat) : (pad n v).length = n := by
  induction n generalizing v with
  | zero => rfl
  | succ n ih => simp [pad, ih]

/-- `YYYY-MM-DD`. -/
def Timestamp.dayKey (t : Timestamp) : Str := pad 4 t.year ++ '-' :: pad 2 t.month ++ '-' :: pad 2 t.day

/-- `YYYY-MM-DDTHH`. -/
def Timestamp.hourKey (t : Timestamp) : Str := t.dayKey ++ 'T' :: pad 2 t.hour

/-- The fraction of a second, without the zeros at its end. -/
def Timestamp.fraction (t : Timestamp) : Str :=
  if t.nanos = 0 then [] else '.' :: (pad 9 t.nanos).rdropWhile (· == '0')

def Timestamp.toRfc3339 (t : Timestamp) : Str :=
  t.hourKey ++ (':' :: pad 2 t.minute ++ (':' :: pad 2 t.second ++ (t.fraction ++ ['Z'])))

@[simp] theorem Timestamp.length_dayKey (t : Timestamp) : t.dayKey.length = 10 := by
  simp [Timestamp.dayKey]

@[simp] theorem Timestamp.length_hourKey (t : Timestamp) : t.hourKey.length = 13 := by
  simp [Timestamp.hourKey]

/-- The first instant of the hour with the key `h`, as a string. -/
def hourStart (h : Str) : Str := h ++ ":00:00Z".toList

/-- The first instant of the day with the key `d`, as a string. -/
def dayStart (d : Str) : Str := d ++ "T00:00:00Z".toList

def epoch : Str := "1970-01-01T00:00:00Z".toList

def hourFloor (ts : Str) : Str := if 13 ≤ ts.length then hourStart (ts.take 13) else epoch

def dayFloor (hour : Str) : Str := if 10 ≤ hour.length then dayStart (hour.take 10) else epoch

/-! ## Comparing strings -/

/-- Strings that begin with parts of one length are compared part by part. -/
theorem lt_append {α : Type} [LinearOrder α] {a b u v : List α} (h : a.length = b.length) :
    a ++ u < b ++ v ↔ a < b ∨ a = b ∧ u < v := by
  induction a generalizing b with
  | nil =>
      obtain rfl := List.eq_nil_of_length_eq_zero h.symm
      simp
  | cons x a ih =>
      obtain ⟨y, b, rfl⟩ := List.exists_cons_of_length_eq_add_one h.symm
      rw [List.cons_append, List.cons_append, List.cons_lt_cons_iff, List.cons_lt_cons_iff,
        ih (Nat.succ.inj h)]
      constructor
      · rintro (hlt | ⟨rfl, hlt | ⟨rfl, hlt⟩⟩)
        · exact .inl (.inl hlt)
        · exact .inl (.inr ⟨rfl, hlt⟩)
        · exact .inr ⟨rfl, hlt⟩
      · rintro ((hlt | ⟨rfl, hlt⟩) | ⟨heq, hlt⟩)
        · exact .inl hlt
        · exact .inr ⟨rfl, .inl hlt⟩
        · obtain ⟨rfl, rfl⟩ := List.cons.inj heq
          exact .inr ⟨rfl, .inr ⟨rfl, hlt⟩⟩

theorem hourStart_lt {f g : Str} (h : f.length = g.length) : hourStart f < hourStart g ↔ f < g := by
  rw [hourStart, hourStart, lt_append h]
  simp

theorem dayStart_lt {d e : Str} (h : d.length = e.length) : dayStart d < dayStart e ↔ d < e := by
  rw [dayStart, dayStart, lt_append h]
  simp

theorem hourStart_le {f g : Str} (h : f.length = g.length) : hourStart f ≤ hourStart g ↔ f ≤ g := by
  rw [← not_lt, ← not_lt, hourStart_lt h.symm]

/-- The timestamp lies in the first second of its hour, behind its first instant. -/
def Timestamp.InFirstSecond (t : Timestamp) : Prop := t.minute = 0 ∧ t.second = 0 ∧ t.nanos ≠ 0

instance (t : Timestamp) : Decidable t.InFirstSecond :=
  inferInstanceAs (Decidable (_ ∧ _ ∧ _))

/-- Two digits are not before `00`, and they are `00` only for zero. -/
theorem pad_two {n : Nat} (h : n < 60) :
    ¬pad 2 n < ['0', '0'] ∧ (pad 2 n = ['0', '0'] ↔ n = 0) := by
  have hall : ∀ m < 60, ¬pad 2 m < ['0', '0'] ∧ (pad 2 m = ['0', '0'] ↔ m = 0) := by
    decide
  exact hall n h

theorem fraction_lt (t : Timestamp) : t.fraction ++ ['Z'] < ['Z'] ↔ t.nanos ≠ 0 := by
  unfold Timestamp.fraction
  by_cases h : t.nanos = 0
  · simp [h]
  · rw [if_neg h, List.cons_append, List.cons_lt_cons_iff]
    exact ⟨fun _ => h, fun _ => .inl (by decide)⟩

/-- What follows the hour is before `:00:00Z` only within the first second. -/
theorem minutes_lt (t : Timestamp) :
    ':' :: pad 2 t.minute ++ (':' :: pad 2 t.second ++ (t.fraction ++ ['Z'])) < ":00:00Z".toList ↔
      t.InFirstSecond := by
  obtain ⟨hmin, hmin0⟩ := pad_two t.minute_lt
  obtain ⟨hsec, hsec0⟩ := pad_two t.second_lt
  have hbound : ":00:00Z".toList = ':' :: ['0', '0'] ++ (':' :: ['0', '0'] ++ ['Z']) := rfl
  rw [hbound, lt_append (by simp), lt_append (by simp), fraction_lt, List.cons_lt_cons_iff,
    List.cons_lt_cons_iff]
  simp only [lt_irrefl, true_and, false_or, List.cons.injEq, hmin, hsec, hmin0, hsec0]
  rfl

/-- A timestamp is before the start of an hour when its hour is, or when it lies in the first second of
    that hour. -/
theorem toRfc3339_lt_hourStart (t : Timestamp) {g : Str} (hg : g.length = 13) :
    t.toRfc3339 < hourStart g ↔ t.hourKey < g ∨ t.hourKey = g ∧ t.InFirstSecond := by
  rw [Timestamp.toRfc3339, hourStart, lt_append (by rw [t.length_hourKey, hg]), minutes_lt]

theorem hourStart_le_toRfc3339 (t : Timestamp) {f : Str} (hf : f.length = 13) :
    hourStart f ≤ t.toRfc3339 ↔ f < t.hourKey ∨ f = t.hourKey ∧ ¬t.InFirstSecond := by
  rw [← not_lt, toRfc3339_lt_hourStart t hf]
  rcases lt_trichotomy f t.hourKey with hlt | rfl | hgt
  · simp [hlt, hlt.ne', hlt.not_gt]
  · simp
  · simp [hgt, hgt.ne', hgt.not_gt]

/-! ## Hours and days -/

theorem hourFloor_toRfc3339 (t : Timestamp) : hourFloor t.toRfc3339 = hourStart t.hourKey := by
  have hlen := t.length_hourKey
  have htake : t.toRfc3339.take 13 = t.hourKey := by
    rw [Timestamp.toRfc3339, List.take_append_of_le_length hlen.ge, List.take_of_length_le hlen.le]
  have hlong : 13 ≤ t.toRfc3339.length := by
    rw [Timestamp.toRfc3339, List.length_append, hlen]
    omega
  rw [hourFloor, if_pos hlong, htake]

/-- A floor is the start of an hour. -/
theorem exists_hourFloor (ts : Str) : ∃ h, h.length = 13 ∧ hourFloor ts = hourStart h := by
  unfold hourFloor
  split
  · exact ⟨ts.take 13, by simpa using ‹13 ≤ ts.length›, rfl⟩
  · exact ⟨"1970-01-01T00".toList, rfl, rfl⟩

theorem hourFloor_hourStart {h : Str} (hh : h.length = 13) :
    hourFloor (hourStart h) = hourStart h := by
  have hlong : 13 ≤ (hourStart h).length := by
    rw [hourStart, List.length_append, hh]
    omega
  have htake : (hourStart h).take 13 = h := by
    rw [hourStart, List.take_append_of_le_length hh.ge, List.take_of_length_le hh.le]
  rw [hourFloor, if_pos hlong, htake]

theorem dayFloor_hourStart {h : Str} (hh : h.length = 13) :
    dayFloor (hourStart h) = dayStart (h.take 10) := by
  have hlong : 10 ≤ (hourStart h).length := by
    rw [hourStart, List.length_append, hh]
    omega
  rw [dayFloor, if_pos hlong, hourStart, List.take_append_of_le_length (by omega)]

theorem Timestamp.take_hourKey (t : Timestamp) : t.hourKey.take 10 = t.dayKey := by
  have hlen := t.length_dayKey
  rw [Timestamp.hourKey, List.take_append_of_le_length hlen.ge, List.take_of_length_le hlen.le]

/-- The days of hours are in the hours' order. -/
theorem take_le_dayKey (t : Timestamp) {f : Str} (hf : f.length = 13) (h : f ≤ t.hourKey) :
    f.take 10 ≤ t.dayKey := by
  rw [← not_lt] at h ⊢
  intro hlt
  refine h ?_
  have hsplit : f = f.take 10 ++ f.drop 10 := (List.take_append_drop 10 f).symm
  rw [hsplit, Timestamp.hourKey, lt_append (by simp [hf])]
  exact .inl hlt

/-- The start of an hour is not before a day when its day is not. -/
theorem dayStart_le_hourStart (t : Timestamp) {d : Str} (hd : d.length = 10) :
    dayStart d ≤ hourStart t.hourKey ↔ d ≤ t.dayKey := by
  have hhour : ¬ 'T' :: pad 2 t.hour ++ ":00:00Z".toList < "T00:00:00Z".toList := by
    obtain ⟨hlt, -⟩ := pad_two (t.hour_lt.trans (by decide))
    have hbound : "T00:00:00Z".toList = 'T' :: ['0', '0'] ++ ":00:00Z".toList := rfl
    rw [hbound, lt_append (by simp), List.cons_lt_cons_iff]
    simp [hlt]
  rw [← not_lt, ← not_lt, hourStart, Timestamp.hourKey, List.append_assoc, dayStart,
    lt_append (by rw [t.length_dayKey, hd])]
  refine not_congr ⟨fun h => ?_, .inl⟩
  exact h.resolve_right fun heq => hhour heq.2

end Tethra.Clock
