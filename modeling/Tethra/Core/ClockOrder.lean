import Tethra.Core.Clock
import Mathlib.Data.List.Lex
import Mathlib.Data.Nat.Digits.Lemmas

set_option autoImplicit false

/-! # The order of timestamps and the order of their strings (`core/src/clock.rs`)

Instants are ordered by their calendar fields, from the year down to the nanosecond. The strings are
ordered byte by byte, and the fraction is written without the zeros at its end: where one fraction
continues the other, a digit or a point meets the final `Z`, and the string of the later instant is
the smaller one. Elsewhere the two orders agree (`toRfc3339_lt_iff`). -/

namespace Tethra.Clock

/-- The calendar fields, the most significant first. -/
def Timestamp.fields (t : Timestamp) : List Nat :=
  [t.year, t.month, t.day, t.hour, t.minute, t.second, t.nanos]

theorem Timestamp.fields_injective : Function.Injective Timestamp.fields := by
  rintro ⟨⟩ ⟨⟩ h
  simpa [Timestamp.fields] using h

/-- The order of the instants. -/
instance : LinearOrder Timestamp := LinearOrder.lift' Timestamp.fields Timestamp.fields_injective

theorem Timestamp.lt_def (t u : Timestamp) : t < u ↔ t.fields < u.fields := Iff.rfl

/-! ## Digits -/

theorem digit_lt (a b : Nat) : digit a < digit b ↔ a % 10 < b % 10 := by
  have hall : ∀ i < 10, ∀ j < 10, (Char.ofNat ('0'.toNat + i) < Char.ofNat ('0'.toNat + j) ↔ i < j) := by
    decide
  exact hall _ (Nat.mod_lt a (by decide)) _ (Nat.mod_lt b (by decide))

theorem digit_bounds (a : Nat) : '0' ≤ digit a ∧ digit a < 'Z' := by
  have hall : ∀ i < 10, '0' ≤ Char.ofNat ('0'.toNat + i) ∧ Char.ofNat ('0'.toNat + i) < 'Z' := by
    decide
  exact hall _ (Nat.mod_lt a (by decide))

theorem digit_inj (a b : Nat) : digit a = digit b ↔ a % 10 = b % 10 := by
  have hab := digit_lt a b
  have hba := digit_lt b a
  constructor
  · intro h
    rw [h, lt_self_iff_false, false_iff] at hab
    rw [h, lt_self_iff_false, false_iff] at hba
    omega
  · intro h
    rw [digit, digit, h]

theorem pad_inj {n v w : Nat} (hv : v < 10 ^ n) (hw : w < 10 ^ n) : pad n v = pad n w ↔ v = w := by
  refine ⟨fun h => ?_, fun h => h ▸ rfl⟩
  induction n generalizing v w with
  | zero => omega
  | succ n ih =>
      rw [pad, pad] at h
      obtain ⟨hinit, hlast⟩ := List.append_inj h (by simp)
      have hdiv := ih (by omega) (by omega) hinit
      have hmod := (digit_inj v w).1 (List.head_eq_of_cons_eq hlast)
      omega

/-- Numbers of as many digits are in the order of their digits. -/
theorem pad_lt {n v w : Nat} (hv : v < 10 ^ n) (hw : w < 10 ^ n) : pad n v < pad n w ↔ v < w := by
  induction n generalizing v w with
  | zero =>
      rw [pow_zero] at hv hw
      simp [pad]
      omega
  | succ n ih =>
      have hv' : v / 10 < 10 ^ n := by omega
      have hw' : w / 10 < 10 ^ n := by omega
      rw [pad, pad, lt_append (by simp), ih hv' hw', pad_inj hv' hw', List.cons_lt_cons_iff, digit_lt]
      simp only [lt_self_iff_false, and_false, or_false]
      omega

theorem mem_pad {n v : Nat} {c : Char} (h : c ∈ pad n v) : '0' ≤ c ∧ c < 'Z' := by
  induction n generalizing v with
  | zero => cases h
  | succ n ih =>
      rw [pad, List.mem_append, List.mem_singleton] at h
      rcases h with h | rfl
      · exact ih h
      · exact digit_bounds v

/-! ## Strings that part -/

/-- Neither string continues the other. -/
def Parted (a b : Str) : Prop := ¬a <+: b ∧ ¬b <+: a

/-- Strings that part are ordered where they do, whatever follows them. -/
theorem Parted.lt_iff {a b : Str} (h : Parted a b) (u v u' v' : Str) :
    a ++ u < b ++ v ↔ a ++ u' < b ++ v' := by
  induction a generalizing b with
  | nil => exact absurd List.nil_prefix h.1
  | cons x a ih =>
      cases b with
      | nil => exact absurd List.nil_prefix h.2
      | cons y b =>
          rw [List.cons_append, List.cons_append, List.cons_append, List.cons_append,
            List.cons_lt_cons_iff, List.cons_lt_cons_iff]
          refine or_congr_right (and_congr_right ?_)
          rintro rfl
          refine ih ⟨fun hp => h.1 ?_, fun hp => h.2 ?_⟩
          · exact List.cons_prefix_cons.2 ⟨rfl, hp⟩
          · exact List.cons_prefix_cons.2 ⟨rfl, hp⟩

/-- Zeros are before every string of digits of their length. -/
theorem zeros_le {s : Str} (h : ∀ c ∈ s, '0' ≤ c) : List.replicate s.length '0' ≤ s := by
  induction s with
  | nil => simp
  | cons c s ih =>
      have hc := h c (List.mem_cons_self ..)
      have hs := ih fun d hd => h d (List.mem_cons_of_mem _ hd)
      rw [List.length_cons, List.replicate_succ, ← not_lt, List.cons_lt_cons_iff]
      rintro (hlt | ⟨-, hlt⟩)
      · exact absurd hlt (not_lt.2 hc)
      · exact absurd hlt (not_lt.2 hs)

/-! ## Seconds -/

/-- The calendar fields down to the second. -/
def Timestamp.toSecond (t : Timestamp) : List Nat :=
  [t.year, t.month, t.day, t.hour, t.minute, t.second]

/-- `YYYY-MM-DDTHH:MM:SS`. -/
def Timestamp.secondKey (t : Timestamp) : Str :=
  t.hourKey ++ ':' :: pad 2 t.minute ++ ':' :: pad 2 t.second

@[simp] theorem Timestamp.length_secondKey (t : Timestamp) : t.secondKey.length = 19 := by
  simp [Timestamp.secondKey]

theorem Timestamp.toRfc3339_eq (t : Timestamp) :
    t.toRfc3339 = t.secondKey ++ (t.fraction ++ ['Z']) := by
  simp [Timestamp.toRfc3339, Timestamp.secondKey]

theorem Timestamp.lt_iff (t u : Timestamp) :
    t < u ↔ t.toSecond < u.toSecond ∨ t.toSecond = u.toSecond ∧ t.nanos < u.nanos := by
  have hfields : ∀ s : Timestamp, s.fields = s.toSecond ++ [s.nanos] := fun _ => rfl
  rw [Timestamp.lt_def, hfields, hfields, lt_append (by simp [Timestamp.toSecond])]
  simp [List.cons_lt_cons_iff]

theorem pad_append_lt {n v w : Nat} (hv : v < 10 ^ n) (hw : w < 10 ^ n) (x y : Str) :
    pad n v ++ x < pad n w ++ y ↔ v < w ∨ v = w ∧ x < y := by
  rw [lt_append (by simp), pad_lt hv hw, pad_inj hv hw]

theorem cons_lt_cons_self (c : Char) (x y : Str) : c :: x < c :: y ↔ x < y := by
  simp

theorem secondKey_lt (t u : Timestamp) : t.secondKey < u.secondKey ↔ t.toSecond < u.toSecond := by
  have hy : ∀ s : Timestamp, s.year < 10 ^ 4 := fun s => s.year_lt
  have hm : ∀ s : Timestamp, s.month < 10 ^ 2 := fun s => s.month_lt.trans (by decide)
  have hd : ∀ s : Timestamp, s.day < 10 ^ 2 := fun s => s.day_lt.trans (by decide)
  have hh : ∀ s : Timestamp, s.hour < 10 ^ 2 := fun s => s.hour_lt.trans (by decide)
  have hmin : ∀ s : Timestamp, s.minute < 10 ^ 2 := fun s => s.minute_lt.trans (by decide)
  have hs : ∀ s : Timestamp, s.second < 10 ^ 2 := fun s => s.second_lt.trans (by decide)
  simp only [Timestamp.secondKey, Timestamp.hourKey, Timestamp.dayKey, List.append_assoc,
    List.cons_append, pad_append_lt (hy t) (hy u), pad_append_lt (hm t) (hm u),
    pad_append_lt (hd t) (hd u), pad_append_lt (hh t) (hh u), pad_append_lt (hmin t) (hmin u),
    pad_lt (hs t) (hs u), Timestamp.toSecond, List.cons_lt_cons_iff, lt_self_iff_false, and_false,
    or_false, false_or, true_and]

theorem secondKey_inj (t u : Timestamp) : t.secondKey = u.secondKey ↔ t.toSecond = u.toSecond := by
  rw [← not_iff_not, ← ne_eq, ← ne_eq, ne_iff_lt_or_gt, ne_iff_lt_or_gt, secondKey_lt, secondKey_lt]

/-- The strings of two timestamps are ordered by their seconds, then by what is written of their
    fractions. -/
theorem toRfc3339_lt (t u : Timestamp) :
    t.toRfc3339 < u.toRfc3339 ↔ t.toSecond < u.toSecond ∨
      t.toSecond = u.toSecond ∧ t.fraction ++ ['Z'] < u.fraction ++ ['Z'] := by
  rw [t.toRfc3339_eq, u.toRfc3339_eq, lt_append (by simp), secondKey_lt, secondKey_inj]

/-! ## Fractions -/

/-- A point and all nine digits. -/
def Timestamp.digits (t : Timestamp) : Str := '.' :: pad 9 t.nanos

theorem digits_lt (t u : Timestamp) : t.digits < u.digits ↔ t.nanos < u.nanos := by
  rw [Timestamp.digits, Timestamp.digits, cons_lt_cons_self, pad_lt t.nanos_lt u.nanos_lt]

/-- Behind a fraction that is written, the digits are zeros. -/
theorem digits_eq (t : Timestamp) :
    ∃ rest, t.digits = t.fraction ++ rest ∧ (t.nanos ≠ 0 → ∀ c ∈ rest, c = '0') := by
  unfold Timestamp.digits Timestamp.fraction
  split
  · exact ⟨_, rfl, fun h => absurd ‹_› h⟩
  · refine ⟨(pad 9 t.nanos).rtakeWhile (· == '0'), ?_, fun _ c hc => ?_⟩
    · rw [List.cons_append, List.rdropWhile_append_rtakeWhile]
    · simpa using List.mem_rtakeWhile_imp hc

theorem fraction_eq_nil (t : Timestamp) : t.fraction = [] ↔ t.nanos = 0 := by
  unfold Timestamp.fraction
  split <;> simp_all

theorem fraction_inj {t u : Timestamp} (h : t.fraction = u.fraction) : t.nanos = u.nanos := by
  by_cases ht : t.nanos = 0
  · rw [ht, (fraction_eq_nil u).1 (h ▸ (fraction_eq_nil t).2 ht)]
  · have hu : u.nanos ≠ 0 := fun hu => ht ((fraction_eq_nil t).1 (h ▸ (fraction_eq_nil u).2 hu))
    obtain ⟨r, hr, hr0⟩ := digits_eq t
    obtain ⟨s, hs, hs0⟩ := digits_eq u
    have hlen : r.length = s.length := by
      have hr' := congrArg List.length hr
      have hs' := congrArg List.length hs
      simp only [Timestamp.digits, List.length_cons, length_pad, List.length_append] at hr' hs'
      rw [h] at hr'
      omega
    have hrs : r = s := by
      rw [List.eq_replicate_of_mem (hr0 ht), List.eq_replicate_of_mem (hs0 hu), hlen]
    have hdigits : t.digits = u.digits := by rw [hr, hs, h, hrs]
    exact (pad_inj t.nanos_lt u.nanos_lt).1 (List.cons.inj hdigits).2

theorem mem_fraction {t : Timestamp} {c : Char} (h : c ∈ t.fraction) : c < 'Z' := by
  unfold Timestamp.fraction at h
  split at h
  · cases h
  · rcases List.mem_cons.1 h with rfl | h
    · decide
    · exact (mem_pad ((List.rdropWhile_prefix _ _).mem h)).2

/-- Where the fraction of `u` continues that of `t`, `u` is the later instant. -/
theorem nanos_lt_of_prefix {t u : Timestamp} (hp : t.fraction <+: u.fraction)
    (hne : t.fraction ≠ u.fraction) : t.nanos < u.nanos := by
  have hnanos : t.nanos ≠ u.nanos := by
    intro h
    refine hne ?_
    rw [Timestamp.fraction, Timestamp.fraction, h]
  by_cases ht : t.nanos = 0
  · omega
  · refine lt_of_le_of_ne ?_ hnanos
    obtain ⟨r, hr, hr0⟩ := digits_eq t
    obtain ⟨s, hs, -⟩ := digits_eq u
    obtain ⟨g, hg⟩ := hp
    have hsuffix : g ++ s = (pad 9 u.nanos).drop (t.fraction.length - 1) := by
      have hdrop := congrArg (List.drop t.fraction.length) hs
      rw [← hg, List.append_assoc, List.drop_left] at hdrop
      have hpos : t.fraction.length = (t.fraction.length - 1) + 1 := by
        have := List.length_pos_iff.2 (mt (fraction_eq_nil t).1 ht)
        omega
      rw [← hdrop, hpos, Timestamp.digits, List.drop_succ_cons]
      rfl
    have hlen : (g ++ s).length = r.length := by
      have hr' := congrArg List.length hr
      have hs' := congrArg List.length hs
      rw [← hg] at hs'
      simp only [Timestamp.digits, List.length_cons, length_pad, List.length_append] at hr' hs' ⊢
      omega
    have hzeros : r ≤ g ++ s := by
      rw [List.eq_replicate_of_mem (hr0 ht), ← hlen]
      refine zeros_le fun c hc => ?_
      rw [hsuffix] at hc
      exact (mem_pad (List.mem_of_mem_drop hc)).1
    rw [← not_lt, ← digits_lt, hr, hs, ← hg, List.append_assoc, lt_append rfl]
    rintro (h | ⟨-, h⟩)
    · exact lt_irrefl _ h
    · exact absurd hzeros (not_le.2 h)

/-! ## The two orders -/

/-- Within one second, the written fraction of one timestamp continues that of the other. -/
def Crossed (t u : Timestamp) : Prop :=
  t.toSecond = u.toSecond ∧ t.fraction ≠ u.fraction ∧
    (t.fraction <+: u.fraction ∨ u.fraction <+: t.fraction)

instance (t u : Timestamp) : Decidable (Crossed t u) := inferInstanceAs (Decidable (_ ∧ _ ∧ _))

theorem Crossed.symm {t u : Timestamp} (h : Crossed t u) : Crossed u t :=
  ⟨h.1.symm, Ne.symm h.2.1, h.2.2.symm⟩

/-- The string of the later instant is the smaller one. -/
theorem toRfc3339_lt_of_prefix {t u : Timestamp} (hsec : t.toSecond = u.toSecond)
    (hp : t.fraction <+: u.fraction) (hne : t.fraction ≠ u.fraction) :
    t < u ∧ u.toRfc3339 < t.toRfc3339 := by
  refine ⟨(t.lt_iff u).2 (.inr ⟨hsec, nanos_lt_of_prefix hp hne⟩),
    (toRfc3339_lt u t).2 (.inr ⟨hsec.symm, ?_⟩)⟩
  obtain ⟨g, hg⟩ := hp
  cases g with
  | nil => exact absurd (by simpa using hg) hne
  | cons c g =>
      have hc : c < 'Z' := mem_fraction (t := u) (hg ▸ by simp)
      rw [← hg, List.append_assoc, lt_append rfl, List.cons_append, List.cons_lt_cons_iff]
      exact .inr ⟨rfl, .inl hc⟩

theorem toRfc3339_lt_of_parted {t u : Timestamp} (h : Parted t.fraction u.fraction) :
    t.fraction ++ ['Z'] < u.fraction ++ ['Z'] ↔ t.nanos < u.nanos := by
  obtain ⟨r, hr, -⟩ := digits_eq t
  obtain ⟨s, hs, -⟩ := digits_eq u
  rw [← digits_lt, hr, hs]
  exact h.lt_iff _ _ _ _

/-- The order of the strings is the order of the instants, unless they are crossed; then it is the
    other one. -/
theorem toRfc3339_lt_iff (t u : Timestamp) :
    t.toRfc3339 < u.toRfc3339 ↔ if Crossed t u then u < t else t < u := by
  by_cases hsec : t.toSecond = u.toSecond
  · by_cases hfrac : t.fraction = u.fraction
    · have hnot : ¬Crossed t u := fun h => h.2.1 hfrac
      rw [if_neg hnot, toRfc3339_lt, t.lt_iff, hfrac, fraction_inj hfrac]
      simp
    · by_cases hp : t.fraction <+: u.fraction
      · obtain ⟨hlt, htext⟩ := toRfc3339_lt_of_prefix hsec hp hfrac
        rw [if_pos ⟨hsec, hfrac, .inl hp⟩]
        exact iff_of_false (lt_asymm htext) (lt_asymm hlt)
      · by_cases hp' : u.fraction <+: t.fraction
        · obtain ⟨hlt, htext⟩ := toRfc3339_lt_of_prefix hsec.symm hp' (Ne.symm hfrac)
          rw [if_pos ⟨hsec, hfrac, .inr hp'⟩]
          exact iff_of_true htext hlt
        · have hnot : ¬Crossed t u := fun h => h.2.2.elim hp hp'
          rw [if_neg hnot, toRfc3339_lt, t.lt_iff, toRfc3339_lt_of_parted ⟨hp, hp'⟩]
  · have hnot : ¬Crossed t u := fun h => hsec h.1
    rw [if_neg hnot, toRfc3339_lt, t.lt_iff]
    simp [hsec]

theorem Crossed.lt_iff {t u : Timestamp} (h : Crossed t u) :
    t.toRfc3339 < u.toRfc3339 ↔ u < t := by
  rw [toRfc3339_lt_iff, if_pos h]

theorem lt_iff_of_not_crossed {t u : Timestamp} (h : ¬Crossed t u) :
    t.toRfc3339 < u.toRfc3339 ↔ t < u := by
  rw [toRfc3339_lt_iff, if_neg h]

theorem toRfc3339_inj {t u : Timestamp} (h : t.toRfc3339 = u.toRfc3339) : t = u := by
  have htu : ¬t.toRfc3339 < u.toRfc3339 := h ▸ lt_irrefl _
  have hut : ¬u.toRfc3339 < t.toRfc3339 := h ▸ lt_irrefl _
  by_cases hc : Crossed t u
  · rw [hc.lt_iff, not_lt] at htu
    rw [hc.symm.lt_iff, not_lt] at hut
    exact le_antisymm htu hut
  · rw [lt_iff_of_not_crossed hc, not_lt] at htu
    rw [lt_iff_of_not_crossed fun h => hc h.symm, not_lt] at hut
    exact le_antisymm hut htu

/-- Crossed timestamps differ. -/
theorem Crossed.ne {t u : Timestamp} (h : Crossed t u) : t ≠ u := by
  rintro rfl
  exact h.2.1 rfl

/-- Comparing the strings compares the instants exactly when they are not crossed. -/
theorem toRfc3339_le_iff (t u : Timestamp) :
    (t.toRfc3339 ≤ u.toRfc3339 ↔ t ≤ u) ↔ ¬Crossed t u := by
  rw [← not_lt, ← not_lt, not_iff_not]
  by_cases hc : Crossed t u
  · refine iff_of_false (fun h => ?_) (not_not.2 hc)
    rw [hc.symm.lt_iff] at h
    rcases lt_or_gt_of_ne hc.ne with hlt | hgt
    · exact lt_asymm hlt (h.1 hlt)
    · exact lt_asymm hgt (h.2 hgt)
  · exact iff_of_true (lt_iff_of_not_crossed fun h => hc h.symm) hc

end Tethra.Clock
