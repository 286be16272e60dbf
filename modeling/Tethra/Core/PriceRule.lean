import Tethra.Core.ClockOrder
import Tethra.Core.PricingStore

set_option autoImplicit false

/-! # The documented rule of price resolution (`core/src/pricing.rs`, `choose_as_of`)

Dates are stored in the spelling they came in, as a day or as a timestamp, and compared as text with the
day of the usage. A text orders days as the calendar does, but a timestamp of the usage's own day is behind
that day, so that a price spelled so is held back until the next day. And where no price is in force, the
origin still comes before the date. The rule is met exactly where neither matters (`choose_as_of_rule_iff`). -/

namespace Tethra.Pricing

open Observe Clock

/-! ## Days and their texts -/

structure CalendarDate where
  year : Nat
  month : Nat
  day : Nat
  year_lt : year < 10000
  month_lt : month < 13
  day_lt : day < 32
  deriving Repr

namespace CalendarDate

def fields (d : CalendarDate) : List Nat := [d.year, d.month, d.day]

theorem fields_injective : Function.Injective fields := by
  rintro ⟨⟩ ⟨⟩ h
  simpa [fields] using h

instance : LinearOrder CalendarDate := LinearOrder.lift' fields fields_injective

theorem lt_def (d e : CalendarDate) : d < e ↔ d.fields < e.fields := Iff.rfl

/-- `YYYY-MM-DD`. -/
def text (d : CalendarDate) : Str := pad 4 d.year ++ ('-' :: pad 2 d.month ++ ('-' :: pad 2 d.day))

@[simp] theorem length_text (d : CalendarDate) : d.text.length = 10 := by
  simp [text]

theorem text_lt (d e : CalendarDate) : d.text < e.text ↔ d < e := by
  have hd := d.month_lt
  have he := e.month_lt
  have hd' := d.day_lt
  have he' := e.day_lt
  rw [lt_def, text, text, lt_append (by simp), lt_append (by simp), List.cons_lt_cons_iff, List.cons_lt_cons_iff,
    List.cons.injEq, pad_lt (by simpa using d.year_lt) (by simpa using e.year_lt), pad_lt (by omega) (by omega),
    pad_lt (by omega) (by omega), pad_inj (by simpa using d.year_lt) (by simpa using e.year_lt),
    pad_inj (by omega) (by omega), fields, fields, List.cons_lt_cons_iff, List.cons_lt_cons_iff, List.cons_lt_cons_iff]
  simp

theorem text_inj {d e : CalendarDate} (h : d.text = e.text) : d = e := by
  rcases lt_trichotomy d e with hlt | heq | hgt
  · exact absurd h ((text_lt d e).2 hlt).ne
  · exact heq
  · exact absurd h ((text_lt e d).2 hgt).ne'

/-- The characters of a day are ASCII. -/
theorem utf8Size_of_mem_text {d : CalendarDate} {c : Char} (h : c ∈ d.text) : c.utf8Size = 1 := by
  have hpad : ∀ n v, c ∈ pad n v → c.utf8Size = 1 := by
    intro n v hc
    obtain ⟨-, hlt⟩ := mem_pad hc
    have hval : c.val < 'Z'.val := hlt
    rw [Char.utf8Size_eq_one_iff]
    exact UInt32.le_of_lt (UInt32.lt_trans hval (by decide))
  simp only [text, List.cons_append, List.mem_append, List.mem_cons] at h
  rcases h with h | rfl | h | rfl | h
  · exact hpad _ _ h
  · rfl
  · exact hpad _ _ h
  · rfl
  · exact hpad _ _ h

end CalendarDate

/-- The text starts with the day: it is the day, or a timestamp of it. -/
def Spells (t : Str) (d : CalendarDate) : Prop := ∃ rest, t = d.text ++ rest

/-- What `parse_user_date` accepts: days and RFC 3339 timestamps, which all start with their day. -/
structure Dates (env : PricingEnv) where
  day : Str → CalendarDate
  spelled : ∀ t, (env.parseUserDate t).isSome = true → Spells t (day t)

theorem takeBytes_append {a : Str} (h : ∀ c ∈ a, c.utf8Size = 1) (rest : Str) :
    takeBytes a.length (a ++ rest) = some a := by
  induction a with
  | nil =>
      cases rest with
      | nil => rfl
      | cons c rest => simp [takeBytes]
  | cons c a ih =>
      have hc : c.utf8Size = 1 := h c (List.mem_cons_self ..)
      have hrest := ih fun d hd => h d (List.mem_cons_of_mem _ hd)
      simp [takeBytes, hc, hrest]

theorem datePrefix_spelled {t : Str} {d : CalendarDate} (h : Spells t d) : datePrefix t = some d.text := by
  obtain ⟨rest, rfl⟩ := h
  have hsize : ∀ c ∈ d.text, c.utf8Size = 1 := fun c hc => CalendarDate.utf8Size_of_mem_text hc
  have hsum : byteLen d.text = 10 := by
    rw [byteLen, List.map_congr_left hsize]
    simp
  have hlong : 10 ≤ byteLen (d.text ++ rest) := by
    rw [byteLen, List.map_append, List.sum_append]
    exact hsum.ge.trans (Nat.le_add_right _ _)
  have htake := takeBytes_append hsize rest
  rw [d.length_text] at htake
  rw [datePrefix, if_pos hlong, htake]

/-- What is not behind a day, as text: what is spelled with an earlier day, and that day itself. -/
theorem spelled_le {t : Str} {d e : CalendarDate} (h : Spells t d) :
    t ≤ e.text ↔ d < e ∨ t = e.text := by
  obtain ⟨rest, rfl⟩ := h
  have hlt : e.text < d.text ++ rest ↔ e.text < d.text ∨ e.text = d.text ∧ [] < rest := by
    have happend := @lt_append Char _ e.text d.text [] rest (by simp)
    rwa [List.append_nil] at happend
  rw [← not_lt, hlt, CalendarDate.text_lt]
  constructor
  · intro h
    rcases lt_trichotomy d e with hde | rfl | hed
    · exact .inl hde
    · refine .inr ?_
      cases rest with
      | nil => rw [List.append_nil]
      | cons c rest => exact absurd (.inr ⟨rfl, List.nil_lt_cons ..⟩) h
    · exact absurd (.inl hed) h
  · rintro (hde | heq) (hed | ⟨htext, hrest⟩)
    · exact absurd hde hed.not_gt
    · exact absurd (CalendarDate.text_inj htext).symm hde.ne
    · have hlen := congrArg List.length heq
      rw [List.length_append, d.length_text, e.length_text] at hlen
      obtain rfl := List.eq_nil_of_length_eq_zero (by omega : rest.length = 0)
      rw [List.append_nil] at heq
      exact absurd (CalendarDate.text_inj heq).symm hed.ne
    · have hlen := congrArg List.length heq
      rw [List.length_append, d.length_text, e.length_text] at hlen
      obtain rfl := List.eq_nil_of_length_eq_zero (by omega : rest.length = 0)
      exact absurd hrest (lt_irrefl _)

/-- Texts order days as the calendar does. -/
theorem day_le_of_le {t u : Str} {d e : CalendarDate} (ht : Spells t d) (hu : Spells u e) (h : t ≤ u) : d ≤ e := by
  obtain ⟨rest, rfl⟩ := ht
  obtain ⟨rest', rfl⟩ := hu
  by_contra hlt
  rw [← not_lt, lt_append (by simp), CalendarDate.text_lt] at h
  exact h (.inl (not_le.1 hlt))

/-! ## The rule -/

/-- The record matches the model's id with a longest model string. -/
structure MostSpecific (modelL : Str) (candidates : List PricingRecord) (r : PricingRecord) : Prop where
  mem : r ∈ candidates
  prices : r.prices modelL = true
  longest : ∀ s ∈ candidates, s.prices modelL = true → byteLen s.model ≤ byteLen r.model

theorem mem_specific {modelL : Str} {candidates : List PricingRecord} {r : PricingRecord} :
    r ∈ specific modelL candidates ↔ MostSpecific modelL candidates r := by
  have hmatching : ∀ s, s ∈ candidates.filter (·.prices modelL) ↔ s ∈ candidates ∧ s.prices modelL = true :=
    fun s => List.mem_filter
  unfold specific
  rw [List.mem_filter, hmatching, decide_eq_true_eq]
  constructor
  · rintro ⟨⟨hmem, hprices⟩, hlen⟩
    exact ⟨hmem, hprices, fun s hs hs' => hlen ▸ le_bestLen ((hmatching s).2 ⟨hs, hs'⟩)⟩
  · rintro ⟨hmem, hprices, hlongest⟩
    refine ⟨⟨hmem, hprices⟩, le_antisymm (le_bestLen ((hmatching r).2 ⟨hmem, hprices⟩)) ?_⟩
    obtain ⟨s, hs, hlen⟩ := exists_bestLen (List.ne_nil_of_mem ((hmatching r).2 ⟨hmem, hprices⟩))
    obtain ⟨hs, hs'⟩ := (hmatching s).1 hs
    exact hlen ▸ hlongest s hs hs'

section Rule

variable {env : PricingEnv} (dates : Dates env) (now modelL : Str) (candidates : List PricingRecord)
  (usage : CalendarDate)

/-- The day the price of a record takes effect. -/
def Dates.from (r : PricingRecord) : CalendarDate := dates.day r.effectiveFrom

/-- The record is the one in force: it has taken effect, and of those that have, none is of a higher origin,
    and none of its origin is later. -/
def InForce (r : PricingRecord) : Prop :=
  dates.from r ≤ usage ∧ ∀ s, MostSpecific modelL candidates s → dates.from s ≤ usage →
    s.origin.rank < r.origin.rank ∨ s.origin.rank = r.origin.rank ∧ dates.from s ≤ dates.from r

/-- None has taken effect, and the record is an earliest one. -/
def EarliestKnown (r : PricingRecord) : Prop :=
  (∀ s, MostSpecific modelL candidates s → usage < dates.from s) ∧
    ∀ s, MostSpecific modelL candidates s → dates.from r ≤ dates.from s

/-- The documented rule: what a resolution may return. -/
def Rule : Option PricingRecord → Prop
  | none => ∀ r ∈ candidates, r.prices modelL = false
  | some c => ∃ r, MostSpecific modelL candidates r ∧
      (InForce dates modelL candidates usage r ∧ c = { r with stale := r.isStale env now } ∨
        EarliestKnown dates modelL candidates usage r ∧
          c = { r.extrapolated with stale := r.extrapolated.isStale env now })

/-- A record that takes effect on the usage's day, spelled as a timestamp, is held back: a plain text of that day
    in its origin, or a record in force of a higher origin, makes up for it. -/
def MadeUpFor (h : PricingRecord) : Prop :=
  ∃ r, MostSpecific modelL candidates r ∧
    (h.origin.rank < r.origin.rank ∧ (dates.from r < usage ∨ r.effectiveFrom = usage.text) ∨
      h.origin.rank = r.origin.rank ∧ r.effectiveFrom = usage.text)

/-- Where the text of dates and the precedence of origins do not matter. -/
structure InStep : Prop where
  heldBack : ∀ h, MostSpecific modelL candidates h → dates.from h = usage → h.effectiveFrom ≠ usage.text →
    MadeUpFor dates modelL candidates usage h
  earliest : (∀ s, MostSpecific modelL candidates s → usage < dates.from s) →
    ∀ s, MostSpecific modelL candidates s → ∃ r, MostSpecific modelL candidates r ∧
      (∀ t, MostSpecific modelL candidates t → t.origin.rank ≤ r.origin.rank) ∧ dates.from r ≤ dates.from s

end Rule

/-! ## What the code chooses -/

theorem mem_inForce {date : Str} {records : List PricingRecord} {r : PricingRecord}
    (h : inForce date records = some r) :
    r ∈ records ∧ r.effectiveFrom ≤ date ∧ ∀ s ∈ records, s.effectiveFrom ≤ date →
      s.origin.rank < r.origin.rank ∨ s.origin.rank = r.origin.rank ∧ s.effectiveFrom ≤ r.effectiveFrom := by
  unfold inForce at h
  have hmem := List.argmax_mem h
  rw [List.mem_reverse, List.mem_filter, decide_eq_true_eq] at hmem
  refine ⟨hmem.1, hmem.2, fun s hs hle => ?_⟩
  have hin : s ∈ (records.filter fun r => decide (r.effectiveFrom ≤ date)).reverse := by
    rw [List.mem_reverse, List.mem_filter]
    exact ⟨hs, decide_eq_true hle⟩
  exact Prod.Lex.toLex_le_toLex.1 (List.le_of_mem_argmax hin h)

theorem mem_earliest {records : List PricingRecord} {e : PricingRecord} (h : earliest records = some e) :
    e ∈ records ∧ ∀ s ∈ records,
      s.origin.rank < e.origin.rank ∨ s.origin.rank = e.origin.rank ∧ e.effectiveFrom ≤ s.effectiveFrom := by
  unfold earliest at h
  refine ⟨List.argmin_mem h, fun s hs => ?_⟩
  obtain hlt | ⟨heq, hle⟩ := Prod.Lex.toLex_le_toLex.1 (List.le_of_mem_argmin hs h)
  · exact .inl (OrderDual.toDual_lt_toDual.1 hlt)
  · exact .inr ⟨(OrderDual.toDual_inj.1 heq).symm, hle⟩

theorem extrapolated_ne {r e : PricingRecord} {x y : Bool} (hkey : r.key = e.key → r = e) :
    { r with stale := x } ≠ { e.extrapolated with stale := y } := by
  intro h
  obtain ⟨hprovider, hmodel, -, -, -, -, -, -, -, -, -, hfrom, -, horigin, -, hnote, -⟩ := PricingRecord.mk.inj h
  obtain rfl := hkey (by
    unfold PricingRecord.key
    rw [hprovider, hmodel, hfrom, horigin]
    rfl)
  have hlen := congrArg List.length hnote
  simp only [PricingRecord.extrapolated, List.length_append] at hlen
  split at hlen
  · rename_i hnil
    rw [hnil] at hlen
    simp at hlen
  · simp at hlen
    omega

/-! ## The rule is met -/

section Met

variable {env : PricingEnv} {dates : Dates env} {now modelL : Str} {candidates : List PricingRecord}
  {usage : CalendarDate}
  (hrecords : ∀ r ∈ candidates, (env.parseUserDate r.effectiveFrom).isSome = true)
  (hkeys : ∀ r ∈ candidates, ∀ s ∈ candidates, r.key = s.key → r = s)
include hrecords

variable (dates) in
/-- In force by its text: an earlier day, or the usage's day in its plain text. -/
theorem effectiveFrom_le {r : PricingRecord} (hr : r ∈ candidates) :
    r.effectiveFrom ≤ usage.text ↔ dates.from r < usage ∨ r.effectiveFrom = usage.text :=
  spelled_le (dates.spelled _ (hrecords r hr))

variable (dates) in
theorem from_of_text {r : PricingRecord} (hr : r ∈ candidates) (h : r.effectiveFrom = usage.text) :
    dates.from r = usage := by
  obtain ⟨rest, hrest⟩ := dates.spelled _ (hrecords r hr)
  have hlen := congrArg List.length (hrest.symm.trans h)
  rw [List.length_append, CalendarDate.length_text, CalendarDate.length_text] at hlen
  obtain rfl := List.eq_nil_of_length_eq_zero (by omega : rest.length = 0)
  rw [List.append_nil] at hrest
  exact CalendarDate.text_inj (hrest.symm.trans h)

theorem from_le_of_effectiveFrom_le {r : PricingRecord} (hr : r ∈ candidates) (h : r.effectiveFrom ≤ usage.text) :
    dates.from r ≤ usage := by
  rcases (effectiveFrom_le dates hrecords hr).1 h with hlt | heq
  · exact hlt.le
  · exact (from_of_text dates hrecords hr heq).le

theorem from_mono {r s : PricingRecord} (hr : r ∈ candidates) (hs : s ∈ candidates)
    (h : r.effectiveFrom ≤ s.effectiveFrom) : dates.from r ≤ dates.from s :=
  day_le_of_le (dates.spelled _ (hrecords r hr)) (dates.spelled _ (hrecords s hs)) h

/-- What the text puts in force is what the calendar does, unless a price is held back for nothing. -/
theorem inForce_of_heldBack {r : PricingRecord}
    (hheld : ∀ h, MostSpecific modelL candidates h → dates.from h = usage → h.effectiveFrom ≠ usage.text →
      MadeUpFor dates modelL candidates usage h)
    (h : inForce usage.text (specific modelL candidates) = some r) :
    MostSpecific modelL candidates r ∧ InForce dates modelL candidates usage r := by
  obtain ⟨hmem, hle, hbest⟩ := mem_inForce h
  have hr := mem_specific.1 hmem
  refine ⟨hr, from_le_of_effectiveFrom_le hrecords hr.mem hle, fun s hs hin => ?_⟩
  have hordered : ∀ t, MostSpecific modelL candidates t → t.effectiveFrom ≤ usage.text →
      t.origin.rank < r.origin.rank ∨ t.origin.rank = r.origin.rank ∧ dates.from t ≤ dates.from r :=
    fun t ht hle' => (hbest t (mem_specific.2 ht) hle').imp_right
      fun hsame => ⟨hsame.1, from_mono hrecords ht.mem hr.mem hsame.2⟩
  by_cases htext : s.effectiveFrom ≤ usage.text
  · exact hordered s hs htext
  · -- held back: what makes up for it is not above the record chosen
    rw [effectiveFrom_le dates hrecords hs.mem, not_or] at htext
    have hday : dates.from s = usage := le_antisymm hin (not_lt.1 htext.1)
    obtain ⟨t, ht, ⟨hlt, hforce⟩ | ⟨heq, hplain⟩⟩ := hheld s hs hday htext.2
    · rcases hordered t ht ((effectiveFrom_le dates hrecords ht.mem).2 hforce) with hrank | ⟨hrank, -⟩
      · exact .inl (hlt.trans hrank)
      · exact .inl (hrank ▸ hlt)
    · rcases hordered t ht (hplain ▸ le_rfl) with hrank | ⟨hrank, hlast⟩
      · exact .inl (heq.trans_lt hrank)
      · refine .inr ⟨heq.trans hrank, ?_⟩
        rw [hday, ← from_of_text dates hrecords ht.mem hplain]
        exact hlast

include hkeys

theorem rule_chosen_iff :
    Rule dates now modelL candidates usage ((chosen usage.text (specific modelL candidates)).map fun r =>
        { r with stale := r.isStale env now }) ↔
      InStep dates modelL candidates usage := by
  unfold chosen
  cases hforce : inForce usage.text (specific modelL candidates) with
  | some r =>
      obtain ⟨hmem, hle, hbest⟩ := mem_inForce hforce
      have hr := mem_specific.1 hmem
      constructor
      · rintro ⟨c, hc, ⟨⟨hin, hfirst⟩, hsame⟩ | ⟨⟨hnone, -⟩, -⟩⟩
        · obtain ⟨-, -, -, -, -, -, -, -, -, -, -, hfrom, -, horigin, -⟩ := PricingRecord.mk.inj hsame
          refine ⟨fun h hh hday htext => ?_, fun hall => absurd hin (not_le.2 (hall c hc))⟩
          have hplain := (effectiveFrom_le dates hrecords hr.mem).1 hle
          rcases hfirst h hh hday.le with hlt | ⟨heq, hlast⟩
          · exact ⟨r, hr, .inl ⟨horigin ▸ hlt, hplain⟩⟩
          · refine ⟨r, hr, .inr ⟨horigin ▸ heq, hplain.resolve_left ?_⟩⟩
            have hsamedate : dates.from r = dates.from c := congrArg dates.day hfrom
            rw [hsamedate]
            exact not_lt.2 (hday ▸ hlast)
        · exact absurd (from_le_of_effectiveFrom_le hrecords hr.mem hle) (not_le.2 (hnone r hr))
      · intro hstep
        obtain ⟨hr, hin⟩ := inForce_of_heldBack hrecords hstep.heldBack hforce
        exact ⟨r, hr, .inl ⟨hin, rfl⟩⟩
  | none =>
      have hlate : ∀ s, MostSpecific modelL candidates s → usage.text < s.effectiveFrom :=
        fun s hs => inForce_eq_none.1 hforce s (mem_specific.2 hs)
      cases hfirst : earliest (specific modelL candidates) with
      | none =>
          -- no record matches
          have hempty : ∀ s, ¬MostSpecific modelL candidates s := by
            intro s hs
            have hmem := mem_specific.2 hs
            rw [List.argmin_eq_none.1 hfirst] at hmem
            cases hmem
          refine iff_of_true ?_ ⟨fun h hh => absurd hh (hempty h), fun _ s hs => absurd hs (hempty s)⟩
          intro r hr
          by_contra hprices
          rw [Bool.not_eq_false] at hprices
          obtain ⟨s, hs, hlen⟩ := exists_bestLen (List.ne_nil_of_mem (List.mem_filter.2 ⟨hr, hprices⟩))
          refine hempty s (mem_specific.1 ?_)
          unfold specific
          exact List.mem_filter.2 ⟨hs, decide_eq_true hlen⟩
      | some e =>
          obtain ⟨hmem, htop⟩ := mem_earliest hfirst
          have he := mem_specific.1 hmem
          have hrank : ∀ t, MostSpecific modelL candidates t → t.origin.rank ≤ e.origin.rank :=
            fun t ht => (htop t (mem_specific.2 ht)).elim le_of_lt fun hsame => hsame.1.le
          constructor
          · rintro ⟨c, hc, ⟨-, hsame⟩ | ⟨⟨hnone, hleast⟩, hsame⟩⟩
            · exact absurd hsame.symm (extrapolated_ne (hkeys c hc.mem e he.mem))
            · refine ⟨fun h hh hday => absurd (hnone h hh) (hday ▸ lt_irrefl _), fun _ s hs => ⟨e, he, hrank, ?_⟩⟩
              have hfrom : e.effectiveFrom = c.effectiveFrom :=
                (PricingRecord.mk.inj hsame).2.2.2.2.2.2.2.2.2.2.2.1
              have hsamedate : dates.from e = dates.from c := congrArg dates.day hfrom
              exact hsamedate ▸ hleast s hs
          · intro hstep
            have hnone : ∀ s, MostSpecific modelL candidates s → usage < dates.from s := by
              intro s hs
              have hnot := (effectiveFrom_le dates hrecords hs.mem).not.1 (not_le.2 (hlate s hs))
              rw [not_or, not_lt] at hnot
              refine lt_of_le_of_ne hnot.1 fun hday => ?_
              obtain ⟨t, ht, hforce'⟩ := hstep.heldBack s hs hday.symm hnot.2
              refine absurd ((effectiveFrom_le dates hrecords ht.mem).2 ?_) (not_le.2 (hlate t ht))
              exact hforce'.elim (fun h => h.2) fun h => .inr h.2
            refine ⟨e, he, .inr ⟨⟨hnone, fun s hs => ?_⟩, rfl⟩⟩
            obtain ⟨r, hr, hmax, hle⟩ := hstep.earliest hnone s hs
            rcases htop r (mem_specific.2 hr) with hlt | ⟨-, hfrom⟩
            · exact absurd (hmax e he) (not_le.2 hlt)
            · exact (from_mono hrecords he.mem hr.mem hfrom).trans hle

end Met

/-! ## A price spelled as a timestamp -/

def readNumber (s : Str) : Nat := s.foldl (fun n c => 10 * n + (c.toNat - 48)) 0

/-- The day that a text starts with. -/
def readDay (t : Str) : CalendarDate where
  year := readNumber (t.take 4) % 10000
  month := readNumber ((t.drop 5).take 2) % 13
  day := readNumber ((t.drop 8).take 2) % 32
  year_lt := Nat.mod_lt _ (by decide)
  month_lt := Nat.mod_lt _ (by decide)
  day_lt := Nat.mod_lt _ (by decide)

/-- The days from 1970-01-01 on, counted in years that begin in March. -/
def CalendarDate.sinceEpoch (d : CalendarDate) : Int :=
  let year : Int := if d.month ≤ 2 then d.year - 1 else d.year
  let month : Int := if d.month ≤ 2 then d.month + 9 else d.month - 3
  365 * year + year / 4 - year / 100 + year / 400 + (153 * month + 2) / 5 + d.day - 1 - 719468

/-- Days, and the midnights of days as timestamps in UTC. -/
def midnightPricing : PricingEnv where
  lowercase := asciiLower
  parseUserDate t :=
    if t = (readDay t).text ++ t.drop 10 ∧ (t.drop 10 = [] ∨ t.drop 10 = "T00:00:00Z".toList) then
      some ((readDay t).sinceEpoch * nanosPerDay)
    else none
  parseRfc3339 t :=
    if t = (readDay t).text ++ "T00:00:00Z".toList then some ((readDay t).sinceEpoch * nanosPerDay) else none

def midnightDates : Dates midnightPricing where
  day := readDay
  spelled t h := by
    by_contra hnot
    have hnone : midnightPricing.parseUserDate t = none := if_neg fun hsame => hnot ⟨_, hsame.1⟩
    rw [hnone] at h
    cases h

def julyPrice (date : String) : List PricingRecord :=
  [priceFrom "gpt-4o" date .imported 3000000, priceFrom "gpt-4o" "2026-01-01" .bundled 5000000]

end Tethra.Pricing
