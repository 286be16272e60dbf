import Tethra.Core.ClockOrder
import Tethra.Tracking.Evidence

set_option autoImplicit false

/-! # Comparing the times of observations (`tracking/src/state.rs`, `refresh_with`)

An observation is admitted, called fresh and chosen as the newest by comparing strings; only the newest
one and the recorded failure are compared as instants. Each of these decisions follows the order of the
instants exactly where the strings do (`comparisons_follow_time`). -/

namespace Tethra.Tracking

open Clock (Timestamp Crossed lt_iff_of_not_crossed toRfc3339_le_iff toRfc3339_inj)

/-- The observation was recorded for the setup since its apply, whatever time it claims. -/
def TrackingSetup.Recorded (setup : TrackingSetup) (e : EventRow) : Prop :=
  e.projectId = setup.projectId ∧ e.fromGateway = true ∧ setup.appliedEventRowid < e.rowid

instance (setup : TrackingSetup) (e : EventRow) : Decidable (setup.Recorded e) :=
  inferInstanceAs (Decidable (_ ∧ _ ∧ _))

theorem admits_iff (setup : TrackingSetup) (since until_ : Str) (e : EventRow) :
    setup.admits since until_ e = true ↔ setup.Recorded e ∧ since ≤ e.at_ ∧ e.at_ ≤ until_ := by
  simp [TrackingSetup.admits, TrackingSetup.Recorded, and_assoc]

/-! ## Dates -/

def isLeapYear (year : Nat) : Bool := year % 4 = 0 && (year % 100 ≠ 0 || year % 400 = 0)

def daysInMonth (year month : Nat) : Nat :=
  match month with
  | 2 => if isLeapYear year then 29 else 28
  | 4 | 6 | 9 | 11 => 30
  | _ => 31

/-- The timestamp names a day of the calendar. -/
def OnCalendar (t : Timestamp) : Prop :=
  0 < t.month ∧ 0 < t.day ∧ t.day ≤ daysInMonth t.year t.month

/-- What the clock writes is read back as an instant, and earlier timestamps as earlier instants. -/
def TrackEnv.ReadsTime (env : TrackEnv) : Prop :=
  ∃ instant : Timestamp → Int, StrictMonoOn instant {t | OnCalendar t} ∧
    ∀ t, OnCalendar t → env.parse t.toRfc3339 = some (instant t)

theorem TrackEnv.ReadsTime.instantIsAfter {env : TrackEnv} (henv : env.ReadsTime) {a b : Timestamp}
    (ha : OnCalendar a) (hb : OnCalendar b) :
    env.instantIsAfter a.toRfc3339 b.toRfc3339 = true ↔ b < a := by
  obtain ⟨instant, hmono, hparse⟩ := henv
  rw [TrackEnv.instantIsAfter, hparse a ha, hparse b hb]
  simpa using hmono.lt_iff_lt hb ha

/-! ## The decisions -/

theorem admits_since_iff {setup : TrackingSetup} {e : EventRow} (he : setup.Recorded e)
    (t u : Timestamp) {until_ : Str} (huntil : u.toRfc3339 ≤ until_) :
    (setup.admits t.toRfc3339 until_ { e with at_ := u.toRfc3339 } = true ↔ t ≤ u) ↔
      ¬Crossed t u := by
  have hrecorded : setup.Recorded { e with at_ := u.toRfc3339 } := he
  rw [admits_iff, ← toRfc3339_le_iff]
  simp only [hrecorded, huntil, true_and, and_true]

theorem admits_until_iff {setup : TrackingSetup} {e : EventRow} (he : setup.Recorded e)
    (t u : Timestamp) {since : Str} (hsince : since ≤ t.toRfc3339) :
    (setup.admits since u.toRfc3339 { e with at_ := t.toRfc3339 } = true ↔ t ≤ u) ↔
      ¬Crossed t u := by
  have hrecorded : setup.Recorded { e with at_ := t.toRfc3339 } := he
  rw [admits_iff, ← toRfc3339_le_iff]
  simp only [hrecorded, hsince, true_and]

/-- A provider's newest observation is fresh since a bound and until one. -/
theorem fresh_of_mem {env : TrackEnv} {db : TrackDb} {now applied at_ : Str} {setup : TrackingSetup}
    {f : ProviderFreshness} (hf : f ∈ (env.read db now applied setup).freshness)
    (hat : f.lastObservedAt = some at_) :
    f.fresh = true ↔ env.minusSeconds now observationFreshnessSecs ≤ at_ ∧
      at_ ≤ env.minusSeconds now (-maxClockSkewSecs) := by
  obtain ⟨p, -, rfl⟩ := List.mem_map.1 hf
  dsimp only at hat ⊢
  rw [hat]
  simp

theorem fresh_iff {env : TrackEnv} {db : TrackDb} {now applied : Str} {setup : TrackingSetup}
    {f : ProviderFreshness} (hf : f ∈ (env.read db now applied setup).freshness) (t u : Timestamp)
    (hstale : env.minusSeconds now observationFreshnessSecs = t.toRfc3339)
    (hat : f.lastObservedAt = some u.toRfc3339)
    (hfuture : u.toRfc3339 ≤ env.minusSeconds now (-maxClockSkewSecs)) :
    (f.fresh = true ↔ t ≤ u) ↔ ¬Crossed t u := by
  rw [fresh_of_mem hf hat, hstale, ← toRfc3339_le_iff]
  simp only [hfuture, and_true]

/-- The string that is kept as the newer is that of the later instant, or of the earlier one where the
    two are crossed. -/
theorem textMax_eq (t u : Timestamp) :
    textMax t.toRfc3339 u.toRfc3339 = (if Crossed t u then min t u else max t u).toRfc3339 := by
  unfold textMax
  by_cases hc : Crossed t u
  · rw [if_pos hc]
    split
    · have hlt : u < t := hc.lt_iff.1 ‹_›
      rw [min_eq_right hlt.le]
    · have hle : t ≤ u := not_lt.1 (mt hc.lt_iff.2 ‹_›)
      rw [min_eq_left hle]
  · rw [if_neg hc]
    split
    · have hlt : t < u := (lt_iff_of_not_crossed hc).1 ‹_›
      rw [max_eq_right hlt.le]
    · have hle : u ≤ t := not_lt.1 (mt (lt_iff_of_not_crossed hc).2 ‹_›)
      rw [max_eq_left hle]

theorem textMax_iff (t u : Timestamp) :
    textMax t.toRfc3339 u.toRfc3339 = (max t u).toRfc3339 ↔ ¬Crossed t u := by
  rw [textMax_eq]
  split
  · rename_i hc
    have hlt : min t u < max t u := min_lt_max.2 hc.ne
    exact iff_of_false (fun h => hlt.ne (toRfc3339_inj h)) (not_not.2 hc)
  · exact iff_of_true rfl ‹_›

theorem onCalendar_newest {t u : Timestamp} (ht : OnCalendar t) (hu : OnCalendar u) :
    OnCalendar (if Crossed t u then min t u else max t u) := by
  rcases le_total t u with h | h
  · rw [min_eq_left h, max_eq_right h]
    split
    · exact ht
    · exact hu
  · rw [min_eq_right h, max_eq_left h]
    split
    · exact hu
    · exact ht

theorem failureIsNewer_iff {env : TrackEnv} (henv : env.ReadsTime) {t u : Timestamp}
    (ht : OnCalendar t) (hu : OnCalendar u) (setup : TrackingSetup) {r : Reading}
    (hr : r.freshness.filterMap ProviderFreshness.lastObservedAt = [t.toRfc3339, u.toRfc3339]) :
    (∀ failed : Timestamp, OnCalendar failed →
      (env.failureIsNewer { setup with attentionAt := some failed.toRfc3339 } r = true ↔
        t < failed ∧ u < failed)) ↔ ¬Crossed t u := by
  have hnewest : r.newest = some (if Crossed t u then min t u else max t u).toRfc3339 := by
    rw [Reading.newest, hr, ← textMax_eq]
    rfl
  have hnewer : ∀ failed : Timestamp, OnCalendar failed →
      (env.failureIsNewer { setup with attentionAt := some failed.toRfc3339 } r = true ↔
        (if Crossed t u then min t u else max t u) < failed) := by
    intro failed hfailed
    rw [TrackEnv.failureIsNewer, hnewest]
    exact henv.instantIsAfter hfailed (onCalendar_newest ht hu)
  by_cases hc : Crossed t u
  · refine iff_of_false (fun h => ?_) (not_not.2 hc)
    -- the later of the two, as the time of a failure, is after what is taken for the newest
    have hmax : OnCalendar (max t u) := by
      rcases le_total t u with hle | hle
      · rwa [max_eq_right hle]
      · rwa [max_eq_left hle]
    have hlt : min t u < max t u := min_lt_max.2 hc.ne
    have hboth := (h _ hmax).1 ((hnewer _ hmax).2 (by rwa [if_pos hc]))
    exact lt_irrefl _ (max_lt hboth.1 hboth.2)
  · refine iff_of_true (fun failed hfailed => ?_) hc
    rw [hnewer failed hfailed, if_neg hc, max_lt_iff]

/-- For every pair of timestamps of the clock: an observation is admitted since or until the one, called
    fresh since the one, kept as the newer, and held against a failure, in the order of the instants,
    exactly when the fraction of neither is written as a continuation of the other's within a second. -/
theorem comparisons_follow_time (t u : Timestamp) :
    (∀ (setup : TrackingSetup) (e : EventRow) (until_ : Str), setup.Recorded e →
      u.toRfc3339 ≤ until_ →
        ((setup.admits t.toRfc3339 until_ { e with at_ := u.toRfc3339 } = true ↔ t ≤ u) ↔
          ¬Crossed t u)) ∧
    (∀ (setup : TrackingSetup) (e : EventRow) (since : Str), setup.Recorded e →
      since ≤ t.toRfc3339 →
        ((setup.admits since u.toRfc3339 { e with at_ := t.toRfc3339 } = true ↔ t ≤ u) ↔
          ¬Crossed t u)) ∧
    (∀ (env : TrackEnv) (db : TrackDb) (now applied : Str) (setup : TrackingSetup),
      ∀ f ∈ (env.read db now applied setup).freshness,
        env.minusSeconds now observationFreshnessSecs = t.toRfc3339 →
          f.lastObservedAt = some u.toRfc3339 →
            u.toRfc3339 ≤ env.minusSeconds now (-maxClockSkewSecs) →
              ((f.fresh = true ↔ t ≤ u) ↔ ¬Crossed t u)) ∧
    (textMax t.toRfc3339 u.toRfc3339 = (max t u).toRfc3339 ↔ ¬Crossed t u) ∧
    (∀ (env : TrackEnv) (setup : TrackingSetup) (r : Reading), env.ReadsTime → OnCalendar t →
      OnCalendar u →
        r.freshness.filterMap ProviderFreshness.lastObservedAt = [t.toRfc3339, u.toRfc3339] →
          ((∀ failed : Timestamp, OnCalendar failed →
            (env.failureIsNewer { setup with attentionAt := some failed.toRfc3339 } r = true ↔
              t < failed ∧ u < failed)) ↔ ¬Crossed t u)) := by
  refine ⟨?_, ?_, ?_, textMax_iff t u, ?_⟩
  · intro setup e until_ he huntil
    exact admits_since_iff he t u huntil
  · intro setup e since he hsince
    exact admits_until_iff he t u hsince
  · intro env db now applied setup f hf hstale hat hfuture
    exact fresh_iff hf t u hstale hat hfuture
  · intro env setup r henv ht hu hr
    exact failureIsNewer_iff henv ht hu setup hr

/-! ## One second -/

def atNoon (nanos : Nat) (h : nanos < 1000000000) : Timestamp :=
  .ofFields 2026 7 24 12 0 0 nanos ⟨by decide, by decide, by decide, by decide, by decide, by decide, h⟩

def observed : EventRow := ⟨5, "p1".toList, true, "api.openai.com".toList, []⟩

/-- An apply on the second refuses the observation made half a second later. -/
theorem observation_refused_within_second : ¬∀ (t u : Timestamp) (setup : TrackingSetup)
    (e : EventRow) (until_ : Str), setup.Recorded e → u.toRfc3339 ≤ until_ →
      (setup.admits t.toRfc3339 until_ { e with at_ := u.toRfc3339 } = true ↔ t ≤ u) := by
  intro h
  have hle := (h (atNoon 0 (by decide)) (atNoon 500000000 (by decide)) appliedSetup observed
    "2026-07-24T12:05:00Z".toList (by decide) (by decide)).2 (by decide)
  revert hle
  decide

end Tethra.Tracking
