import Tethra.Core.Usage

set_option autoImplicit false

/-! # Budgets (`core/src/budget.rs`)

What a spend report says of a monthly budget. The figure compared is a floor on the spend, and the
report says that more data could only raise it. It can also replace it: with `best_available` the
first reported cost puts the reported sum in the place of the estimated one, which may be the larger
of the two. Up to that, and while the sums fit, an exceeded budget stays exceeded
(`over_stays_over`). -/

namespace Tethra.Budgets

open Usage Gateway

inductive BudgetStatus where
  | noBudget
  | under
  | over
  | indeterminate
  deriving DecidableEq, Repr

/-- The calendar month of the report: its start, the day of the month, and the month's days. -/
structure Period where
  start : Str
  day : Int
  daysInMonth : Int

structure BudgetReport where
  scope : Str
  budgetMicros : Option Int
  periodStart : Str
  reportedCostMicros : Int
  estimatedCostMicros : Int
  /-- A floor when `usedIsComplete` is false. -/
  usedMicros : Int
  usedIsEstimated : Bool
  costSource : String
  remainingMicros : Option Int
  projectedPeriodEndMicros : Int
  overBudget : Bool
  attributionNote : Option Str
  status : BudgetStatus
  usedIsComplete : Bool
  usedAvailability : Availability
  costedRows : Int
  usageRows : Int
  completenessNote : Option Str
  deriving DecidableEq, Repr

/-- `i64::saturating_mul`. -/
def saturatingMul (a b : Int) : Int := max (-(2 ^ 63)) (min (2 ^ 63 - 1) (a * b))

def budgetStatus (budget : Option Int) (overBudget usedIsComplete : Bool) : BudgetStatus :=
  match budget with
  | none => .noBudget
  | some _ => if overBudget then .over else if usedIsComplete then .under else .indeterminate

/-- A sentence naming the shortfall. -/
def completenessNote (formatMicros : Int → Str) (status : BudgetStatus)
    (used costedRows usageRows : Int) (usedIsEstimated : Bool) : Option Str :=
  match status with
  | .indeterminate => some <|
      if usageRows = 0 then
        ("cannot evaluate — no usage records exist for this period, so spend is unknown " ++
          "rather than nothing; sync the provider or record usage to establish a total").toList
      else
        "cannot evaluate — only ".toList ++ (toString costedRows).toList ++ " of ".toList
          ++ (toString usageRows).toList ++ " usage record(s) carried a ".toList
          ++ (if usedIsEstimated then "locally estimated" else "provider-reported").toList
          ++ " cost, so ".toList ++ formatMicros used
          ++ " is a floor on spend, not a total; the remaining ".toList
          ++ (toString (usageRows - costedRows)).toList ++ " record(s) are NOT counted as zero".toList
  | _ => none

/-- Formatting of amounts goes through floating point and is a parameter. -/
def buildReport (formatMicros : Int → Str) (scope : Str) (budget : Option Int) (t : UsageTotals)
    (period : Period) (costSource : CostSource) : BudgetReport :=
  let (used, usedIsEstimated) := pickUsedCost t costSource
  let elapsed := max period.day 1
  let overBudget := budget.any (· < used)
  let availability := pickUsedCostAvailability t costSource
  let status := budgetStatus budget overBudget availability.isComplete
  { scope
    budgetMicros := budget
    periodStart := period.start
    reportedCostMicros := t.reportedCostMicros
    estimatedCostMicros := t.estimatedCostMicros
    usedMicros := used
    usedIsEstimated
    costSource := costSource.asStr
    remainingMicros := budget.map fun b => (b - used).bmod (2 ^ 64)
    projectedPeriodEndMicros :=
      if 0 < elapsed then (saturatingMul used period.daysInMonth).tdiv elapsed else used
    overBudget
    attributionNote := t.coarsestAttribution.map ("based on usage attributed at: ".toList ++ ·)
    status
    usedIsComplete := availability.isComplete
    usedAvailability := availability
    costedRows := availability.covered
    usageRows := t.snapshots
    completenessNote :=
      completenessNote formatMicros status used availability.covered t.snapshots usedIsEstimated }

/-! ## The verdict -/

section

variable {formatMicros : Int → Str} {scope : Str} {budget : Option Int} {t : UsageTotals}
  {period : Period} {source : CostSource}

theorem status_buildReport :
    (buildReport formatMicros scope budget t period source).status
      = budgetStatus budget (budget.any (· < (pickUsedCost t source).1))
          (pickUsedCostAvailability t source).isComplete := rfl

theorem status_eq_over :
    (buildReport formatMicros scope budget t period source).status = .over
      ↔ ∃ b, budget = some b ∧ b < (pickUsedCost t source).1 := by
  rw [status_buildReport]
  cases budget with
  | none => simp [budgetStatus]
  | some b =>
      simp only [budgetStatus, Option.any_some, decide_eq_true_eq, Option.some.injEq,
        exists_eq_left']
      split_ifs <;> simp_all

/-- A report under a budget was made over records that all carried the cost it added up. -/
theorem complete_of_under
    (h : (buildReport formatMicros scope budget t period source).status = .under) :
    (pickUsedCostAvailability t source).isComplete = true := by
  rw [status_buildReport] at h
  cases budget with
  | none => cases h
  | some b =>
      unfold budgetStatus at h
      simp only at h
      split_ifs at h with hover hcomplete
      exact hcomplete

end

/-! ## More records -/

/-- The record carries the cost that a figure adds up. -/
def Carries (usedIsEstimated : Bool) (s : UsageSnapshot) : Prop :=
  if usedIsEstimated then s.estimatedCostMicros.isSome = true else s.reportedUsd.isSome = true

/-- The sums that the source may use fit in `i64`. -/
def SumsFit (source : CostSource) (snaps : List UsageSnapshot) : Prop :=
  (source ≠ .estimated → reportedSum snaps < 2 ^ 63) ∧
    (source ≠ .providerReported → estimatedSum snaps < 2 ^ 63)

/-- Estimates above the budget give way to the first reported costs, which are not above it. -/
def SwitchesDown (source : CostSource) (budget : Option Int) (before after : List UsageSnapshot) :
    Prop :=
  source = .bestAvailable ∧ reportedSum before = 0 ∧ 0 < reportedSum after ∧
    ∃ b, budget = some b ∧ reportedSum after ≤ b ∧ b < estimatedSum before

/-- The figure of records whose sums fit. -/
def figure (source : CostSource) (snaps : List UsageSnapshot) : Int :=
  match source with
  | .providerReported => reportedSum snaps
  | .estimated => estimatedSum snaps
  | .bestAvailable => if 0 < reportedSum snaps then reportedSum snaps else estimatedSum snaps

section

variable {uppercase : Str → Str} {source : CostSource} {budget : Option Int}
  {snaps before after : List UsageSnapshot}

theorem pickUsedCost_totals (hnonneg : ∀ s ∈ snaps, s.NonNegative) (hfits : SumsFit source snaps) :
    (pickUsedCost (totals uppercase snaps) source).1 = figure source snaps := by
  have hreported : source ≠ .estimated → addI64 0 (reportedSum snaps) = reportedSum snaps :=
    fun h => addI64_zero_of_fits (reportedSum_nonneg hnonneg) (hfits.1 h)
  have hestimated : source ≠ .providerReported → addI64 0 (estimatedSum snaps) = estimatedSum snaps :=
    fun h => addI64_zero_of_fits (estimatedSum_nonneg hnonneg) (hfits.2 h)
  cases source with
  | providerReported => simpa [pickUsedCost, figure] using hreported (by decide)
  | estimated => simpa [pickUsedCost, figure] using hestimated (by decide)
  | bestAvailable =>
      simp only [pickUsedCost, figure, reportedCostMicros_totals, estimatedCostMicros_totals,
        hreported (by decide), hestimated (by decide)]
      split_ifs <;> rfl

theorem SumsFit.of_extends (h : Extends before after) (hnonneg : ∀ s ∈ after, s.NonNegative)
    (hfits : SumsFit source after) : SumsFit source before :=
  ⟨fun hs => lt_of_le_of_lt (reportedSum_le h hnonneg) (hfits.1 hs),
    fun hs => lt_of_le_of_lt (estimatedSum_le h hnonneg) (hfits.2 hs)⟩

/-- The figure falls below a budget that it was above only when the source switches. -/
theorem figure_stays_above (hext : Extends before after) (hnonneg : ∀ s ∈ after, s.NonNegative)
    {b : Int} (hover : b < figure source before) :
    b < figure source after ↔ ¬SwitchesDown source (some b) before after := by
  have hreported := reportedSum_le hext hnonneg
  have hestimated := estimatedSum_le hext hnonneg
  have hpos := reportedSum_nonneg (hext.nonNegative hnonneg)
  cases source with
  | providerReported =>
      have hkept : b < reportedSum after := lt_of_lt_of_le hover hreported
      simp [figure, SwitchesDown, hkept]
  | estimated =>
      have hkept : b < estimatedSum after := lt_of_lt_of_le hover hestimated
      simp [figure, SwitchesDown, hkept]
  | bestAvailable =>
      simp only [figure, SwitchesDown, true_and, Option.some.injEq, exists_eq_left'] at hover ⊢
      split_ifs at hover ⊢ <;> omega

end

section

variable (uppercase : Str → Str) (formatMicros : Int → Str) (scope : Str) (period : Period)
  (source : CostSource) (budget : Option Int)

/-- The verdict on the records of a scope. -/
def verdict (snaps : List UsageSnapshot) : BudgetStatus :=
  (buildReport formatMicros scope budget (totals uppercase snaps) period source).status

/-- With the records of `after`, an exceeded budget is neither kept nor undecided. -/
def StaysOver (before after : List UsageSnapshot) : Prop :=
  verdict uppercase formatMicros scope period source budget before = .over →
    verdict uppercase formatMicros scope period source budget after ≠ .under ∧
      verdict uppercase formatMicros scope period source budget after ≠ .indeterminate

theorem staysOver_iff {before after : List UsageSnapshot} (hext : Extends before after)
    (hnonneg : ∀ s ∈ after, s.NonNegative) (hfits : SumsFit source after) :
    StaysOver uppercase formatMicros scope period source budget before after
      ↔ ¬SwitchesDown source budget before after := by
  have hover : ∀ snaps, (∀ s ∈ snaps, s.NonNegative) → SumsFit source snaps →
      (verdict uppercase formatMicros scope period source budget snaps = .over
        ↔ ∃ b, budget = some b ∧ b < figure source snaps) := by
    intro snaps hsnaps hsnapsFit
    rw [verdict, status_eq_over, pickUsedCost_totals hsnaps hsnapsFit]
  have hbefore := hover before (hext.nonNegative hnonneg) (hfits.of_extends hext hnonneg)
  have hafter := hover after hnonneg hfits
  cases budget with
  | none =>
      -- Without a budget there is no verdict to keep, and nothing to switch below.
      have hnever : ¬SwitchesDown source none before after := by
        rintro ⟨-, -, -, b, hb, -⟩
        cases hb
      exact ⟨fun _ => hnever, fun _ h => by
        obtain ⟨b, hb, -⟩ := hbefore.1 h
        cases hb⟩
  | some b =>
      have hsome : verdict uppercase formatMicros scope period source (some b) after ≠ .noBudget := by
        rw [verdict, status_buildReport, budgetStatus]
        split_ifs <;> simp
      -- There is a budget, so a verdict that is neither kept nor undecided is `over`.
      have hstays : (verdict uppercase formatMicros scope period source (some b) after ≠ .under ∧
            verdict uppercase formatMicros scope period source (some b) after ≠ .indeterminate)
          ↔ b < figure source after := by
        simp only [Option.some.injEq, exists_eq_left'] at hafter
        rw [← hafter]
        revert hsome
        cases verdict uppercase formatMicros scope period source (some b) after <;> simp
      simp only [Option.some.injEq, exists_eq_left'] at hbefore
      rw [StaysOver, hbefore, hstays]
      by_cases habove : b < figure source before
      · rw [← figure_stays_above hext hnonneg habove]
        exact ⟨fun h => h habove, fun h _ => h⟩
      · refine iff_of_true (fun h => absurd h habove) ?_
        rintro ⟨rfl, hzero, -, b', hb, -, hswitch⟩
        obtain rfl := Option.some.inj hb
        simp [figure, hzero] at habove
        omega

/-- While the sums fit, an exceeded budget stays exceeded unless the source switches down; and a report
    says that a budget is kept only when every record carries the cost that was added up. -/
theorem over_stays_over :
    (∀ before after, Extends before after → (∀ s ∈ after, s.NonNegative) → SumsFit source after →
      (StaysOver uppercase formatMicros scope period source budget before after
        ↔ ¬SwitchesDown source budget before after)) ∧
    ∀ snaps, verdict uppercase formatMicros scope period source budget snaps = .under →
      ∀ s ∈ snaps, Carries (pickUsedCost (totals uppercase snaps) source).2 s := by
  refine ⟨fun before after => staysOver_iff uppercase formatMicros scope period source budget, ?_⟩
  intro snaps hunder
  have hcomplete := complete_of_under hunder
  have hreported : (totals uppercase snaps).reportedCostAvailability.isComplete = true →
      ∀ s ∈ snaps, Carries false s := by
    intro h
    rw [UsageTotals.reportedCostAvailability, reportedCostRows_totals, snapshots_totals] at h
    exact forall_of_isComplete h
  have hestimated : (totals uppercase snaps).estimatedCostAvailability.isComplete = true →
      ∀ s ∈ snaps, Carries true s := by
    intro h
    rw [UsageTotals.estimatedCostAvailability, estimatedCostRows_totals, snapshots_totals] at h
    exact forall_of_isComplete h
  cases source with
  | providerReported => exact hreported hcomplete
  | estimated => exact hestimated hcomplete
  | bestAvailable =>
      simp only [pickUsedCostAvailability] at hcomplete
      simp only [pickUsedCost]
      split_ifs at hcomplete ⊢
      · exact hreported hcomplete
      · exact hestimated hcomplete

end

/-- A record with the two costs. -/
def costRecord (reported estimated : Option Int) : UsageSnapshot :=
  { requestCount := none
    inputTokens := none
    outputTokens := none
    totalTokens := none
    reportedCostMicros := reported
    estimatedCostMicros := estimated
    currency := "USD".toList
    attribution := "provider_project".toList
    collectedAt := "2026-05-02T00:00:00Z".toList
    unit := none }

def may : Period := ⟨"2026-05-01T00:00:00Z".toList, 2, 31⟩

/-- A budget of 10 is exceeded by an estimate of 20, and kept once the provider reports 5. -/
theorem reported_cost_lowers_verdict :
    ∃ before after, Extends before after ∧ (∀ s ∈ after, s.NonNegative) ∧
      ¬StaysOver id (fun _ => []) [] may .bestAvailable (some 10) before after := by
  refine ⟨[costRecord none (some 20)], [costRecord (some 5) (some 20)], ?_, ?_, ?_⟩
  · exact ⟨[costRecord (some 5) (some 20)], [], .cons ⟨.inl rfl, .inr rfl⟩ .nil, .refl _⟩
  · simp [costRecord, UsageSnapshot.NonNegative]
  · intro h
    exact (h (by decide)).1 (by decide)

end Tethra.Budgets
