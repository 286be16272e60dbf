import Tethra.Core.Budget
import Tethra.Core.Pricing

set_option autoImplicit false

/-! # Token cost estimates (`core/src/pricing.rs`, `estimate_token_cost_from`)

An estimate says of itself whether it is complete. What it does not know is that a product of tokens and
price is cut off at the largest `i64` before it is divided: a complete estimate is the exact cost as long
as both products stay within what that division can tell apart (`Fits`), and it stays a lower bound and
monotone beyond. -/

namespace Tethra.Pricing

open Observe Budgets

structure CostEstimate where
  micros : Int
  pricingSource : Str
  effectiveFrom : Str
  lastVerified : Str
  isOverride : Bool
  stale : Bool
  note : Str
  currency : Str
  matchedModel : Str
  matchedProvider : Str
  complete : Bool
  unpricedDimensions : List String
  deriving DecidableEq, Repr

/-- The dimensions that had usage but no price. -/
def unpricedDimensions (r : PricingRecord) (inputTokens outputTokens : Int) : List String :=
  (if 0 < inputTokens ∧ r.inputPricePerMMicros.isNone then ["input tokens"] else [])
    ++ if 0 < outputTokens ∧ r.outputPricePerMMicros.isNone then ["output tokens"] else []

def estimateTokenCostFrom (r : PricingRecord) (inputTokens outputTokens : Int) :
    Option CostEstimate :=
  if r.unit ≠ .tokens then none
  else if r.inputPricePerMMicros.isNone && r.outputPricePerMMicros.isNone then none
  else
    some {
      micros := Int.tdiv (saturatingMul inputTokens (r.inputPricePerMMicros.getD 0)) 1000000
        + Int.tdiv (saturatingMul outputTokens (r.outputPricePerMMicros.getD 0)) 1000000
      pricingSource := r.source
      effectiveFrom := r.effectiveFrom
      lastVerified := r.lastVerified
      isOverride := r.origin = .override
      stale := r.stale
      note := r.note
      currency := r.currency
      matchedModel := r.model
      matchedProvider := r.provider
      complete := (unpricedDimensions r inputTokens outputTokens).isEmpty
      unpricedDimensions := unpricedDimensions r inputTokens outputTokens }

/-! ## What the usage costs -/

/-- The share of one dimension in an estimate: the product is cut off at the `i64` range. -/
def dimensionMicros (tokens : Int) (price : Option Int) : Int :=
  (saturatingMul tokens (price.getD 0)).tdiv 1000000

/-- The cost of a dimension, rounded down. -/
def exactMicros (tokens price : Int) : Int := tokens * price / 1000000

/-- The price of a dimension is filled in with `q`; one that is there stays. -/
def Completes (price : Option Int) (q : Int) : Prop := 0 ≤ q ∧ ∀ p ∈ price, q = p

/-- A dimension with usage has a price. -/
def Priced (tokens : Int) (price : Option Int) : Prop := 0 < tokens → price ≠ none

/-- The quotient of the product is one that the largest `i64` can still give. -/
def Fits (tokens : Int) (price : Option Int) : Prop := tokens * price.getD 0 < 9223372036855 * 1000000

/-! ## One dimension -/

section Dimension

variable {tokens : Int} {price : Option Int} (htokens : 0 ≤ tokens) (hprice : ∀ p ∈ price, 0 ≤ p)
include htokens hprice

theorem product_nonneg : 0 ≤ tokens * price.getD 0 := by
  cases price with
  | none => simp
  | some p => exact mul_nonneg htokens (hprice p rfl)

theorem dimensionMicros_eq :
    dimensionMicros tokens price = min 9223372036854775807 (tokens * price.getD 0) / 1000000 := by
  have hnonneg := product_nonneg htokens hprice
  have hmin : 0 ≤ min 9223372036854775807 (tokens * price.getD 0) := le_min (by decide) hnonneg
  rw [dimensionMicros, saturatingMul]
  norm_num only
  rw [max_eq_right ((by decide : (-9223372036854775808 : Int) ≤ 0).trans hmin), Int.tdiv_eq_ediv_of_nonneg hmin]

/-- The cut at the largest `i64` only takes away. -/
theorem dimensionMicros_le : dimensionMicros tokens price ≤ exactMicros tokens (price.getD 0) := by
  rw [dimensionMicros_eq htokens hprice]
  exact Int.ediv_le_ediv (by decide) (min_le_right _ _)

theorem dimensionMicros_eq_exact :
    dimensionMicros tokens price = exactMicros tokens (price.getD 0) ↔ Fits tokens price := by
  rw [dimensionMicros_eq htokens hprice, exactMicros, Fits]
  omega

/-- More tokens do not cost less. -/
theorem dimensionMicros_mono {more : Int} (h : tokens ≤ more) :
    dimensionMicros tokens price ≤ dimensionMicros more price := by
  rw [dimensionMicros_eq htokens hprice, dimensionMicros_eq (htokens.trans h) hprice]
  refine Int.ediv_le_ediv (by decide) (min_le_min_left _ ?_)
  refine mul_le_mul_of_nonneg_right h ?_
  cases price with
  | none => exact le_rfl
  | some p => exact hprice p rfl

/-- Whatever price is filled in, the dimension is not estimated above its cost. -/
theorem dimensionMicros_le_completed {q : Int} (hq : Completes price q) :
    dimensionMicros tokens price ≤ exactMicros tokens q := by
  cases price with
  | none =>
      have hzero : dimensionMicros tokens none = 0 := by simp [dimensionMicros, saturatingMul]
      rw [hzero]
      exact Int.ediv_nonneg (mul_nonneg htokens hq.1) (by decide)
  | some p =>
      obtain rfl := hq.2 p rfl
      exact dimensionMicros_le htokens hprice

end Dimension

theorem unpricedDimensions_eq_nil {r : PricingRecord} {inputTokens outputTokens : Int} :
    unpricedDimensions r inputTokens outputTokens = [] ↔
      Priced inputTokens r.inputPricePerMMicros ∧ Priced outputTokens r.outputPricePerMMicros := by
  unfold unpricedDimensions Priced
  rw [List.append_eq_nil_iff, ite_eq_right_iff, ite_eq_right_iff, Option.isNone_iff_eq_none, Option.isNone_iff_eq_none]
  simp

/-! ## The estimate -/

section Estimate

variable {rec : PricingRecord} {input output : Int} {e : CostEstimate}

theorem estimate_eq_some (h : estimateTokenCostFrom rec input output = some e) :
    rec.unit = .tokens ∧ ¬(rec.inputPricePerMMicros = none ∧ rec.outputPricePerMMicros = none) ∧
      e.micros = dimensionMicros input rec.inputPricePerMMicros + dimensionMicros output rec.outputPricePerMMicros ∧
      (e.complete = true ↔ Priced input rec.inputPricePerMMicros ∧ Priced output rec.outputPricePerMMicros) := by
  unfold estimateTokenCostFrom at h
  split_ifs at h with hunit hnone
  obtain rfl := Option.some.inj h
  rw [Bool.and_eq_true, Option.isNone_iff_eq_none, Option.isNone_iff_eq_none] at hnone
  refine ⟨not_not.1 hunit, hnone, rfl, ?_⟩
  dsimp only
  rw [List.isEmpty_iff, unpricedDimensions_eq_nil]

/-- What an estimate promises: a complete one is the exact cost, each dimension rounded down, an incomplete
    one is a lower bound of every completion, and more tokens never lower it. -/
structure CostEstimate.Honest (e : CostEstimate) (rec : PricingRecord) (input output : Int) : Prop where
  exact_of_complete : e.complete = true →
    e.micros = exactMicros input (rec.inputPricePerMMicros.getD 0)
      + exactMicros output (rec.outputPricePerMMicros.getD 0)
  floor_of_incomplete : e.complete = false → ∀ p q, Completes rec.inputPricePerMMicros p →
    Completes rec.outputPricePerMMicros q → e.micros ≤ exactMicros input p + exactMicros output q
  mono_input : ∀ more e', input ≤ more → estimateTokenCostFrom rec more output = some e' → e.micros ≤ e'.micros
  mono_output : ∀ more e', output ≤ more → estimateTokenCostFrom rec input more = some e' → e.micros ≤ e'.micros

variable (hinput : ∀ p ∈ rec.inputPricePerMMicros, 0 ≤ p) (houtput : ∀ p ∈ rec.outputPricePerMMicros, 0 ≤ p)
  (hi : 0 ≤ input) (ho : 0 ≤ output)
include hinput houtput hi ho

theorem sum_eq_exact :
    dimensionMicros input rec.inputPricePerMMicros + dimensionMicros output rec.outputPricePerMMicros
        = exactMicros input (rec.inputPricePerMMicros.getD 0) + exactMicros output (rec.outputPricePerMMicros.getD 0) ↔
      Fits input rec.inputPricePerMMicros ∧ Fits output rec.outputPricePerMMicros := by
  have hin := dimensionMicros_le hi hinput
  have hout := dimensionMicros_le ho houtput
  rw [← dimensionMicros_eq_exact hi hinput, ← dimensionMicros_eq_exact ho houtput]
  omega

/-- The sum rounded down once is met when, besides, what is dropped in the two dimensions is less than one. -/
theorem sum_eq_rounded :
    dimensionMicros input rec.inputPricePerMMicros + dimensionMicros output rec.outputPricePerMMicros
        = (input * rec.inputPricePerMMicros.getD 0 + output * rec.outputPricePerMMicros.getD 0) / 1000000 ↔
      (Fits input rec.inputPricePerMMicros ∧ Fits output rec.outputPricePerMMicros) ∧
        input * rec.inputPricePerMMicros.getD 0 % 1000000 + output * rec.outputPricePerMMicros.getD 0 % 1000000
          < 1000000 := by
  have hin := dimensionMicros_le hi hinput
  have hout := dimensionMicros_le ho houtput
  rw [← sum_eq_exact hinput houtput hi ho]
  unfold exactMicros at hin hout ⊢
  omega

/-- For every accepted record and all token counts: the estimate is what it promises exactly when it is
    incomplete or neither product is cut off. -/
theorem estimate_honest_iff (he : estimateTokenCostFrom rec input output = some e) :
    (e.Honest rec input output ↔
      (Priced input rec.inputPricePerMMicros ∧ Priced output rec.outputPricePerMMicros →
        Fits input rec.inputPricePerMMicros ∧ Fits output rec.outputPricePerMMicros)) ∧
    (e.micros = (input * rec.inputPricePerMMicros.getD 0 + output * rec.outputPricePerMMicros.getD 0) / 1000000 ↔
      (Fits input rec.inputPricePerMMicros ∧ Fits output rec.outputPricePerMMicros) ∧
        input * rec.inputPricePerMMicros.getD 0 % 1000000 + output * rec.outputPricePerMMicros.getD 0 % 1000000
          < 1000000) := by
  obtain ⟨-, -, hmicros, hcomplete⟩ := estimate_eq_some he
  refine ⟨⟨fun h hpriced => ?_, fun hfits => ?_⟩, ?_⟩
  · rw [← sum_eq_exact hinput houtput hi ho, ← hmicros]
    exact h.exact_of_complete (hcomplete.2 hpriced)
  · refine ⟨fun hdone => ?_, fun _ p q hp hq => ?_, fun more e' hle he' => ?_, fun more e' hle he' => ?_⟩
    · rw [hmicros]
      exact (sum_eq_exact hinput houtput hi ho).2 (hfits (hcomplete.1 hdone))
    · rw [hmicros]
      exact add_le_add (dimensionMicros_le_completed hi hinput hp) (dimensionMicros_le_completed ho houtput hq)
    · obtain ⟨-, -, hmicros', -⟩ := estimate_eq_some he'
      rw [hmicros, hmicros']
      exact add_le_add_left (dimensionMicros_mono hi hinput hle) _
    · obtain ⟨-, -, hmicros', -⟩ := estimate_eq_some he'
      rw [hmicros, hmicros']
      exact add_le_add_right (dimensionMicros_mono ho houtput hle) _
  · rw [hmicros]
    exact sum_eq_rounded hinput houtput hi ho

end Estimate

theorem estimate_honest_iff_gpt4o :
    (∀ p ∈ gpt4o.inputPricePerMMicros, 0 ≤ p) ∧ (∀ p ∈ gpt4o.outputPricePerMMicros, 0 ≤ p) ∧
      ∃ e, estimateTokenCostFrom gpt4o 1200 0 = some e ∧
        (e.Honest gpt4o 1200 0 ↔
          (Priced 1200 gpt4o.inputPricePerMMicros ∧ Priced 0 gpt4o.outputPricePerMMicros →
            Fits 1200 gpt4o.inputPricePerMMicros ∧ Fits 0 gpt4o.outputPricePerMMicros)) :=
  ⟨by decide, by decide, _, rfl, (estimate_honest_iff (by decide) (by decide) (by decide) (by decide) rfl).1⟩

/-- A million dollars for a million tokens, and ten trillion tokens: the product is cut off, and the estimate
    says that it is complete. -/
theorem complete_estimate_clipped :
    ∃ e, estimateTokenCostFrom (priceFrom "gpt-4o" "2024-05-13" .override 1000000000000) 10000000000000 0 = some e ∧
      e.complete = true ∧ e.micros = 9223372036854 ∧
      exactMicros 10000000000000 1000000000000 = 10000000000000000000 ∧
      ¬e.Honest (priceFrom "gpt-4o" "2024-05-13" .override 1000000000000) 10000000000000 0 := by
  refine ⟨_, rfl, by decide, by decide, by decide, fun h => ?_⟩
  have hexact := h.exact_of_complete (by decide)
  revert hexact
  decide

end Tethra.Pricing
