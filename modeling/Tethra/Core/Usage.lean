import Tethra.Gateway.EnvLink

set_option autoImplicit false

/-! # Usage totals (`core/src/usage.rs`)

What the usage records of a scope add up to, and how many of them carried each number. Sums are in
`i64` and wrap; Unicode uppercasing is a parameter. -/

namespace Tethra.Usage

open Gateway

/-- `i64` addition. -/
def addI64 (a b : Int) : Int := (a + b).bmod (2 ^ 64)

/-- What `totals` reads of a snapshot. -/
structure UsageSnapshot where
  requestCount : Option Int
  inputTokens : Option Int
  outputTokens : Option Int
  totalTokens : Option Int
  reportedCostMicros : Option Int
  estimatedCostMicros : Option Int
  currency : Str
  attribution : Str
  collectedAt : Str
  unit : Option Str
  deriving DecidableEq, Repr

/-! ## Availability -/

/-- Why a folded number is, or is not, showable. -/
inductive Availability where
  | known (covered total : Int)
  | partially (covered total : Int)
  | unknown (total : Int)
  | unsupported (detail : Str)
  deriving DecidableEq, Repr

/-- `covered` records carried the number; `total` were in scope. -/
def fromCoverage (covered total : Int) : Availability :=
  if total ≤ 0 then .unknown 0
  else if covered ≤ 0 then .unknown total
  else if covered < total then .partially covered total
  else .known covered total

def Availability.isComplete : Availability → Bool
  | .known .. => true
  | _ => false

def Availability.covered : Availability → Int
  | .known covered _ | .partially covered _ => covered
  | _ => 0

/-! ## Totals -/

structure UsageTotals where
  snapshots : Int := 0
  requestCount : Int := 0
  inputTokens : Int := 0
  outputTokens : Int := 0
  totalTokens : Int := 0
  /-- USD rows only. -/
  reportedCostMicros : Int := 0
  estimatedCostMicros : Int := 0
  hasInexactAttribution : Bool := false
  coarsestAttribution : Option Str := none
  reportedCurrencies : List Str := []
  hasNonUsdReported : Bool := false
  lastCollectedAt : Option Str := none
  requestRows : Int := 0
  rowsWithoutRequests : Int := 0
  inputTokenRows : Int := 0
  rowsWithoutInputTokens : Int := 0
  outputTokenRows : Int := 0
  rowsWithoutOutputTokens : Int := 0
  tokenRows : Int := 0
  rowsWithoutTokens : Int := 0
  reportedCostRows : Int := 0
  rowsWithoutReportedCost : Int := 0
  estimatedCostRows : Int := 0
  rowsWithoutEstimatedCost : Int := 0
  nonTokenUnitRows : Int := 0
  nonTokenUnits : List Str := []
  deriving DecidableEq, Repr

/-- Attribution coarseness ranking (higher = coarser). -/
def rank (attribution : Str) : Int :=
  if attribution = "exact_credential".toList then 0
  else if attribution = "local_process".toList then 0
  else if attribution = "provider_key".toList then 1
  else if attribution = "provider_project".toList then 2
  else if attribution = "local_project".toList then 2
  else if attribution = "provider_account".toList then 3
  else 4

/-- One more row, if it carried the number. -/
def countIf (carried : Bool) (rows : Int) : Int := if carried then rows + 1 else rows

/-- The list with one more entry, unless it has one that differs in ASCII case only. -/
def pushDistinct (entries : List Str) (entry pushed : Str) : List Str :=
  if entries.any (eqIgnoreAsciiCase · entry) then entries else entries ++ [pushed]

section

variable (s : UsageSnapshot)

def UsageSnapshot.carriesTokens : Bool :=
  s.totalTokens.isSome || s.inputTokens.isSome || s.outputTokens.isSome

/-- The provider-reported cost, where it is in USD. -/
def UsageSnapshot.reportedUsd : Option Int :=
  if eqIgnoreAsciiCase s.currency "USD".toList then s.reportedCostMicros else none

variable (t : UsageTotals)

/-- The counts and sums of requests and tokens, with a record. -/
def UsageTotals.addTokens : UsageTotals :=
  { t with
    snapshots := t.snapshots + 1
    requestCount := addI64 t.requestCount (s.requestCount.getD 0)
    inputTokens := addI64 t.inputTokens (s.inputTokens.getD 0)
    outputTokens := addI64 t.outputTokens (s.outputTokens.getD 0)
    totalTokens := addI64 t.totalTokens
      (s.totalTokens.getD (addI64 (s.inputTokens.getD 0) (s.outputTokens.getD 0)))
    requestRows := countIf s.requestCount.isSome t.requestRows
    inputTokenRows := countIf s.inputTokens.isSome t.inputTokenRows
    outputTokenRows := countIf s.outputTokens.isSome t.outputTokenRows
    tokenRows := countIf s.carriesTokens t.tokenRows
    nonTokenUnitRows := countIf (!s.carriesTokens && s.unit.isSome) t.nonTokenUnitRows
    nonTokenUnits := match s.unit with
      | some unit =>
          if s.carriesTokens then t.nonTokenUnits else pushDistinct t.nonTokenUnits unit unit
      | none => t.nonTokenUnits }

/-- The costs, with a record: a reported cost that is not in USD is not added. -/
def UsageTotals.addCosts (uppercase : Str → Str) : UsageTotals :=
  { t with
    estimatedCostRows := countIf s.estimatedCostMicros.isSome t.estimatedCostRows
    reportedCostMicros := match s.reportedUsd with
      | some rep => addI64 t.reportedCostMicros rep
      | none => t.reportedCostMicros
    reportedCostRows := countIf s.reportedUsd.isSome t.reportedCostRows
    hasNonUsdReported :=
      t.hasNonUsdReported || (s.reportedCostMicros.isSome && s.reportedUsd.isNone)
    reportedCurrencies := match s.reportedCostMicros with
      | some _ => pushDistinct t.reportedCurrencies s.currency (uppercase s.currency)
      | none => t.reportedCurrencies
    estimatedCostMicros := addI64 t.estimatedCostMicros (s.estimatedCostMicros.getD 0) }

/-- Attribution and collection time, with a record that may be coarser than the `worst` so far. -/
def UsageTotals.addLabels (worst : Int) : UsageTotals :=
  { t with
    hasInexactAttribution := t.hasInexactAttribution || s.attribution ≠ "exact_credential".toList
    coarsestAttribution :=
      if worst < rank s.attribution then some s.attribution else t.coarsestAttribution
    lastCollectedAt :=
      if t.lastCollectedAt.all (· < s.collectedAt) then some s.collectedAt else t.lastCollectedAt }

end

/-- One pass of the loop of `totals`, with the worst rank so far. -/
def totalsStep (uppercase : Str → Str) (acc : UsageTotals × Int) (s : UsageSnapshot) :
    UsageTotals × Int :=
  (((acc.1.addTokens s).addCosts s uppercase).addLabels s acc.2, max acc.2 (rank s.attribution))

/-- The rows that did not carry each number. -/
def UsageTotals.withResiduals (t : UsageTotals) : UsageTotals :=
  { t with
    rowsWithoutRequests := t.snapshots - t.requestRows
    rowsWithoutInputTokens := t.snapshots - t.inputTokenRows
    rowsWithoutOutputTokens := t.snapshots - t.outputTokenRows
    rowsWithoutTokens := t.snapshots - t.tokenRows
    rowsWithoutReportedCost := t.snapshots - t.reportedCostRows
    rowsWithoutEstimatedCost := t.snapshots - t.estimatedCostRows }

/-- Totals for the snapshots of a scope. -/
def totals (uppercase : Str → Str) (snaps : List UsageSnapshot) : UsageTotals :=
  (snaps.foldl (totalsStep uppercase) ({}, -1)).1.withResiduals

def UsageTotals.reportedCostAvailability (t : UsageTotals) : Availability :=
  fromCoverage t.reportedCostRows t.snapshots

def UsageTotals.estimatedCostAvailability (t : UsageTotals) : Availability :=
  fromCoverage t.estimatedCostRows t.snapshots

/-- The cost source a budget consumes. -/
inductive CostSource where
  | bestAvailable
  | providerReported
  | estimated
  deriving DecidableEq, Repr

def CostSource.asStr : CostSource → String
  | .bestAvailable => "best_available"
  | .providerReported => "provider_reported"
  | .estimated => "estimated"

/-- The used cost, and whether it is an estimate. -/
def pickUsedCost (t : UsageTotals) : CostSource → Int × Bool
  | .providerReported => (t.reportedCostMicros, false)
  | .estimated => (t.estimatedCostMicros, true)
  | .bestAvailable =>
      if 0 < t.reportedCostMicros then (t.reportedCostMicros, false) else (t.estimatedCostMicros, true)

/-- The availability of the figure that `pickUsedCost` returns. -/
def pickUsedCostAvailability (t : UsageTotals) : CostSource → Availability
  | .providerReported => t.reportedCostAvailability
  | .estimated => t.estimatedCostAvailability
  | .bestAvailable =>
      if 0 < t.reportedCostMicros then t.reportedCostAvailability else t.estimatedCostAvailability

/-! ## The sums and the counts -/

/-- The reported costs in USD, added up. -/
def reportedSum (snaps : List UsageSnapshot) : Int := (snaps.map (·.reportedUsd.getD 0)).sum

/-- The estimated costs, added up. -/
def estimatedSum (snaps : List UsageSnapshot) : Int := (snaps.map (·.estimatedCostMicros.getD 0)).sum

section

variable {uppercase : Str → Str} {snaps : List UsageSnapshot}

theorem addI64_addI64 (a b c : Int) : addI64 (addI64 a b) c = addI64 a (b + c) := by
  rw [addI64, addI64, Int.bmod_add_bmod, addI64, Int.add_assoc]

theorem addI64_zero_of_fits {a : Int} (h0 : 0 ≤ a) (h : a < 2 ^ 63) : addI64 0 a = a := by
  rw [addI64, Int.zero_add]
  exact Int.bmod_eq_of_le (by norm_num; omega) (by norm_num; omega)

/-- A fold that adds the numbers that elements carry wraps once. -/
theorem foldl_addI64 {α : Type} (f : α → Option Int) (xs : List α) (a : Int) :
    xs.foldl (fun n x => match f x with | some v => addI64 n v | none => n) (addI64 0 a)
      = addI64 0 (a + (xs.map fun x => (f x).getD 0).sum) := by
  induction xs generalizing a with
  | nil => simp
  | cons x rest ih =>
      rw [List.foldl_cons, List.map_cons, List.sum_cons, ← Int.add_assoc]
      cases f x with
      | none => simpa using ih a
      | some v => simpa [addI64_addI64] using ih (a + v)

/-- A fold that counts elements. -/
theorem foldl_countIf {α : Type} (p : α → Bool) (xs : List α) (n : Int) :
    xs.foldl (fun n x => countIf (p x) n) n = n + xs.countP p := by
  induction xs generalizing n with
  | nil => simp
  | cons x rest ih =>
      rw [List.foldl_cons, ih, List.countP_cons]
      cases hp : p x
      · simp [countIf]
      · simp [countIf]
        omega

/-- A field that each record changes on its own is the fold of its changes. -/
theorem totals_field {β : Type} (g : UsageTotals → β) (f : β → UsageSnapshot → β)
    (hstep : ∀ acc s, g (totalsStep uppercase acc s).1 = f (g acc.1) s)
    (hresiduals : ∀ t, g t.withResiduals = g t) :
    g (totals uppercase snaps) = snaps.foldl f (g {}) := by
  have hfold : ∀ acc, g (snaps.foldl (totalsStep uppercase) acc).1 = snaps.foldl f (g acc.1) := by
    induction snaps with
    | nil => exact fun _ => rfl
    | cons s rest ih =>
        intro acc
        rw [List.foldl_cons, List.foldl_cons, ih, hstep]
  rw [totals, hresiduals, hfold]

@[simp] theorem snapshots_totals : (totals uppercase snaps).snapshots = snaps.length := by
  rw [totals_field UsageTotals.snapshots
    (fun n s => countIf ((fun _ => true) s) n) (fun _ _ => rfl) (fun _ => rfl), foldl_countIf]
  simp

@[simp] theorem reportedCostRows_totals :
    (totals uppercase snaps).reportedCostRows = snaps.countP (·.reportedUsd.isSome) := by
  rw [totals_field UsageTotals.reportedCostRows (fun n s => countIf s.reportedUsd.isSome n)
    (fun _ _ => rfl) (fun _ => rfl), foldl_countIf]
  simp

@[simp] theorem estimatedCostRows_totals :
    (totals uppercase snaps).estimatedCostRows = snaps.countP (·.estimatedCostMicros.isSome) := by
  rw [totals_field UsageTotals.estimatedCostRows (fun n s => countIf s.estimatedCostMicros.isSome n)
    (fun _ _ => rfl) (fun _ => rfl), foldl_countIf]
  simp

@[simp] theorem reportedCostMicros_totals :
    (totals uppercase snaps).reportedCostMicros = addI64 0 (reportedSum snaps) := by
  have hfold := foldl_addI64 UsageSnapshot.reportedUsd snaps 0
  rw [Int.zero_add] at hfold
  rw [totals_field UsageTotals.reportedCostMicros
    (fun n s => match s.reportedUsd with | some v => addI64 n v | none => n)
    (fun _ _ => rfl) (fun _ => rfl)]
  exact hfold

@[simp] theorem estimatedCostMicros_totals :
    (totals uppercase snaps).estimatedCostMicros = addI64 0 (estimatedSum snaps) := by
  have hfold := foldl_addI64 (fun s : UsageSnapshot => some (s.estimatedCostMicros.getD 0)) snaps 0
  rw [Int.zero_add] at hfold
  rw [totals_field UsageTotals.estimatedCostMicros
    (fun n s => addI64 n (s.estimatedCostMicros.getD 0)) (fun _ _ => rfl) (fun _ => rfl)]
  exact hfold

/-- A number is complete only when every record carried it. -/
theorem forall_of_isComplete {p : UsageSnapshot → Bool}
    (h : (fromCoverage (snaps.countP p) snaps.length).isComplete = true) : ∀ s ∈ snaps, p s = true := by
  unfold fromCoverage at h
  split_ifs at h with h1 h2 h3
  · cases h
  · cases h
  · cases h
  · apply List.countP_eq_length.1
    have hle := @List.countP_le_length _ p snaps
    omega

end

/-! ## More records -/

/-- The costs of `s` that are missing may be filled in. -/
structure Fills (s s' : UsageSnapshot) : Prop where
  reported : s.reportedCostMicros = none ∨
    s'.reportedCostMicros = s.reportedCostMicros ∧ s'.currency = s.currency
  estimated : s.estimatedCostMicros = none ∨ s'.estimatedCostMicros = s.estimatedCostMicros

/-- The records of `after` are those of `before`, some with costs filled in, and further ones. -/
def Extends (before after : List UsageSnapshot) : Prop :=
  ∃ filled further, List.Forall₂ Fills before filled ∧ after.Perm (filled ++ further)

/-- No cost is negative. -/
def UsageSnapshot.NonNegative (s : UsageSnapshot) : Prop :=
  (∀ v ∈ s.reportedCostMicros, 0 ≤ v) ∧ ∀ v ∈ s.estimatedCostMicros, 0 ≤ v

section

variable {s s' : UsageSnapshot} {before after filled : List UsageSnapshot}

theorem getD_zero_nonneg {o : Option Int} (h : ∀ v ∈ o, 0 ≤ v) : 0 ≤ o.getD 0 := by
  cases o with
  | none => exact le_refl 0
  | some v => exact h v rfl

theorem UsageSnapshot.NonNegative.reportedUsd (h : s.NonNegative) : ∀ v ∈ s.reportedUsd, 0 ≤ v := by
  intro v hv
  unfold UsageSnapshot.reportedUsd at hv
  split_ifs at hv
  · exact h.1 v hv
  · cases hv

theorem Fills.reportedUsd_le (h : Fills s s') (hs : s'.NonNegative) :
    s.reportedUsd.getD 0 ≤ s'.reportedUsd.getD 0 := by
  rcases h.reported with hnone | ⟨hsame, hcurrency⟩
  · have hzero : s.reportedUsd = none := by simp [UsageSnapshot.reportedUsd, hnone]
    rw [hzero]
    exact getD_zero_nonneg hs.reportedUsd
  · rw [UsageSnapshot.reportedUsd, UsageSnapshot.reportedUsd, hsame, hcurrency]

theorem Fills.estimated_le (h : Fills s s') (hs : s'.NonNegative) :
    s.estimatedCostMicros.getD 0 ≤ s'.estimatedCostMicros.getD 0 := by
  rcases h.estimated with hnone | hsame
  · rw [hnone]
    exact getD_zero_nonneg hs.2
  · rw [hsame]

theorem sum_nonneg_of {f : UsageSnapshot → Int} (h : ∀ s ∈ after, 0 ≤ f s) : 0 ≤ (after.map f).sum := by
  apply List.sum_nonneg
  intro v hv
  obtain ⟨s, hs, rfl⟩ := List.mem_map.1 hv
  exact h s hs

theorem sum_le_of_fills {f : UsageSnapshot → Int} (h : List.Forall₂ Fills before filled)
    (hfill : ∀ s s', Fills s s' → s' ∈ filled → f s ≤ f s') : (before.map f).sum ≤ (filled.map f).sum := by
  induction h with
  | nil => simp
  | @cons s s' rest rest' hs _ ih =>
      have hfirst := hfill s s' hs List.mem_cons_self
      have hrest := ih fun u u' hu hmem => hfill u u' hu (List.mem_cons_of_mem _ hmem)
      rw [List.map_cons, List.map_cons, List.sum_cons, List.sum_cons]
      omega

/-- A column that filling in only raises adds up to no less. -/
theorem sum_le_of_extends {f : UsageSnapshot → Int} (h : Extends before after)
    (hfill : ∀ s s', Fills s s' → s' ∈ after → f s ≤ f s') (hnonneg : ∀ s ∈ after, 0 ≤ f s) :
    (before.map f).sum ≤ (after.map f).sum := by
  obtain ⟨filled, further, hfills, hperm⟩ := h
  have hmem : ∀ s, s ∈ filled ∨ s ∈ further → s ∈ after :=
    fun s hs => hperm.mem_iff.2 (List.mem_append.2 hs)
  have hfilled : (before.map f).sum ≤ (filled.map f).sum :=
    sum_le_of_fills hfills fun s s' hs hmem' => hfill s s' hs (hmem s' (.inl hmem'))
  have hfurther : 0 ≤ (further.map f).sum := sum_nonneg_of fun s hs => hnonneg s (hmem s (.inr hs))
  rw [(hperm.map f).sum_eq, List.map_append, List.sum_append]
  omega

theorem reportedSum_le (h : Extends before after) (hnonneg : ∀ s ∈ after, s.NonNegative) :
    reportedSum before ≤ reportedSum after :=
  sum_le_of_extends h (fun _ s' hs hmem => hs.reportedUsd_le (hnonneg s' hmem))
    fun s hs => getD_zero_nonneg (hnonneg s hs).reportedUsd

theorem estimatedSum_le (h : Extends before after) (hnonneg : ∀ s ∈ after, s.NonNegative) :
    estimatedSum before ≤ estimatedSum after :=
  sum_le_of_extends h (fun _ s' hs hmem => hs.estimated_le (hnonneg s' hmem))
    fun s hs => getD_zero_nonneg (hnonneg s hs).2

/-- The costs that are there in `before` are not negative either. -/
theorem Extends.nonNegative (h : Extends before after) (hnonneg : ∀ s ∈ after, s.NonNegative) :
    ∀ s ∈ before, s.NonNegative := by
  obtain ⟨filled, further, hfills, hperm⟩ := h
  intro s hs
  obtain ⟨s', hs', hfill⟩ := exists_right_of_forall₂ hfills hs
  obtain ⟨hreported, hestimated⟩ := hnonneg s' (hperm.mem_iff.2 (List.mem_append_left _ hs'))
  refine ⟨?_, ?_⟩
  · rcases hfill.reported with hnone | ⟨hsame, -⟩
    · simp [hnone]
    · exact hsame ▸ hreported
  · rcases hfill.estimated with hnone | hsame
    · simp [hnone]
    · exact hsame ▸ hestimated

theorem reportedSum_nonneg (h : ∀ s ∈ after, s.NonNegative) : 0 ≤ reportedSum after :=
  sum_nonneg_of fun s hs => getD_zero_nonneg (h s hs).reportedUsd

theorem estimatedSum_nonneg (h : ∀ s ∈ after, s.NonNegative) : 0 ≤ estimatedSum after :=
  sum_nonneg_of fun s hs => getD_zero_nonneg (h s hs).2

end

end Tethra.Usage
