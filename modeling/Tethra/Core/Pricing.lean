import Tethra.Observe.Policy

set_option autoImplicit false

/-! # Effective-dated prices (`core/src/pricing.rs`)

`chooseAsOf` first narrows the records to the longest model string that matches, and only then looks at
their dates. A later record of a longer model string therefore takes over the usage that an earlier, less
specific one priced (`longer_model_reprices`); `later_price_keeps_old_usage` says exactly when a later
record changes nothing. -/

namespace Tethra.Pricing

open Observe

inductive Unit where
  | tokens
  | requests
  | credits
  deriving DecidableEq, Repr

inductive Origin where
  | bundled
  | imported
  | override
  deriving DecidableEq, Repr

/-- Overrides beat imports beat bundled. -/
def Origin.rank : Origin → Nat
  | .override => 2
  | .imported => 1
  | .bundled => 0

structure PricingRecord where
  provider : Str
  model : Str
  unit : Unit
  inputPricePerMMicros : Option Int
  cachedInputPricePerMMicros : Option Int
  outputPricePerMMicros : Option Int
  batchInputPricePerMMicros : Option Int
  batchOutputPricePerMMicros : Option Int
  perRequestMicros : Option Int
  currency : Str
  source : Str
  effectiveFrom : Str
  lastVerified : Str
  origin : Origin
  version : Int
  note : Str
  stale : Bool
  deriving DecidableEq, Repr

/-- The functions outside: Unicode lowercasing, and the instants of dates, in nanoseconds. -/
structure PricingEnv where
  lowercase : Str → Str
  parseUserDate : Str → Option Int
  parseRfc3339 : Str → Option Int

def staleAfterDays : Int := 45

def nanosPerDay : Int := 86400 * 10 ^ 9

def PricingRecord.isStale (env : PricingEnv) (now : Str) (r : PricingRecord) : Bool :=
  match env.parseUserDate r.lastVerified with
  | none => true
  | some verified =>
      match env.parseRfc3339 now with
      | none => false
      | some now => staleAfterDays < Int.tdiv (now - verified) nanosPerDay

/-! ## The date of a usage -/

/-- The first `n` bytes; `none` inside a character. -/
def takeBytes : Nat → Str → Option Str
  | _, [] => some []
  | n, c :: cs =>
      if n = 0 then some []
      else if c.utf8Size ≤ n then (takeBytes (n - c.utf8Size) cs).map (c :: ·) else none

/-- `date_prefix`; `none` is the panic at a cut inside a character. -/
def datePrefix (s : Str) : Option Str := if 10 ≤ byteLen s then takeBytes 10 s else some s

/-! ## Choosing the record -/

/-- The record is for this model, or for the family that the model's id names. -/
def PricingRecord.prices (modelL : Str) (r : PricingRecord) : Bool :=
  modelL = r.model || decide (r.model <:+: modelL)

def bestLen (matching : List PricingRecord) : Nat :=
  (matching.map fun r => byteLen r.model).foldr max 0

/-- The records of the longest model string that matches. -/
def specific (modelL : Str) (candidates : List PricingRecord) : List PricingRecord :=
  let matching := candidates.filter (·.prices modelL)
  matching.filter fun r => byteLen r.model = bestLen matching

/-- The record of the highest origin, and of these the latest; `max_by_key` takes the last of several. -/
def inForce (date : Str) (records : List PricingRecord) : Option PricingRecord :=
  (records.filter fun r => decide (r.effectiveFrom ≤ date)).reverse.argmax
    fun r => toLex (r.origin.rank, r.effectiveFrom)

/-- What the earliest known record is chosen by. -/
def PricingRecord.earliness (r : PricingRecord) : Natᵒᵈ ×ₗ Str :=
  toLex (OrderDual.toDual r.origin.rank, r.effectiveFrom)

/-- The earliest known record of the highest origin; `min_by_key` takes the first of several. -/
def earliest (records : List PricingRecord) : Option PricingRecord :=
  records.argmin PricingRecord.earliness

/-- The note of a price that is applied backwards. -/
def PricingRecord.extrapolated (r : PricingRecord) : PricingRecord :=
  { r with note := "price effective ".toList ++ r.effectiveFrom ++ " applied to earlier usage".toList
      ++ if r.note = [] then [] else "; ".toList ++ r.note }

/-- The record in force, or else the earliest known one. -/
def chosen (date : Str) (records : List PricingRecord) : Option PricingRecord :=
  match inForce date records with
  | some r => some r
  | none => (earliest records).map PricingRecord.extrapolated

def chooseAsOf (env : PricingEnv) (now : Str) (candidates : List PricingRecord) (model asOf : Str) :
    Option (Option PricingRecord) :=
  (datePrefix asOf).map fun date =>
    (chosen date (specific (env.lowercase model) candidates)).map fun r =>
      { r with stale := r.isStale env now }

/-! ## A record is added -/

/-- The first minimum when one more element is in the list. -/
theorem argmin_insert {α β : Type} [LinearOrder β] (key : α → β) (a : α) (xs ys : List α) :
    (xs ++ a :: ys).argmin key
      = if (∃ c ∈ xs, key c ≤ key a) ∨ ∃ c ∈ ys, key c < key a then (xs ++ ys).argmin key
        else some a := by
  induction xs with
  | nil =>
      rw [List.nil_append, List.nil_append, List.argmin_cons]
      cases hmin : ys.argmin key with
      | none =>
          rw [List.argmin_eq_none.1 hmin]
          simp
      | some c =>
          have hc : ∀ d ∈ ys, key c ≤ key d := fun d hd => List.le_of_mem_argmin hd hmin
          have hiff : (∃ d ∈ ys, key d < key a) ↔ key c < key a :=
            ⟨fun ⟨d, hd, hlt⟩ => (hc d hd).trans_lt hlt, fun hlt => ⟨c, List.argmin_mem hmin, hlt⟩⟩
          simp only [List.not_mem_nil, false_and, exists_false, false_or, hiff]
  | cons x xs ih =>
      rw [List.cons_append, List.cons_append, List.argmin_cons, List.argmin_cons, ih]
      by_cases hrest : (∃ c ∈ xs, key c ≤ key a) ∨ ∃ c ∈ ys, key c < key a
      · have hall : (∃ c ∈ x :: xs, key c ≤ key a) ∨ ∃ c ∈ ys, key c < key a := by
          refine hrest.imp_left ?_
          rintro ⟨c, hc, hle⟩
          exact ⟨c, List.mem_cons_of_mem _ hc, hle⟩
        rw [if_pos hrest, if_pos hall]
      · rw [if_neg hrest]
        simp only [not_or, not_exists, not_and, not_le, not_lt] at hrest
        by_cases hx : key x ≤ key a
        · have hmin : ∀ c ∈ xs ++ ys, ¬key c < key x := by
            intro c hc
            rcases List.mem_append.1 hc with hc | hc
            · exact not_lt.2 (hx.trans (hrest.1 c hc).le)
            · exact not_lt.2 (hx.trans (hrest.2 c hc))
          rw [if_pos (.inl ⟨x, List.mem_cons_self .., hx⟩)]
          cases harg : (xs ++ ys).argmin key with
          | none => simp [not_lt.2 hx]
          | some c => simp [not_lt.2 hx, hmin c (List.argmin_mem harg)]
        · rw [if_neg]
          · simp [not_le.1 hx]
          · rintro (⟨c, hc, hle⟩ | ⟨c, hc, hlt⟩)
            · rcases List.mem_cons.1 hc with rfl | hc
              · exact hx hle
              · exact absurd hle (not_le.2 (hrest.1 c hc))
            · exact absurd hlt (not_lt.2 (hrest.2 c hc))

/-- The records that match with a model string of `n` bytes. -/
def atLength (modelL : Str) (n : Nat) (records : List PricingRecord) : List PricingRecord :=
  records.filter fun r => r.prices modelL && decide (byteLen r.model = n)

/-- How specific the best match is. -/
def best (modelL : Str) (records : List PricingRecord) : Nat :=
  bestLen (records.filter (·.prices modelL))

theorem specific_eq (modelL : Str) (records : List PricingRecord) :
    specific modelL records = atLength modelL (best modelL records) records := by
  unfold specific atLength best
  rw [List.filter_filter]
  congr 1
  funext r
  rw [Bool.and_comm]

theorem le_bestLen {records : List PricingRecord} {r : PricingRecord} (h : r ∈ records) :
    byteLen r.model ≤ bestLen records := by
  induction records with
  | nil => cases h
  | cons a records ih =>
      unfold bestLen
      rw [List.map_cons, List.foldr_cons]
      rcases List.mem_cons.1 h with rfl | h
      · exact le_max_left _ _
      · exact (ih h).trans (le_max_right _ _)

theorem exists_bestLen {records : List PricingRecord} (h : records ≠ []) :
    ∃ r ∈ records, byteLen r.model = bestLen records := by
  induction records with
  | nil => exact absurd rfl h
  | cons a records ih =>
      unfold bestLen
      rw [List.map_cons, List.foldr_cons]
      by_cases hnil : records = []
      · exact ⟨a, List.mem_cons_self .., by simp [hnil]⟩
      · obtain ⟨r, hr, hlen⟩ := ih hnil
        rcases le_total (byteLen a.model) (bestLen records) with hle | hle
        · exact ⟨r, List.mem_cons_of_mem _ hr, hlen.trans (max_eq_right hle).symm⟩
        · exact ⟨a, List.mem_cons_self .., (max_eq_left hle).symm⟩

theorem best_insert {modelL : Str} {r : PricingRecord} (h : r.prices modelL = true)
    (pre post : List PricingRecord) :
    best modelL (pre ++ r :: post) = max (byteLen r.model) (best modelL (pre ++ post)) := by
  unfold best bestLen
  rw [List.filter_append, List.filter_cons_of_pos h, List.filter_append]
  induction pre.filter (·.prices modelL) with
  | nil => rfl
  | cons a records ih =>
      simp only [List.cons_append, List.map_cons, List.foldr_cons] at ih ⊢
      rw [ih, max_left_comm]

/-- A record that does not match, or is less specific, is not looked at. -/
theorem specific_insert_of_less {modelL : Str} {r : PricingRecord} {pre post : List PricingRecord}
    (h : r.prices modelL = false ∨ byteLen r.model < best modelL (pre ++ post)) :
    specific modelL (pre ++ r :: post) = specific modelL (pre ++ post) := by
  by_cases hmatch : r.prices modelL = true
  · have hless := h.resolve_left (by simp [hmatch])
    rw [specific_eq, specific_eq, best_insert hmatch, max_eq_right hless.le]
    unfold atLength
    rw [List.filter_append, List.filter_append, List.filter_cons_of_neg]
    simp [hless.ne]
  · have hfilter : (pre ++ r :: post).filter (·.prices modelL) = (pre ++ post).filter (·.prices modelL) := by
      rw [List.filter_append, List.filter_cons_of_neg hmatch, List.filter_append]
    unfold specific
    rw [hfilter]

/-- A record as specific as the best ones stands among them. -/
theorem specific_insert_of_eq {modelL : Str} {r : PricingRecord} {pre post : List PricingRecord}
    (hmatch : r.prices modelL = true) (h : byteLen r.model = best modelL (pre ++ post)) :
    specific modelL (pre ++ r :: post)
      = atLength modelL (byteLen r.model) pre ++ r :: atLength modelL (byteLen r.model) post := by
  rw [specific_eq, best_insert hmatch, max_eq_left h.ge]
  unfold atLength
  rw [List.filter_append, List.filter_cons_of_pos (by simp [hmatch])]

/-- A record that is more specific than all of them stands alone. -/
theorem specific_insert_of_more {modelL : Str} {r : PricingRecord} {pre post : List PricingRecord}
    (hmatch : r.prices modelL = true) (h : best modelL (pre ++ post) < byteLen r.model) :
    specific modelL (pre ++ r :: post) = [r] := by
  have hnone : ∀ records : List PricingRecord, (∀ c ∈ records, c ∈ pre ++ post) →
      atLength modelL (byteLen r.model) records = [] := by
    intro records hsub
    unfold atLength
    rw [List.filter_eq_nil_iff]
    intro c hc hboth
    obtain ⟨hprices, hlen⟩ := Bool.and_eq_true_iff.1 hboth
    have hle : byteLen c.model ≤ best modelL (pre ++ post) :=
      le_bestLen (List.mem_filter.2 ⟨hsub c hc, hprices⟩)
    have := of_decide_eq_true hlen
    omega
  rw [specific_eq, best_insert hmatch, max_eq_left h.le]
  have hpre := hnone pre fun c hc => List.mem_append_left _ hc
  have hpost := hnone post fun c hc => List.mem_append_right _ hc
  unfold atLength at hpre hpost ⊢
  rw [List.filter_append, List.filter_cons_of_pos (by simp [hmatch]), hpre, hpost, List.nil_append]

/-! ## Prices of the past -/

theorem inForce_insert {date : Str} {r : PricingRecord} (h : date < r.effectiveFrom)
    (xs ys : List PricingRecord) : inForce date (xs ++ r :: ys) = inForce date (xs ++ ys) := by
  unfold inForce
  rw [List.filter_append, List.filter_cons_of_neg (by simpa using h), List.filter_append]

theorem inForce_eq_none {date : Str} {records : List PricingRecord} :
    inForce date records = none ↔ ∀ c ∈ records, date < c.effectiveFrom := by
  unfold inForce
  rw [List.argmax_eq_none, List.reverse_eq_nil_iff, List.filter_eq_nil_iff]
  simp

theorem chosen_isSome {date : Str} {records : List PricingRecord} (h : records ≠ []) :
    ∃ c, chosen date records = some c ∧ ∃ e ∈ records, c.model = e.model := by
  unfold chosen
  cases hforce : inForce date records with
  | some c =>
      have hmem : c ∈ records := by
        have hargmax := List.argmax_mem hforce
        rw [List.mem_reverse] at hargmax
        exact (List.mem_filter.1 hargmax).1
      exact ⟨c, rfl, c, hmem, rfl⟩
  | none =>
      cases hmin : earliest records with
      | none => exact absurd (List.argmin_eq_none.1 hmin) h
      | some e => exact ⟨e.extrapolated, rfl, e, List.argmin_mem hmin, rfl⟩

/-- Records that are applied backwards are told apart by what they hold, the flag of the result aside. -/
theorem extrapolated_inj {r e : PricingRecord} {x y : Bool}
    (h : { r.extrapolated with stale := x } = { e.extrapolated with stale := y }) :
    { r with stale := false } = { e with stale := false } := by
  cases r
  cases e
  simp only [PricingRecord.extrapolated, PricingRecord.mk.injEq] at h
  obtain ⟨rfl, rfl, rfl, rfl, rfl, rfl, rfl, rfl, rfl, rfl, rfl, rfl, rfl, rfl, rfl, hnote, -⟩ := h
  have htail := List.append_cancel_left hnote
  simp only [PricingRecord.mk.injEq, true_and, and_true]
  split at htail <;> split at htail
  · rename_i hr he
    rw [hr, he]
  · simp at htail
  · simp at htail
  · exact List.append_cancel_left htail

/-- A later record changes nothing: it does not match, or is less specific than the best, or is as
    specific as these and comes behind one in force, or behind one that is known earlier. -/
def Undisturbed (modelL date : Str) (pre : List PricingRecord) (r : PricingRecord)
    (post : List PricingRecord) : Prop :=
  r.prices modelL = false ∨ byteLen r.model < best modelL (pre ++ post) ∨
    byteLen r.model = best modelL (pre ++ post) ∧
      ((∃ c ∈ specific modelL (pre ++ post), c.effectiveFrom ≤ date) ∨
        (∃ c ∈ atLength modelL (byteLen r.model) pre, c.earliness ≤ r.earliness) ∨
        ∃ c ∈ atLength modelL (byteLen r.model) post, c.earliness < r.earliness)

/-- The prices of past usage: for every set of records with one in force that matches, a later record
    leaves the choice as it is exactly when it is undisturbed. -/
theorem later_price_keeps_old_usage {env : PricingEnv} {now model asOf date : Str}
    {pre post : List PricingRecord} {r : PricingRecord} (hdate : datePrefix asOf = some date)
    (hpriced : ∃ c ∈ pre ++ post, c.prices (env.lowercase model) = true ∧ c.effectiveFrom ≤ date)
    (hlater : date < r.effectiveFrom)
    (hnew : ∀ c ∈ pre ++ post, { c with stale := false } ≠ { r with stale := false }) :
    chooseAsOf env now (pre ++ r :: post) model asOf = chooseAsOf env now (pre ++ post) model asOf ↔
      Undisturbed (env.lowercase model) date pre r post := by
  unfold chooseAsOf
  rw [hdate]
  simp only [Option.map_some, Option.some.injEq]
  set modelL := env.lowercase model
  have hspecific : specific modelL (pre ++ post) ≠ [] := by
    obtain ⟨c, hc, hprices, -⟩ := hpriced
    have hmatching : (pre ++ post).filter (·.prices modelL) ≠ [] :=
      List.ne_nil_of_mem (List.mem_filter.2 ⟨hc, hprices⟩)
    obtain ⟨e, he, hlen⟩ := exists_bestLen hmatching
    unfold specific
    exact List.ne_nil_of_mem (List.mem_filter.2 ⟨he, decide_eq_true hlen⟩)
  by_cases hless : r.prices modelL = false ∨ byteLen r.model < best modelL (pre ++ post)
  · rw [specific_insert_of_less hless]
    refine iff_of_true rfl ?_
    exact hless.imp_right .inl
  obtain ⟨hmatch, hle⟩ := not_or.1 hless
  rw [Bool.not_eq_false] at hmatch
  rcases (not_lt.1 hle).lt_or_eq with hmore | heq
  · -- the more specific record stands alone, and its model is not that of the record chosen before
    rw [specific_insert_of_more hmatch hmore]
    refine iff_of_false ?_ ?_
    · intro hsame
      obtain ⟨c, hc, e, he, hmodel⟩ := @chosen_isSome date _ hspecific
      obtain ⟨c', hc', e', he', hmodel'⟩ := @chosen_isSome date [r] (List.cons_ne_nil _ _)
      obtain rfl := List.mem_singleton.1 he'
      rw [hc, hc', Option.map_some, Option.map_some] at hsame
      have hrecords := Option.some.inj hsame
      have hmodels : c'.model = c.model := (PricingRecord.mk.inj hrecords).2.1
      unfold specific at he
      have hlen := of_decide_eq_true (List.mem_filter.1 he).2
      rw [← hmodel, ← hmodels, hmodel'] at hlen
      unfold best at hmore
      omega
    · rintro (hfalse | hlt | ⟨heq, -⟩)
      · exact absurd (hmatch.symm.trans hfalse) (by decide)
      · omega
      · omega
  · have hsplit : specific modelL (pre ++ post)
        = atLength modelL (byteLen r.model) pre ++ atLength modelL (byteLen r.model) post := by
      rw [specific_eq, heq]
      exact List.filter_append ..
    rw [specific_insert_of_eq hmatch heq.symm, hsplit]
    unfold chosen
    rw [inForce_insert hlater]
    cases hforce : inForce date (atLength modelL (byteLen r.model) pre
        ++ atLength modelL (byteLen r.model) post) with
    | some c =>
        refine iff_of_true rfl (.inr (.inr ⟨heq.symm, .inl ?_⟩))
        by_contra hnone
        rw [← hsplit, inForce_eq_none.2 fun c hc => not_le.1 fun hle => hnone ⟨c, hc, hle⟩] at hforce
        cases hforce
    | none =>
        have hlate := inForce_eq_none.1 hforce
        rw [← hsplit] at hlate
        dsimp only
        unfold earliest
        rw [argmin_insert]
        by_cases hbehind : (∃ c ∈ atLength modelL (byteLen r.model) pre, c.earliness ≤ r.earliness) ∨
            ∃ c ∈ atLength modelL (byteLen r.model) post, c.earliness < r.earliness
        · rw [if_pos hbehind]
          exact iff_of_true rfl (.inr (.inr ⟨heq.symm, .inr hbehind⟩))
        · rw [if_neg hbehind]
          refine iff_of_false ?_ ?_
          · intro hsame
            cases hmin : (atLength modelL (byteLen r.model) pre
                ++ atLength modelL (byteLen r.model) post).argmin PricingRecord.earliness with
            | none => exact hspecific (hsplit.trans (List.argmin_eq_none.1 hmin))
            | some e =>
                rw [hmin] at hsame
                simp only [Option.map_some] at hsame
                have hmem : e ∈ pre ++ post := by
                  have he := List.argmin_mem hmin
                  rw [← hsplit, specific_eq] at he
                  exact (List.mem_filter.1 he).1
                exact hnew e hmem (extrapolated_inj (Option.some.inj hsame)).symm
          · rintro (hfalse | hlt | ⟨-, hold | hbehind'⟩)
            · exact absurd (hmatch.symm.trans hfalse) (by decide)
            · omega
            · obtain ⟨c, hc, hle⟩ := hold
              exact absurd (hlate c hc) (not_lt.2 hle)
            · exact hbehind hbehind'

/-! ## A price for the family, then one for the model -/

def plainPricing : PricingEnv where
  lowercase := asciiLower
  parseUserDate _ := some 0
  parseRfc3339 _ := some 0

/-- A record with nothing but its model, its date and its origin. -/
def priceFrom (model date : String) (origin : Origin) (input : Int) : PricingRecord where
  provider := "openai".toList
  model := model.toList
  unit := .tokens
  inputPricePerMMicros := some input
  cachedInputPricePerMMicros := none
  outputPricePerMMicros := none
  batchInputPricePerMMicros := none
  batchOutputPricePerMMicros := none
  perRequestMicros := none
  currency := "USD".toList
  source := []
  effectiveFrom := date.toList
  lastVerified := date.toList
  origin := origin
  version := 1
  note := []
  stale := false

def gpt4o : PricingRecord := priceFrom "gpt-4o" "2024-05-13" .bundled 5000000

def gpt4oMini : PricingRecord := priceFrom "gpt-4o-mini" "2024-07-18" .imported 150000

theorem later_price_keeps_old_usage_mini :
    chooseAsOf plainPricing [] ([gpt4o] ++ gpt4oMini :: []) "gpt-4o-mini".toList "2024-06-01".toList
        = chooseAsOf plainPricing [] ([gpt4o] ++ []) "gpt-4o-mini".toList "2024-06-01".toList ↔
      Undisturbed (asciiLower "gpt-4o-mini".toList) "2024-06-01".toList [gpt4o] gpt4oMini [] :=
  later_price_keeps_old_usage (by decide) (by decide) (by decide)
    (by decide)

/-- The price of `gpt-4o` is in force when `gpt-4o-mini` is used; a price for `gpt-4o-mini` that takes effect
    later is what the usage then resolves to. -/
theorem longer_model_reprices :
    (∃ c ∈ [gpt4o], c.prices (asciiLower "gpt-4o-mini".toList) = true ∧
      c.effectiveFrom ≤ "2024-06-01".toList) ∧
    "2024-06-01".toList < gpt4oMini.effectiveFrom ∧
    (chooseAsOf plainPricing [] [gpt4o] "gpt-4o-mini".toList "2024-06-01".toList).map
        (fun r => r.map PricingRecord.inputPricePerMMicros) = some (some (some 5000000)) ∧
    (chooseAsOf plainPricing [] [gpt4o, gpt4oMini] "gpt-4o-mini".toList "2024-06-01".toList).map
        (fun r => r.map PricingRecord.inputPricePerMMicros) = some (some (some 150000)) ∧
    chooseAsOf plainPricing [] [gpt4o, gpt4oMini] "gpt-4o-mini".toList "2024-06-01".toList
      ≠ chooseAsOf plainPricing [] [gpt4o] "gpt-4o-mini".toList "2024-06-01".toList := by
  decide

end Tethra.Pricing
