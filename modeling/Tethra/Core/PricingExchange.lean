import Tethra.Core.PriceRule
import Tethra.Lib.Choice
import Tethra.Lib.KeyedLast
import Tethra.Lib.Runs

set_option autoImplicit false

/-! # Exporting and importing prices (`core/src/pricing.rs`, `export_records`, `import_records`)

An export holds the rows of the store and the bundled rates, ordered by provider, model and date. An import takes
them all as imported ones: of those with one provider, model and date the last stays, and where origins came first,
only the date is left. -/

namespace Tethra.Pricing

open Observe Text

/-! ## The interchange format -/

/-- A record of `pricing export`: prices are dollar strings. -/
structure InterchangeRecord where
  provider : Str
  model : Str
  unit : Unit
  inputPerM : Option Str
  cachedInputPerM : Option Str
  outputPerM : Option Str
  batchInputPerM : Option Str
  batchOutputPerM : Option Str
  perRequest : Option Str
  currency : Str
  source : Str
  effectiveFrom : Str
  lastVerified : Str
  note : Str
  origin : Option Origin
  deriving DecidableEq, Repr

/-- What the exchange needs beside `PricingEnv`: Unicode uppercasing, `str::parse::<f64>`, read exactly (`some none`
    is not finite), and the JSON of an interchange file. -/
structure ExchangeEnv extends PricingEnv where
  uppercase : Str → Str
  parseFloat : Str → Option (Option ℚ)
  toJson : List InterchangeRecord → Str
  fromJson : Str → Except Str (List InterchangeRecord)

/-- `micros_to_dollars`: the exact decimal with six places. -/
def microsToDollars (m : Int) : Str :=
  (if m < 0 then ['-'] else []) ++ Nat.toDigits 10 (m.natAbs / 1000000)
    ++ '.' :: (Nat.toDigits 10 (m.natAbs % 1000000)).leftpad 6 '0'

/-- `dollars_to_micros`, with the text of its error. -/
def dollarsToMicros (env : ExchangeEnv) (dollars : Str) : Except Str Int :=
  match env.parseFloat ((trim dollars).dropWhile (· = '$')) with
  | none => .error ("'".toList ++ dollars ++ "' is not a dollar amount".toList)
  | some none => .error ("'".toList ++ dollars ++ "' is not a valid amount".toList)
  | some (some v) =>
      if v < 0 then .error ("'".toList ++ dollars ++ "' is not a valid amount".toList)
      else if 10 ^ 12 < v then .error "amount is unreasonably large".toList
      else .ok (round (v * 1000000))

/-- `parse_price`. -/
def parsePrice (env : ExchangeEnv) (name : Str) : Option Str → Except CoreError (Option Int)
  | none => .ok none
  | some s =>
      match dollarsToMicros env s with
      | .ok m => .ok (some m)
      | .error e => .error (.invalidInput (name ++ ": invalid input: ".toList ++ e))

/-! ## Import -/

structure ImportOutcome where
  added : Nat
  replaced : Nat
  deriving DecidableEq, Repr

/-- One turn of the checks of `import_records`. -/
def importRecord (env : ExchangeEnv) (i : Nat) (r : InterchangeRecord) : Except CoreError PricingRecord := do
  let ctx := "record ".toList ++ Nat.toDigits 10 (i + 1) ++ " (".toList ++ r.provider ++ "/".toList ++ r.model ++ ")".toList
  let provider := env.normal r.provider
  let model := env.normal r.model
  require (provider ≠ [] ∧ model ≠ []) (ctx ++ ": provider and model must not be empty".toList)
  require (byteLen (trim r.currency) = 3) (ctx ++ ": currency must be a 3-letter code".toList)
  validateDate env.toPricingEnv (ctx ++ ": effective_from".toList) r.effectiveFrom
  validateDate env.toPricingEnv (ctx ++ ": last_verified".toList) r.lastVerified
  let input ← parsePrice env (ctx ++ ": input_per_m".toList) r.inputPerM
  let cached ← parsePrice env (ctx ++ ": cached_input_per_m".toList) r.cachedInputPerM
  let output ← parsePrice env (ctx ++ ": output_per_m".toList) r.outputPerM
  let batchIn ← parsePrice env (ctx ++ ": batch_input_per_m".toList) r.batchInputPerM
  let batchOut ← parsePrice env (ctx ++ ": batch_output_per_m".toList) r.batchOutputPerM
  let perReq ← parsePrice env (ctx ++ ": per_request".toList) r.perRequest
  requirePriced r.unit input output perReq (ctx ++ ": a token record needs an input and/or output price".toList)
    (ctx ++ ": a request record needs per_request".toList)
  return {
    provider, model
    unit := r.unit
    inputPricePerMMicros := input
    cachedInputPricePerMMicros := cached
    outputPricePerMMicros := output
    batchInputPricePerMMicros := batchIn
    batchOutputPricePerMMicros := batchOut
    perRequestMicros := perReq
    currency := env.uppercase (trim r.currency)
    source := r.source
    effectiveFrom := r.effectiveFrom
    lastVerified := r.lastVerified
    origin := .imported
    version := 0
    note := r.note
    stale := false }

/-- One turn of the writes of `import_records`. -/
def insertRecord (s : ImportOutcome × List PricingRecord) (rec : PricingRecord) : ImportOutcome × List PricingRecord :=
  let written := upsertRecord s.2 { rec with version := nextVersion s.2 rec.provider rec.model }
  (if written.1 then { s.1 with replaced := s.1.replaced + 1 } else { s.1 with added := s.1.added + 1 }, written.2)

def maxImportBytes : Nat := 4 * 1024 * 1024

def importRecords (env : ExchangeEnv) (db : List PricingRecord) (json : Str) :
    Except CoreError (ImportOutcome × List PricingRecord) := do
  require (byteLen json ≤ maxImportBytes) "the pricing file exceeds 4 MiB; that is not a pricing dataset".toList
  let parsed ← (env.fromJson json).mapError fun e => CoreError.invalidInput ("pricing JSON did not parse: ".toList ++ e)
  require (!parsed.isEmpty) "the pricing file contains no records".toList
  let toInsert ← parsed.zipIdx.mapM fun p => importRecord env p.2 p.1
  return toInsert.foldl insertRecord (⟨0, 0⟩, db)

/-! ## Export -/

/-- What an export holds; the sort is stable. -/
def exported (query : RowOrder) (db : List PricingRecord) (provider : Option Str) : List PricingRecord :=
  (loadDbRecords query db provider ++ bundled.filter fun r => provider.all (r.provider = ·)).insertionSort
    fun a b => a.place ≤ b.place

def PricingRecord.toInterchange (r : PricingRecord) : InterchangeRecord where
  provider := r.provider
  model := r.model
  unit := r.unit
  inputPerM := r.inputPricePerMMicros.map microsToDollars
  cachedInputPerM := r.cachedInputPricePerMMicros.map microsToDollars
  outputPerM := r.outputPricePerMMicros.map microsToDollars
  batchInputPerM := r.batchInputPricePerMMicros.map microsToDollars
  batchOutputPerM := r.batchOutputPricePerMMicros.map microsToDollars
  perRequest := r.perRequestMicros.map microsToDollars
  currency := r.currency
  source := r.source
  effectiveFrom := r.effectiveFrom
  lastVerified := r.lastVerified
  note := r.note
  origin := some r.origin

def exportRecords (env : ExchangeEnv) (query : RowOrder) (db : List PricingRecord) (provider : Option Str) : Str :=
  env.toJson ((exported query db provider).map PricingRecord.toInterchange)

/-! ## What an import accepts -/

/-- The amounts of a record. -/
def PricingRecord.amounts (r : PricingRecord) : List Int :=
  [r.inputPricePerMMicros, r.cachedInputPricePerMMicros, r.outputPricePerMMicros, r.batchInputPricePerMMicros,
    r.batchOutputPricePerMMicros, r.perRequestMicros].reduceOption

theorem PricingRecord.forall_amounts {r : PricingRecord} {P : Int → Prop} : (∀ m ∈ r.amounts, P m) ↔
    (∀ m ∈ r.inputPricePerMMicros, P m) ∧ (∀ m ∈ r.cachedInputPricePerMMicros, P m) ∧
      (∀ m ∈ r.outputPricePerMMicros, P m) ∧ (∀ m ∈ r.batchInputPricePerMMicros, P m) ∧
        (∀ m ∈ r.batchOutputPricePerMMicros, P m) ∧ ∀ m ∈ r.perRequestMicros, P m := by
  simp only [amounts, List.reduceOption_mem_iff, List.mem_cons, List.not_mem_nil, or_false, or_imp, forall_and,
    Option.mem_def, eq_comm]

/-- An amount is read back exactly from its six places. -/
def ExchangeEnv.ReadsBack (env : ExchangeEnv) (m : Int) : Prop :=
  env.parseFloat ((trim (microsToDollars m)).dropWhile (· = '$')) = some (some ((m : ℚ) / 1000000))

instance (env : ExchangeEnv) (m : Int) : Decidable (env.ReadsBack m) := inferInstanceAs (Decidable (_ = _))

/-- A record that an import takes. -/
structure Importable (env : ExchangeEnv) (r : PricingRecord) : Prop where
  named : r.provider ≠ [] ∧ r.model ≠ []
  currency : byteLen (trim r.currency) = 3
  dated : (env.parseUserDate r.effectiveFrom).isSome = true ∧ (env.parseUserDate r.lastVerified).isSome = true
  amounts : ∀ m ∈ r.amounts, 0 ≤ m ∧ m ≤ 10 ^ 18
  priced : priced r.unit r.inputPricePerMMicros r.outputPricePerMMicros r.perRequestMicros = true

/-- A record as it is imported. -/
def PricingRecord.imported (env : ExchangeEnv) (r : PricingRecord) : PricingRecord :=
  { r with currency := env.uppercase (trim r.currency), origin := .imported, version := 0, stale := false }

section

variable {env : ExchangeEnv}

theorem dollarsToMicros_eq_ok {m p : Int} (h : env.ReadsBack m) :
    dollarsToMicros env (microsToDollars m) = .ok p ↔ (0 ≤ m ∧ m ≤ 10 ^ 18) ∧ p = m := by
  have hneg : ((m : ℚ) / 1000000 < 0) ↔ m < 0 := by
    rw [div_lt_iff₀ (by norm_num), zero_mul]
    exact_mod_cast Iff.rfl
  have hlarge : (10 ^ 12 < (m : ℚ) / 1000000) ↔ 10 ^ 18 < m := by
    rw [lt_div_iff₀ (by norm_num)]
    norm_num
    exact_mod_cast Iff.rfl
  have hround : round ((m : ℚ) / 1000000 * 1000000) = m := by
    rw [div_mul_cancel₀ _ (by norm_num)]
    exact round_intCast m
  unfold ExchangeEnv.ReadsBack at h
  unfold dollarsToMicros
  rw [h]
  simp only [hneg, hlarge, hround]
  by_cases hm : m < 0
  · simp [hm]
  · by_cases hm' : 10 ^ 18 < m
    · simp only [hm, hm', if_true, if_false, reduceCtorEq, false_iff]
      omega
    · simp only [hm, hm', if_false, Except.ok.injEq]
      constructor
      · rintro rfl
        omega
      · rintro ⟨-, rfl⟩
        rfl

theorem parsePrice_eq_ok {name : Str} {o o' : Option Int} (h : ∀ m ∈ o, env.ReadsBack m) :
    parsePrice env name (o.map microsToDollars) = .ok o' ↔ (∀ m ∈ o, 0 ≤ m ∧ m ≤ 10 ^ 18) ∧ o' = o := by
  cases o with
  | none => simp [parsePrice, eq_comm]
  | some m =>
      have hm := @dollarsToMicros_eq_ok env m
      unfold parsePrice
      dsimp only [Option.map_some]
      cases hread : dollarsToMicros env (microsToDollars m) with
      | error e =>
          have hnot : ¬(0 ≤ m ∧ m ≤ 10 ^ 18) := by
            intro hrange
            have hok := (hm (h m rfl)).2 ⟨hrange, rfl⟩
            rw [hread] at hok
            cases hok
          exact iff_of_false (by simp) fun hsame => hnot (hsame.1 m rfl)
      | ok p =>
          obtain ⟨hrange, rfl⟩ := (hm (h m rfl)).1 hread
          simp only [Except.ok.injEq, Option.mem_some_iff, forall_eq', hrange, and_self, true_and]
          exact eq_comm

/-- What is exported is taken exactly when it can be imported. -/
theorem importRecord_eq_ok {i : Nat} {r x : PricingRecord} (hnormal : r.Normal env.toPricingEnv)
    (hreads : ∀ m ∈ r.amounts, env.ReadsBack m) :
    importRecord env i r.toInterchange = .ok x ↔ Importable env r ∧ x = r.imported env := by
  obtain ⟨hinput, hcached, houtput, hbatchIn, hbatchOut, hperReq⟩ := r.forall_amounts.1 hreads
  simp only [importRecord, PricingRecord.toInterchange, hnormal.1, hnormal.2, bind_eq_ok, require_eq_ok, decide_eq_true_eq,
    validateDate_eq_ok, parsePrice_eq_ok hinput, parsePrice_eq_ok hcached, parsePrice_eq_ok houtput,
    parsePrice_eq_ok hbatchIn, parsePrice_eq_ok hbatchOut, parsePrice_eq_ok hperReq, requirePriced_eq_ok]
  constructor
  · rintro ⟨_, hnamed, _, hcurrency, _, hfrom, _, hverified, _, ⟨h₁, rfl⟩, _, ⟨h₂, rfl⟩, _, ⟨h₃, rfl⟩, _, ⟨h₄, rfl⟩,
      _, ⟨h₅, rfl⟩, _, ⟨h₆, rfl⟩, _, hpriced, h⟩
    obtain rfl := Except.ok.inj h
    exact ⟨⟨hnamed, of_decide_eq_true hcurrency, ⟨hfrom, hverified⟩, r.forall_amounts.2 ⟨h₁, h₂, h₃, h₄, h₅, h₆⟩, hpriced⟩, rfl⟩
  · rintro ⟨⟨hnamed, hcurrency, ⟨hfrom, hverified⟩, hamounts, hpriced⟩, rfl⟩
    obtain ⟨h₁, h₂, h₃, h₄, h₅, h₆⟩ := r.forall_amounts.1 hamounts
    exact ⟨⟨⟩, hnamed, ⟨⟩, decide_eq_true hcurrency, ⟨⟩, hfrom, ⟨⟩, hverified, _, ⟨h₁, rfl⟩, _, ⟨h₂, rfl⟩, _, ⟨h₃, rfl⟩, _, ⟨h₄, rfl⟩,
      _, ⟨h₅, rfl⟩, _, ⟨h₆, rfl⟩, ⟨⟩, hpriced, rfl⟩

theorem mapM_importRecord {records : List PricingRecord} (hnormal : ∀ r ∈ records, r.Normal env.toPricingEnv)
    (hreads : ∀ r ∈ records, ∀ m ∈ r.amounts, env.ReadsBack m) (k : Nat) {xs : List PricingRecord} :
    ((records.map PricingRecord.toInterchange).zipIdx k).mapM (fun p => importRecord env p.2 p.1) = .ok xs ↔
      (∀ r ∈ records, Importable env r) ∧ xs = records.map (·.imported env) := by
  induction records generalizing k xs with
  | nil => simp [pure, Except.pure, eq_comm]
  | cons r records ih =>
      rw [List.map_cons, List.zipIdx_cons, List.mapM_cons, bind_eq_ok]
      simp only [importRecord_eq_ok (hnormal r List.mem_cons_self) (hreads r List.mem_cons_self), bind_eq_ok,
        ih (fun r' hr' => hnormal r' (List.mem_cons_of_mem _ hr')) fun r' hr' => hreads r' (List.mem_cons_of_mem _ hr')]
      constructor
      · rintro ⟨_, ⟨himportable, rfl⟩, _, ⟨hrest, rfl⟩, h⟩
        obtain rfl := Except.ok.inj h
        exact ⟨List.forall_mem_cons.2 ⟨himportable, hrest⟩, rfl⟩
      · rintro ⟨hall, rfl⟩
        obtain ⟨himportable, hrest⟩ := List.forall_mem_cons.1 hall
        exact ⟨_, ⟨himportable, rfl⟩, _, ⟨hrest, rfl⟩, rfl⟩

end

/-! ## The rows over a run -/

/-- What a write checks of a record, whichever way it comes. -/
structure PricingRecord.Accepted (env : PricingEnv) (r : PricingRecord) : Prop where
  normal : r.Normal env
  named : r.provider ≠ [] ∧ r.model ≠ []
  priced : priced r.unit r.inputPricePerMMicros r.outputPricePerMMicros r.perRequestMicros = true
  amounts : ∀ m ∈ r.amounts, 0 ≤ m
  dated : r.effectiveFrom = epochDate ∨ (env.parseUserDate r.effectiveFrom).isSome = true
  origin : r.origin ≠ .bundled

/-- Two rows differ in their keys, and in their versions if they price one model. -/
def PricingRecord.Apart (a b : PricingRecord) : Prop :=
  a.key ≠ b.key ∧ (a.provider = b.provider → a.model = b.model → a.version ≠ b.version)

structure WellFormed (env : PricingEnv) (db : List PricingRecord) : Prop where
  accepted : ∀ r ∈ db, r.Accepted env
  apart : db.Pairwise PricingRecord.Apart

/-- A change of the store that succeeds. -/
inductive StoreStep (env : ExchangeEnv) (db : List PricingRecord) : List PricingRecord → Prop where
  | override (today provider model : Str) (spec : OverrideSpec) {db' : List PricingRecord}
      (h : setOverride env.toPricingEnv today db provider model spec = .ok db') : StoreStep env db db'
  | imported {json : Str} {x : ImportOutcome × List PricingRecord} (h : importRecords env db json = .ok x) :
      StoreStep env db x.2
  | removed (provider model : Str) : StoreStep env db (removeOverride env.toPricingEnv db provider model).2

section

variable {env : ExchangeEnv} {db db' : List PricingRecord} {rec : PricingRecord}

theorem dollarsToMicros_nonneg {dollars : Str} {m : Int}
    (h : dollarsToMicros env dollars = .ok m) : 0 ≤ m := by
  unfold dollarsToMicros at h
  split at h
  · cases h
  · cases h
  · split_ifs at h with hneg
    obtain rfl := Except.ok.inj h
    rw [round_eq]
    exact Int.floor_nonneg.2 (by linarith)

theorem parsePrice_nonneg {name : Str} {price : Option Str} {m : Option Int}
    (h : parsePrice env name price = .ok m) : ∀ x ∈ m, 0 ≤ x := by
  unfold parsePrice at h
  split at h
  · obtain rfl := Except.ok.inj h
    exact fun _ hx => nomatch hx
  · split at h
    · obtain rfl := Except.ok.inj h
      exact fun _ hx => Option.some.inj hx ▸ dollarsToMicros_nonneg ‹_›
    · cases h

variable (hnormal : ∀ s, env.normal (env.normal s) = env.normal s)
include hnormal

theorem accepted_of_overrideRecord {today provider model : Str} {spec : OverrideSpec}
    (h : overrideRecord env.toPricingEnv today db provider model spec = .ok rec) :
    rec.Accepted env.toPricingEnv ∧ rec.version = nextVersion db rec.provider rec.model := by
  simp only [overrideRecord, bind_eq_ok, validatePrice, require_eq_ok, requirePriced_eq_ok, Option.all_eq_true,
    decide_eq_true_eq] at h
  obtain ⟨_, hnamed, _, h₁, _, h₂, _, h₃, _, h₄, _, h₅, _, h₆, _, hpriced, _, hdated, h⟩ := h
  obtain rfl := Except.ok.inj h
  refine ⟨⟨⟨hnormal _, hnormal _⟩, hnamed, hpriced, PricingRecord.forall_amounts.2 ⟨h₁, h₂, h₃, h₄, h₅, h₆⟩, ?_, by simp⟩, rfl⟩
  split at hdated
  · exact .inl ‹_›
  · exact .inr (validateDate_eq_ok.1 hdated)

theorem accepted_of_importRecord {i : Nat} {r : InterchangeRecord}
    (h : importRecord env i r = .ok rec) : rec.Accepted env.toPricingEnv := by
  simp only [importRecord, bind_eq_ok, require_eq_ok, validateDate_eq_ok, requirePriced_eq_ok] at h
  obtain ⟨_, hnamed, _, -, _, hdated, _, -, _, h₁, _, h₂, _, h₃, _, h₄, _, h₅, _, h₆, _, hpriced, h⟩ := h
  obtain rfl := Except.ok.inj h
  exact ⟨⟨hnormal _, hnormal _⟩, of_decide_eq_true hnamed, hpriced, PricingRecord.forall_amounts.2 ⟨parsePrice_nonneg h₁,
    parsePrice_nonneg h₂, parsePrice_nonneg h₃, parsePrice_nonneg h₄, parsePrice_nonneg h₅, parsePrice_nonneg h₆⟩,
    .inr hdated, by simp⟩

omit hnormal

/-- A record with the next version replaces the row of its key, or comes behind the others. -/
theorem WellFormed.upsert (h : WellFormed env.toPricingEnv db)
    (hrec : rec.Accepted env.toPricingEnv) (hversion : rec.version = nextVersion db rec.provider rec.model) :
    WellFormed env.toPricingEnv (upsertRecord db rec).2 := by
  have hnewer : ∀ r ∈ db, r.provider = rec.provider → r.model = rec.model → r.version ≠ rec.version := by
    intro r hr hprovider hmodel
    have hlt := version_lt_nextVersion hr
    rw [hprovider, hmodel, ← hversion] at hlt
    exact hlt.ne
  refine ⟨fun r hr => (mem_upsertRecord hr).elim (h.accepted r) fun hsame => hsame ▸ hrec, ?_⟩
  unfold upsertRecord Keyed.upsert Keyed.modify
  dsimp only
  split
  · refine List.pairwise_map.2 (h.apart.imp_of_mem fun {a b} ha hb hab => ?_)
    by_cases hakey : a.key = rec.key
    · have hbkey : b.key ≠ rec.key := fun hbkey => hab.1 (hakey.trans hbkey.symm)
      rw [if_pos hakey, if_neg hbkey]
      exact ⟨hbkey.symm, fun hp hm => (hnewer b hb hp.symm hm.symm).symm⟩
    · by_cases hbkey : b.key = rec.key
      · rw [if_neg hakey, if_pos hbkey]
        exact ⟨hakey, hnewer a ha⟩
      · rw [if_neg hakey, if_neg hbkey]
        exact hab
  · rename_i hnone
    refine List.pairwise_append.2 ⟨h.apart, List.pairwise_singleton .., fun a ha b hb => ?_⟩
    obtain rfl := List.mem_singleton.1 hb
    exact ⟨fun hkey => hnone (List.any_eq_true.2 ⟨a, ha, decide_eq_true hkey⟩), hnewer a ha⟩

theorem WellFormed.foldl_insertRecord {records : List PricingRecord} (hrecords : ∀ r ∈ records, r.Accepted env.toPricingEnv)
    {s : ImportOutcome × List PricingRecord} (h : WellFormed env.toPricingEnv s.2) :
    WellFormed env.toPricingEnv (records.foldl insertRecord s).2 := by
  induction records generalizing s with
  | nil => exact h
  | cons r records ih =>
      obtain ⟨hr, hrest⟩ := List.forall_mem_cons.1 hrecords
      refine ih hrest (@WellFormed.upsert env s.2 { r with version := _ } h ?_ rfl)
      exact ⟨hr.normal, hr.named, hr.priced, hr.amounts, hr.dated, hr.origin⟩

include hnormal

/-- Each change keeps the rows as the checks of the writes want them. -/
theorem WellFormed.step (h : WellFormed env.toPricingEnv db) (hstep : StoreStep env db db') :
    WellFormed env.toPricingEnv db' := by
  cases hstep with
  | override _ _ _ _ hset =>
      obtain ⟨rec, hrec, hset⟩ := bind_eq_ok.1 hset
      obtain rfl := Except.ok.inj hset
      obtain ⟨haccepted, hversion⟩ := accepted_of_overrideRecord hnormal hrec
      exact h.upsert haccepted hversion
  | imported himport =>
      obtain ⟨_, -, himport⟩ := bind_eq_ok.1 himport
      obtain ⟨parsed, -, himport⟩ := bind_eq_ok.1 himport
      obtain ⟨_, -, himport⟩ := bind_eq_ok.1 himport
      obtain ⟨toInsert, hinsert, himport⟩ := bind_eq_ok.1 himport
      obtain rfl := Except.ok.inj himport
      refine h.foldl_insertRecord fun r hr => ?_
      obtain ⟨p, -, hp⟩ := exists_left_of_forall₂ (forall₂_of_mapM hinsert) hr
      exact accepted_of_importRecord hnormal hp
  | removed provider model =>
      exact ⟨fun r hr => h.accepted r (List.mem_of_mem_filter hr), h.apart.filter _⟩

/-- Whatever overrides, imports and removals a store has seen, its rows were accepted, and no two of them share a key
    or, for one model, a version. -/
theorem wellFormed_of_steps (hrun : Runs.Steps (StoreStep env) [] db) :
    WellFormed env.toPricingEnv db :=
  hrun.invariant (fun _ _ h => h.step hnormal) ⟨List.forall_mem_nil _, .nil⟩

end

def PricingRecord.unversioned (r : PricingRecord) : PricingRecord := { r with version := 0 }

theorem map_upsertRecord {db : List PricingRecord} {rec : PricingRecord} :
    (upsertRecord db rec).2.map PricingRecord.unversioned
      = Keyed.put PricingRecord.key rec.unversioned (db.map PricingRecord.unversioned) := by
  have hkey : ∀ r : PricingRecord, r.unversioned.key = r.key := fun _ => rfl
  have hany : (db.map PricingRecord.unversioned).any (·.key = rec.key) = db.any (·.key = rec.key) := by
    rw [List.any_map]
    rfl
  unfold upsertRecord Keyed.put Keyed.upsert Keyed.modify
  rw [hkey, hany]
  dsimp only
  split
  · rw [List.map_map, List.map_map]
    refine List.map_congr_left fun r _ => ?_
    by_cases hr : r.key = rec.key
    · simp [hkey, hr]
    · simp [hkey, hr]
  · rw [List.map_append]
    rfl

theorem map_foldl_insertRecord (records : List PricingRecord) (s : ImportOutcome × List PricingRecord) :
    (records.foldl insertRecord s).2.map PricingRecord.unversioned
      = (records.map PricingRecord.unversioned).foldl (fun db r => Keyed.put PricingRecord.key r db)
          (s.2.map PricingRecord.unversioned) := by
  induction records generalizing s with
  | nil => rfl
  | cons r records ih =>
      rw [List.foldl_cons, ih, List.map_cons, List.foldl_cons]
      congr 1
      exact map_upsertRecord

/-- The records of an export that stay, one for each provider, model and date. -/
def surviving (query : RowOrder) (db : List PricingRecord) : List PricingRecord :=
  Keyed.lasts PricingRecord.place (exported query db none)

theorem place_eq {a b : PricingRecord} :
    a.place = b.place ↔ a.provider = b.provider ∧ a.model = b.model ∧ a.effectiveFrom = b.effectiveFrom := by
  simp [PricingRecord.place]

theorem key_imported {env : ExchangeEnv} {a b : PricingRecord} :
    (a.imported env).key = (b.imported env).key ↔ a.place = b.place := by
  rw [place_eq]
  simp [PricingRecord.key, PricingRecord.imported]

section

variable {env : ExchangeEnv} {query : RowOrder} {db : List PricingRecord}

/-- An import into an empty store leaves the last records of each place, as imported ones. -/
theorem imported_perm (records : List PricingRecord) :
    (((records.map (·.imported env)).foldl insertRecord (⟨0, 0⟩, [])).2.map PricingRecord.unversioned).Perm
      ((Keyed.lasts PricingRecord.place records).map (·.imported env)) := by
  have hmap : (records.map (·.imported env)).map PricingRecord.unversioned = records.map (·.imported env) := by
    rw [List.map_map]
    rfl
  have hlasts := @Keyed.lasts_map _ _ _ _ _ _ PricingRecord.key PricingRecord.place (·.imported env)
    (fun a b => key_imported) records
  rw [map_foldl_insertRecord, hmap, ← hlasts]
  exact Keyed.perm_foldl_put

theorem exported_sorted {provider : Option Str} :
    (exported query db provider).Pairwise fun a b => a.place ≤ b.place :=
  haveI : Std.Total fun a b : PricingRecord => a.place ≤ b.place := ⟨fun a b => le_total a.place b.place⟩
  haveI : IsTrans PricingRecord fun a b => a.place ≤ b.place := ⟨fun _ _ _ => le_trans⟩
  List.pairwise_insertionSort _ _

theorem mem_exported {r : PricingRecord} : r ∈ exported query db none ↔ r ∈ db ∨ r ∈ bundled := by
  unfold exported loadDbRecords
  rw [(List.perm_insertionSort _ _).mem_iff, List.mem_append, (query.perm _).mem_iff]
  simp

/-- What the store gives for a provider after the import, the versions aside. -/
theorem load_imported {rows : List PricingRecord} {provider : Str}
    (hrows : (rows.map PricingRecord.unversioned).Perm ((surviving query db).map (·.imported env))) :
    (loadDbRecords query rows (some provider)).map PricingRecord.unversioned
      = ((surviving query db).filter (·.provider = provider)).map (·.imported env) := by
  have hsorted : (surviving query db).Pairwise fun a b => a.place ≤ b.place := exported_sorted.sublist Keyed.lasts_sublist
  have hnodup : ((surviving query db).map PricingRecord.place).Nodup := Keyed.nodup_keys_lasts
  have hperm : ((loadDbRecords query rows (some provider)).map PricingRecord.unversioned).Perm
      (((surviving query db).filter (·.provider = provider)).map (·.imported env)) := by
    have hfilter := hrows.filter fun r => decide (r.provider = provider)
    rw [List.filter_map, List.filter_map] at hfilter
    exact ((query.perm _).map _).trans hfilter
  refine @List.Perm.eq_of_pairwise _ (fun a b => a.place ≤ b.place) _ _ (fun a b ha hb hab hba => ?_) ?_ ?_ hperm
  · obtain ⟨a', ha', rfl⟩ := List.mem_map.1 (hperm.subset ha)
    obtain ⟨b', hb', rfl⟩ := List.mem_map.1 hb
    have hplace : a'.place = b'.place := le_antisymm hab hba
    rw [List.inj_on_of_nodup_map hnodup (List.mem_of_mem_filter ha') (List.mem_of_mem_filter hb') hplace]
  · exact List.pairwise_map.2 (query.sorted _)
  · exact List.pairwise_map.2 (hsorted.sublist List.filter_sublist)

end

/-! ## Prices by origin and by date -/

/-- What a record prices usage at. -/
structure Rates where
  unit : Unit
  amounts : List (Option Int)
  deriving DecidableEq, Repr

def PricingRecord.rates (r : PricingRecord) : Rates where
  unit := r.unit
  amounts := [r.inputPricePerMMicros, r.cachedInputPricePerMMicros, r.outputPricePerMMicros, r.batchInputPricePerMMicros,
    r.batchOutputPricePerMMicros, r.perRequestMicros]

/-- The record of the highest origin in force, or else the earliest one of the highest origin. -/
def byOrigin (date : Str) (records : List PricingRecord) : Option PricingRecord :=
  (inForce date records).or (earliest records)

/-- The latest record in force, or else the earliest one; of several, the last and the first. -/
def byDate (date : Str) (records : List PricingRecord) : Option PricingRecord :=
  ((records.filter fun r => decide (r.effectiveFrom ≤ date)).reverse.argmax (·.effectiveFrom)).or
    (records.argmin (·.effectiveFrom))

section

variable {env : ExchangeEnv} {date modelL : Str}

theorem chosen_rates {records : List PricingRecord} :
    (chosen date records).map PricingRecord.rates = (byOrigin date records).map PricingRecord.rates := by
  unfold chosen byOrigin
  cases inForce date records with
  | some r => rfl
  | none =>
      dsimp only [Option.or]
      rw [Option.map_map]
      rfl

theorem lookupAsOf_rates {normalize : Str → Str} {now provider model asOf : Str} {query : RowOrder} {db : List PricingRecord} :
    (lookupAsOf env.toPricingEnv normalize now query db provider model asOf).map (·.map PricingRecord.rates)
      = (datePrefix asOf).map fun date =>
          (byOrigin date (specific (env.lowercase model) (candidatesFor query db (normalize provider)))).map PricingRecord.rates := by
  unfold lookupAsOf chooseAsOf
  rw [Option.map_map]
  refine congrFun (congrArg _ (funext fun date => ?_)) _
  rw [Function.comp_apply, Option.map_map, ← chosen_rates]
  rfl

/-! ### Versions do not matter -/

theorem bestLen_map {g : PricingRecord → PricingRecord} (h : ∀ r, (g r).model = r.model) (records : List PricingRecord) :
    bestLen (records.map g) = bestLen records := by
  unfold bestLen
  rw [List.map_map]
  simp only [Function.comp_def, h]

theorem specific_map (g : PricingRecord → PricingRecord) (h : ∀ r, (g r).model = r.model) (records : List PricingRecord) :
    specific modelL (records.map g) = (specific modelL records).map g := by
  have hprices : ((·.prices modelL) ∘ g : PricingRecord → Bool) = (·.prices modelL) := by
    funext r
    rw [Function.comp_apply, PricingRecord.prices, PricingRecord.prices, h]
  unfold specific
  dsimp only
  rw [List.filter_map, hprices, bestLen_map h, List.filter_map]
  simp only [Function.comp_def, h]

theorem byOrigin_unversioned (records : List PricingRecord) :
    byOrigin date (records.map PricingRecord.unversioned) = (byOrigin date records).map PricingRecord.unversioned := by
  have hforce : inForce date (records.map PricingRecord.unversioned) = (inForce date records).map PricingRecord.unversioned := by
    unfold inForce
    rw [List.filter_map, ← List.map_reverse]
    exact Choice.argmax_map (fun _ _ => Iff.rfl) _
  have hearliest : earliest (records.map PricingRecord.unversioned) = (earliest records).map PricingRecord.unversioned :=
    Choice.argmin_map (fun _ _ => Iff.rfl) _
  unfold byOrigin
  rw [hforce, hearliest]
  cases inForce date records <;> rfl

/-! ### Imported records beside the bundled ones -/

/-- Behind imported records, bundled ones of their dates do not matter, and the origin no longer comes first. -/
theorem byOrigin_imported {records rest : List PricingRecord}
    (hrest : ∀ b ∈ rest, b.origin = .bundled ∧ ∃ r ∈ records, r.effectiveFrom = b.effectiveFrom) :
    byOrigin date (records.map (·.imported env) ++ rest) = (byDate date records).map (·.imported env) := by
  have hforce : inForce date (records.map (·.imported env) ++ rest)
      = ((records.filter fun r => decide (r.effectiveFrom ≤ date)).reverse.argmax (·.effectiveFrom)).map (·.imported env) := by
    unfold inForce
    rw [List.filter_append, List.reverse_append, Choice.argmax_append_of_lt]
    · rw [List.filter_map, ← List.map_reverse]
      have hlater : ∀ a b : PricingRecord, toLex ((a.imported env).origin.rank, (a.imported env).effectiveFrom)
          < toLex ((b.imported env).origin.rank, (b.imported env).effectiveFrom) ↔ a.effectiveFrom < b.effectiveFrom := by
        intro a b
        rw [Prod.Lex.toLex_lt_toLex]
        simp [PricingRecord.imported]
      convert @Choice.argmax_map _ _ _ _ _ _ (fun r : PricingRecord => toLex (r.origin.rank, r.effectiveFrom))
        (fun r : PricingRecord => r.effectiveFrom) (fun r : PricingRecord => r.imported env) hlater _
      rfl
    · intro b hb
      rw [List.mem_reverse, List.mem_filter] at hb
      obtain ⟨horigin, r, hr, hfrom⟩ := hrest b hb.1
      refine ⟨r.imported env, ?_, ?_⟩
      · rw [List.mem_reverse, List.mem_filter]
        refine ⟨List.mem_map_of_mem hr, ?_⟩
        have hdate : (r.imported env).effectiveFrom = b.effectiveFrom := hfrom
        rw [hdate]
        exact hb.2
      · rw [Prod.Lex.toLex_lt_toLex, horigin]
        exact .inl (by decide : 0 < 1)
  have hearliest : earliest (records.map (·.imported env) ++ rest)
      = (records.argmin (·.effectiveFrom)).map (·.imported env) := by
    unfold earliest
    rw [Choice.argmin_append_of_lt]
    · have hearlier : ∀ a b : PricingRecord, (a.imported env).earliness < (b.imported env).earliness ↔
          a.effectiveFrom < b.effectiveFrom := by
        intro a b
        rw [PricingRecord.earliness, PricingRecord.earliness, Prod.Lex.toLex_lt_toLex]
        simp [PricingRecord.imported]
      convert Choice.argmin_map hearlier _
    · intro b hb
      obtain ⟨horigin, r, hr, -⟩ := hrest b hb
      refine ⟨r.imported env, List.mem_map_of_mem hr, ?_⟩
      rw [PricingRecord.earliness, PricingRecord.earliness, Prod.Lex.toLex_lt_toLex, horigin]
      exact .inl (OrderDual.toDual_lt_toDual.2 (by decide : 0 < 1))
  unfold byOrigin byDate
  rw [hforce, hearliest]
  cases (records.filter fun r => decide (r.effectiveFrom ≤ date)).reverse.argmax (·.effectiveFrom) <;> rfl

theorem bestLen_le_iff {records : List PricingRecord} {n : Nat} :
    bestLen records ≤ n ↔ ∀ r ∈ records, byteLen r.model ≤ n := by
  constructor
  · exact fun h r hr => (le_bestLen hr).trans h
  · intro h
    by_cases hnil : records = []
    · subst hnil
      exact Nat.zero_le n
    · obtain ⟨r, hr, hlen⟩ := exists_bestLen hnil
      exact hlen ▸ h r hr

/-- Records of models that are there already do not change which are the most specific ones. -/
theorem specific_append {records rest : List PricingRecord}
    (hrest : ∀ b ∈ rest, ∃ r ∈ records, r.model = b.model) :
    specific modelL (records ++ rest) = specific modelL records ++ atLength modelL (best modelL records) rest := by
  have hbest : best modelL (records ++ rest) = best modelL records := by
    unfold best
    rw [List.filter_append]
    refine le_antisymm (bestLen_le_iff.2 fun r hr => ?_) (bestLen_le_iff.2 fun r hr => le_bestLen (List.mem_append_left _ hr))
    rcases List.mem_append.1 hr with hr | hr
    · exact le_bestLen hr
    · obtain ⟨hmem, hprices⟩ := List.mem_filter.1 hr
      obtain ⟨r', hr', hmodel⟩ := hrest r hmem
      rw [← hmodel]
      refine le_bestLen (List.mem_filter.2 ⟨hr', ?_⟩)
      unfold PricingRecord.prices at hprices ⊢
      rw [hmodel]
      exact hprices
  rw [specific_eq, specific_eq, hbest]
  exact List.filter_append ..

end

/-! ## The round trip -/

section

variable (env : ExchangeEnv) (normalize : Str → Str) (query : RowOrder) (db : List PricingRecord)

/-- What an export writes is imported into an empty store, which then gives every usage the prices of the old one. -/
def RoundTrip (now : Str) : Prop :=
  ∃ outcome rows, importRecords env [] (exportRecords env query db none) = .ok (outcome, rows) ∧
    ∀ provider model asOf,
      (lookupAsOf env.toPricingEnv normalize now query rows provider model asOf).map (·.map PricingRecord.rates)
        = (lookupAsOf env.toPricingEnv normalize now query db provider model asOf).map (·.map PricingRecord.rates)

/-- Whichever way the most specific records are taken, by origin or by date, the price is the same. -/
def OriginsAgree : Prop :=
  ∀ provider model asOf date, datePrefix asOf = some date →
    (byOrigin date (specific (env.lowercase model) (candidatesFor query db (normalize provider)))).map PricingRecord.rates
      = (byDate date (specific (env.lowercase model)
          ((surviving query db).filter (·.provider = normalize provider)))).map PricingRecord.rates

variable {env query db}

theorem origin_bundled : ∀ b ∈ bundled, b.origin = .bundled := by decide

/-- A bundled rate is exported, so that a record of its place stays. -/
theorem exists_surviving {b : PricingRecord} (hb : b ∈ bundled) : ∃ r ∈ surviving query db, r.place = b.place :=
  List.mem_map.1 (Keyed.mem_keys_lasts (List.mem_map_of_mem (mem_exported.2 (.inr hb))))

/-- After the import, the latest record has the price. -/
theorem lookup_imported {rows : List PricingRecord} {date modelL provider : Str}
    (hrows : (rows.map PricingRecord.unversioned).Perm ((surviving query db).map (·.imported env))) :
    (byOrigin date (specific modelL (candidatesFor query rows provider))).map PricingRecord.rates
      = (byDate date (specific modelL ((surviving query db).filter (·.provider = provider)))).map PricingRecord.rates := by
  have hmap : (candidatesFor query rows provider).map PricingRecord.unversioned
      = ((surviving query db).filter (·.provider = provider)).map (·.imported env)
        ++ (bundled.filter fun r => r.provider = provider).map PricingRecord.unversioned := by
    rw [candidatesFor, List.map_append, load_imported hrows]
  have hversions : (byOrigin date (specific modelL (candidatesFor query rows provider))).map PricingRecord.rates
      = (byOrigin date (specific modelL ((candidatesFor query rows provider).map PricingRecord.unversioned))).map
          PricingRecord.rates := by
    rw [specific_map PricingRecord.unversioned fun _ => rfl, byOrigin_unversioned, Option.map_map]
    rfl
  have htwin : ∀ b ∈ (bundled.filter fun r => r.provider = provider).map PricingRecord.unversioned,
      b.origin = .bundled ∧ ∃ r ∈ (surviving query db).filter (·.provider = provider),
        r.model = b.model ∧ r.effectiveFrom = b.effectiveFrom := by
    intro b hb
    obtain ⟨b', hb', rfl⟩ := List.mem_map.1 hb
    obtain ⟨hmem, hprovider⟩ := List.mem_filter.1 hb'
    obtain ⟨r, hr, hplace⟩ := @exists_surviving query db b' hmem
    obtain ⟨hsame, hmodel, hfrom⟩ := place_eq.1 hplace
    exact ⟨origin_bundled b' hmem, r, List.mem_filter.2 ⟨hr, by rw [hsame]; exact hprovider⟩, hmodel, hfrom⟩
  rw [hversions, hmap, specific_append, specific_map (·.imported env) fun _ => rfl, byOrigin_imported, Option.map_map]
  · rfl
  · intro b hb
    obtain ⟨hmem, hmost⟩ := List.mem_filter.1 hb
    obtain ⟨horigin, r, hr, hmodel, hfrom⟩ := htwin b hmem
    have hspecific : r.imported env ∈ specific modelL (((surviving query db).filter (·.provider = provider)).map (·.imported env)) := by
      rw [specific_eq]
      refine List.mem_filter.2 ⟨List.mem_map_of_mem hr, ?_⟩
      have hsame : (r.imported env).model = b.model := hmodel
      unfold PricingRecord.prices at hmost ⊢
      rw [hsame]
      exact hmost
    rw [specific_map (·.imported env) fun _ => rfl] at hspecific
    obtain ⟨r', hr', hsame⟩ := List.mem_map.1 hspecific
    exact ⟨horigin, r', hr', (congrArg PricingRecord.effectiveFrom hsame).trans hfrom⟩
  · intro b hb
    obtain ⟨-, r, hr, hmodel, -⟩ := htwin b hb
    exact ⟨r.imported env, List.mem_map_of_mem hr, hmodel⟩

/-- An export is imported exactly when it fits and each of its records can be. -/
theorem importRecords_exported (hnormal : ∀ r ∈ db ++ bundled, r.Normal env.toPricingEnv)
    (hreads : ∀ r ∈ db ++ bundled, ∀ m ∈ r.amounts, env.ReadsBack m)
    (hjson : env.fromJson (exportRecords env query db none) = .ok ((exported query db none).map PricingRecord.toInterchange))
    {x : ImportOutcome × List PricingRecord} :
    importRecords env [] (exportRecords env query db none) = .ok x ↔
      (byteLen (exportRecords env query db none) ≤ maxImportBytes ∧ ∀ r ∈ db ++ bundled, Importable env r) ∧
        x = ((exported query db none).map (·.imported env)).foldl insertRecord (⟨0, 0⟩, []) := by
  have hmem : ∀ r, r ∈ exported query db none ↔ r ∈ db ++ bundled := fun r => by rw [mem_exported, List.mem_append]
  have hnil : (!((exported query db none).map PricingRecord.toInterchange).isEmpty) = true := by
    rw [Bool.not_eq_true', List.isEmpty_eq_false_iff, ne_eq, List.map_eq_nil_iff]
    exact List.ne_nil_of_mem (mem_exported.2 (.inr List.mem_cons_self))
  have hrecords := fun xs => @mapM_importRecord env (exported query db none) (fun r hr => hnormal r ((hmem r).1 hr))
    (fun r hr => hreads r ((hmem r).1 hr)) 0 xs
  simp only [hmem] at hrecords
  unfold importRecords
  rw [hjson]
  constructor
  · intro h
    obtain ⟨_, hsize, h⟩ := bind_eq_ok.1 h
    obtain ⟨parsed, hparsed, h⟩ := bind_eq_ok.1 h
    obtain rfl := Except.ok.inj hparsed
    obtain ⟨_, -, h⟩ := bind_eq_ok.1 h
    obtain ⟨xs, hxs, h⟩ := bind_eq_ok.1 h
    obtain ⟨hall, rfl⟩ := (hrecords xs).1 hxs
    exact ⟨⟨of_decide_eq_true (require_eq_ok.1 hsize), hall⟩, (Except.ok.inj h).symm⟩
  · rintro ⟨⟨hsize, hall⟩, rfl⟩
    exact bind_eq_ok.2 ⟨⟨⟩, require_eq_ok.2 (decide_eq_true hsize), bind_eq_ok.2 ⟨_, rfl, bind_eq_ok.2 ⟨⟨⟩, require_eq_ok.2 hnil,
      bind_eq_ok.2 ⟨_, (hrecords _).2 ⟨hall, rfl⟩, rfl⟩⟩⟩⟩

/-- The prices after the import are those of the old store exactly when origins do not matter. -/
theorem rates_imported_iff {now : Str} :
    (∀ provider model asOf,
      (lookupAsOf env.toPricingEnv normalize now query
          (((exported query db none).map (·.imported env)).foldl insertRecord (⟨0, 0⟩, [])).2 provider model asOf).map
            (·.map PricingRecord.rates)
        = (lookupAsOf env.toPricingEnv normalize now query db provider model asOf).map (·.map PricingRecord.rates)) ↔
      OriginsAgree env normalize query db := by
  refine forall_congr' fun provider => forall_congr' fun model => forall_congr' fun asOf => ?_
  rw [lookupAsOf_rates, lookupAsOf_rates]
  cases datePrefix asOf with
  | none => simp
  | some date =>
      simp only [Option.map_some, Option.some.injEq, forall_eq']
      rw [lookup_imported (imported_perm (exported query db none))]
      exact eq_comm

/-- For every content of the store: an export comes back with the prices it had exactly when the file fits, its records
    can be imported, and the most specific records give one price by origin and by date. -/
theorem round_trip_iff {now : Str} (hnormal : ∀ r ∈ db ++ bundled, r.Normal env.toPricingEnv)
    (hreads : ∀ r ∈ db ++ bundled, ∀ m ∈ r.amounts, env.ReadsBack m)
    (hjson : env.fromJson (exportRecords env query db none) = .ok ((exported query db none).map PricingRecord.toInterchange)) :
    RoundTrip env normalize query db now ↔
      byteLen (exportRecords env query db none) ≤ maxImportBytes ∧ (∀ r ∈ db ++ bundled, Importable env r) ∧
        OriginsAgree env normalize query db := by
  rw [← @rates_imported_iff env normalize query db now]
  constructor
  · rintro ⟨outcome, rows, himport, hrates⟩
    obtain ⟨⟨hsize, hall⟩, hrows⟩ := (importRecords_exported hnormal hreads hjson).1 himport
    rw [← hrows]
    exact ⟨hsize, hall, hrates⟩
  · rintro ⟨hsize, hall, hrates⟩
    exact ⟨_, _, (importRecords_exported hnormal hreads hjson).2 ⟨⟨hsize, hall⟩, rfl⟩, hrates⟩

end

/-! ## An override of a bundled model -/

def plainOrder : RowOrder where
  order rows := rows.insertionSort fun a b => a.place ≤ b.place
  perm rows := List.perm_insertionSort _ rows
  sorted rows :=
    haveI : Std.Total fun a b : PricingRecord => a.place ≤ b.place := ⟨fun a b => le_total a.place b.place⟩
    haveI : IsTrans PricingRecord fun a b => a.place ≤ b.place := ⟨fun _ _ _ => le_trans⟩
    List.pairwise_insertionSort _ rows

/-- A decimal number with a point. -/
def readDecimal (s : Str) : Option (Option ℚ) :=
  match splitOnce '.' s with
  | some (whole, places) =>
      if (whole ++ places).all Char.isDigit then some (some (readNumber (whole ++ places) / 10 ^ places.length)) else none
  | none => none

def quoted (s : Str) : Str := '"' :: s ++ ['"']

def prettyField (name : String) (value : Str) : Str := "    ".toList ++ quoted name.toList ++ ": ".toList ++ value

def prettyPrice (price : Option Str) : Str := (price.map quoted).getD "null".toList

def Unit.text : Unit → Str
  | .tokens => "tokens".toList
  | .requests => "requests".toList
  | .credits => "credits".toList

def Origin.text : Origin → Str
  | .bundled => "bundled".toList
  | .imported => "imported".toList
  | .override => "override".toList

def prettyRecord (r : InterchangeRecord) : Str :=
  "  \x7b\n".toList ++ List.intercalate ",\n".toList [
    prettyField "provider" (quoted r.provider),
    prettyField "model" (quoted r.model),
    prettyField "unit" (quoted r.unit.text),
    prettyField "input_per_m" (prettyPrice r.inputPerM),
    prettyField "cached_input_per_m" (prettyPrice r.cachedInputPerM),
    prettyField "output_per_m" (prettyPrice r.outputPerM),
    prettyField "batch_input_per_m" (prettyPrice r.batchInputPerM),
    prettyField "batch_output_per_m" (prettyPrice r.batchOutputPerM),
    prettyField "per_request" (prettyPrice r.perRequest),
    prettyField "currency" (quoted r.currency),
    prettyField "source" (quoted r.source),
    prettyField "effective_from" (quoted r.effectiveFrom),
    prettyField "last_verified" (quoted r.lastVerified),
    prettyField "note" (quoted r.note),
    prettyField "origin" (prettyPrice (r.origin.map Origin.text))] ++ "\n  \x7d".toList

/-- The JSON of records without a character to escape. -/
def prettyJson (records : List InterchangeRecord) : Str :=
  "[\n".toList ++ List.intercalate ",\n".toList (records.map prettyRecord) ++ "\n]".toList

/-- The exchange of one file. -/
def plainExchange (db : List PricingRecord) : ExchangeEnv where
  toPricingEnv := midnightPricing
  uppercase s := s.map Char.toUpper
  parseFloat := readDecimal
  toJson := prettyJson
  fromJson json :=
    let file := (exported plainOrder db none).map PricingRecord.toInterchange
    if json = prettyJson file then .ok file else .error "expected value at line 1 column 1".toList

theorem fromJson_plainExchange (db : List PricingRecord) :
    (plainExchange db).fromJson (exportRecords (plainExchange db) plainOrder db none)
      = .ok ((exported plainOrder db none).map PricingRecord.toInterchange) := if_pos rfl

def overrideOf (model : String) : List PricingRecord := [{
  priceFrom model "1970-01-01" .override 1000000 with
  source := "manual override".toList
  lastVerified := "2026-07-20".toList }]

theorem wellFormed_of_steps_override : WellFormed { midnightPricing with lowercase := id } (overrideOf "gpt-4o") :=
  @wellFormed_of_steps { plainExchange [] with lowercase := id } _
    (fun s => trim_of_noWs (noLeadingWs_trim s) (noTrailingWs_trim s))
    (.single (.override "2026-07-20".toList "openai".toList "gpt-4o".toList
      ⟨none, some 1000000, none, none, none, none, none, none, []⟩ (by decide +kernel)))

theorem round_trip_iff_local :
    RoundTrip (plainExchange (overrideOf "local-model")) asciiLower plainOrder (overrideOf "local-model")
        "2026-07-20T00:00:00Z".toList ↔
      byteLen (exportRecords (plainExchange (overrideOf "local-model")) plainOrder (overrideOf "local-model") none) ≤ maxImportBytes ∧
        (∀ r ∈ overrideOf "local-model" ++ bundled, Importable (plainExchange (overrideOf "local-model")) r) ∧
          OriginsAgree (plainExchange (overrideOf "local-model")) asciiLower plainOrder (overrideOf "local-model") :=
  round_trip_iff asciiLower (by decide +kernel) (by decide +kernel) (fromJson_plainExchange _)

/-- An override with its default date, of a bundled model: the bundled rate is exported behind it and dated later,
    and is what the usage of August is priced at after the import. -/
theorem override_lost :
    setOverride midnightPricing "2026-07-20".toList [] "openai".toList "gpt-4o".toList
        ⟨none, some 1000000, none, none, none, none, none, none, []⟩ = .ok (overrideOf "gpt-4o") ∧
      ¬RoundTrip (plainExchange (overrideOf "gpt-4o")) asciiLower plainOrder (overrideOf "gpt-4o")
        "2026-07-20T00:00:00Z".toList := by
  refine ⟨by decide +kernel, ?_⟩
  rintro ⟨outcome, rows, himport, hrates⟩
  obtain ⟨-, hrows⟩ := (importRecords_exported (by decide +kernel) (by decide +kernel) (fromJson_plainExchange _)).1 himport
  obtain rfl : rows = _ := congrArg Prod.snd hrows
  have hagree := (rates_imported_iff asciiLower).1 hrates "openai".toList "gpt-4o".toList "2026-08-01".toList
    "2026-08-01".toList (by decide)
  revert hagree
  decide +kernel

end Tethra.Pricing
