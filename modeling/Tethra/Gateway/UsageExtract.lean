import Tethra.Gateway.Head
import Tethra.Lib.Join
import Tethra.Lib.Json

set_option autoImplicit false

/-! # Token counts of responses (`gateway/src/usage.rs`)

The counts of a provider's usage objects are accumulated by maxima. Each field is the greatest that an event
carries, so neither order nor repetition matters, and what was set stays set (`usage_join`). -/

namespace Tethra.Gateway

open Join

inductive Shape where
  | openAi
  | anthropic
  deriving DecidableEq, Repr

/-- `MAX_MODEL_LEN`. -/
def maxModelLen : Nat := 128

def isModelChar (c : Char) : Bool :=
  Text.isAsciiAlphanumeric c || c = '.' || c = '_' || c = ':' || c = '@' || c = '/' || c = '-'

def sanitizeModel (raw : Str) : Option Str :=
  if raw = [] || maxModelLen < (utf8 raw).length then none
  else if raw.all isModelChar then some raw else none

/-- `Acc`. -/
structure Acc where
  model : Option Str
  modelRejected : Bool
  input : Option Nat
  output : Option Nat
  total : Option Nat
  cacheRead : Option Nat
  cacheCreation : Option Nat
  sawUsage : Bool
  malformed : Bool
  deriving DecidableEq, Repr

def Acc.default : Acc := ⟨none, false, none, none, none, none, none, false, false⟩

def Acc.setModel (acc : Acc) (raw : Str) : Acc :=
  if acc.model.isSome then acc
  else
    match sanitizeModel raw with
    | some model => { acc with model := some model }
    | none => { acc with modelRejected := true }

def setMax (field v : Option Nat) : Option Nat :=
  match v with
  | some v => some (field.elim v fun cur => max cur v)
  | none => field

def countOf (u : Json) (name : String) : Option Nat := (u.get name).bind Json.asU64

def cachedTokens (u : Json) (details : String) : Option Nat :=
  (u.get details).bind fun d => countOf d "cached_tokens"

def Acc.absorbModel (acc : Acc) (model : Option Json) : Acc :=
  match model.bind Json.asStr with
  | some model => acc.setModel model
  | none => acc

/-- The usage object that `absorb_json` takes. -/
def usageOf (shape : Shape) (v : Json) : Option Json :=
  match shape with
  | .openAi => (v.get "usage").filter (!·.isNull)
  | .anthropic =>
      (((v.get "usage").filter (!·.isNull)).or ((v.get "message").bind (·.get "usage"))).filter (!·.isNull)

def Acc.absorbUsage (shape : Shape) (acc : Acc) (u : Json) : Acc :=
  match shape with
  | .openAi =>
      { acc with
        sawUsage := true
        input := setMax (setMax acc.input (countOf u "prompt_tokens")) (countOf u "input_tokens")
        output := setMax (setMax acc.output (countOf u "completion_tokens")) (countOf u "output_tokens")
        total := setMax acc.total (countOf u "total_tokens")
        cacheRead := setMax acc.cacheRead
          ((cachedTokens u "prompt_tokens_details").or (cachedTokens u "input_tokens_details")) }
  | .anthropic =>
      { acc with
        sawUsage := true
        input := setMax acc.input (countOf u "input_tokens")
        output := setMax acc.output (countOf u "output_tokens")
        cacheRead := setMax acc.cacheRead (countOf u "cache_read_input_tokens")
        cacheCreation := setMax acc.cacheCreation (countOf u "cache_creation_input_tokens") }

/-- `absorb_json`. -/
def Acc.absorbJson (shape : Shape) (acc : Acc) (v : Json) : Acc :=
  let acc := acc.absorbModel (v.get "model")
  let acc :=
    match shape with
    | .openAi => acc
    | .anthropic => acc.absorbModel ((v.get "message").bind (·.get "model"))
  match usageOf shape v with
  | some u => acc.absorbUsage shape u
  | none => acc

def doneMark : Bytes := utf8 "[DONE]".toList

/-- `on_event`. -/
def Acc.onEvent (parse : Bytes → Option Json) (shape : Shape) (acc : Acc) (data : Bytes) : Acc :=
  if data = doneMark then acc
  else
    match parse data with
    | some v => acc.absorbJson shape v
    | none => { acc with malformed := true }

def absorbAll (parse : Bytes → Option Json) (shape : Shape) (events : List Bytes) : Acc :=
  events.foldl (Acc.onEvent parse shape) .default

/-- Saturating addition of `u64`. -/
def saturatingAdd (a b : Nat) : Nat := min (a + b) (2 ^ 64 - 1)

/-- The counts of `observation`: input, output, total and cached. -/
def Acc.observed (shape : Shape) (acc : Acc) : Option Nat × Option Nat × Option Nat × Option Nat :=
  let input :=
    match shape with
    | .anthropic =>
        let read := acc.cacheRead.getD 0
        let creation := acc.cacheCreation.getD 0
        if acc.input.isNone && read = 0 && creation = 0 then none
        else some (saturatingAdd (saturatingAdd (acc.input.getD 0) read) creation)
    | .openAi => acc.input
  let sum :=
    match input, acc.output with
    | some i, some o => some (saturatingAdd i o)
    | _, _ => none
  (input, acc.output, acc.total.or sum, acc.cacheRead)

/-! ## The join -/

inductive TokenField where
  | input
  | output
  | total
  | cacheRead
  | cacheCreation
  deriving DecidableEq, Repr

def Acc.field (acc : Acc) : TokenField → Option Nat
  | .input => acc.input
  | .output => acc.output
  | .total => acc.total
  | .cacheRead => acc.cacheRead
  | .cacheCreation => acc.cacheCreation

/-- What a usage object carries for a field. -/
def carriedBy (shape : Shape) (u : Json) (field : TokenField) : Option Nat :=
  match shape, field with
  | .openAi, .input => Option.merge max (countOf u "prompt_tokens") (countOf u "input_tokens")
  | .openAi, .output => Option.merge max (countOf u "completion_tokens") (countOf u "output_tokens")
  | .openAi, .total => countOf u "total_tokens"
  | .openAi, .cacheRead =>
      (cachedTokens u "prompt_tokens_details").or (cachedTokens u "input_tokens_details")
  | .openAi, .cacheCreation => none
  | .anthropic, .input => countOf u "input_tokens"
  | .anthropic, .output => countOf u "output_tokens"
  | .anthropic, .total => none
  | .anthropic, .cacheRead => countOf u "cache_read_input_tokens"
  | .anthropic, .cacheCreation => countOf u "cache_creation_input_tokens"

/-- What an event carries for a field. -/
def carried (parse : Bytes → Option Json) (shape : Shape) (field : TokenField) (data : Bytes) : Option Nat :=
  if data = doneMark then none
  else ((parse data).bind (usageOf shape)).bind fun u => carriedBy shape u field

theorem setMax_eq_merge (field v : Option Nat) : setMax field v = Option.merge max field v := by
  cases field <;> cases v <;> rfl

section

variable {parse : Bytes → Option Json} {shape : Shape} {acc : Acc} {field : TokenField}

@[simp] theorem field_absorbModel (model : Option Json) :
    (acc.absorbModel model).field field = acc.field field := by
  unfold Acc.absorbModel Acc.setModel
  split
  · split_ifs
    · rfl
    · split <;> cases field <;> rfl
  · rfl

theorem field_absorbUsage (u : Json) :
    (acc.absorbUsage shape u).field field = Option.merge max (acc.field field) (carriedBy shape u field) := by
  cases shape with
  | openAi =>
      cases field with
      | input =>
          simp only [Acc.absorbUsage, Acc.field, carriedBy, setMax_eq_merge]
          exact (inferInstance : Std.Associative (Option.merge max)).assoc _ _ _
      | output =>
          simp only [Acc.absorbUsage, Acc.field, carriedBy, setMax_eq_merge]
          exact (inferInstance : Std.Associative (Option.merge max)).assoc _ _ _
      | total => exact setMax_eq_merge _ _
      | cacheRead => exact setMax_eq_merge _ _
      | cacheCreation => exact Option.merge_none_right.symm
  | anthropic =>
      cases field with
      | input => exact setMax_eq_merge _ _
      | output => exact setMax_eq_merge _ _
      | total => exact Option.merge_none_right.symm
      | cacheRead => exact setMax_eq_merge _ _
      | cacheCreation => exact setMax_eq_merge _ _

theorem field_absorbJson (v : Json) :
    (acc.absorbJson shape v).field field
      = Option.merge max (acc.field field) ((usageOf shape v).bind fun u => carriedBy shape u field) := by
  unfold Acc.absorbJson
  cases usageOf shape v with
  | none => cases shape <;> simp
  | some u => cases shape <;> simp [field_absorbUsage]

/-- Each event joins what it carries. -/
theorem field_onEvent (data : Bytes) :
    (acc.onEvent parse shape data).field field
      = Option.merge max (acc.field field) (carried parse shape field data) := by
  unfold Acc.onEvent carried
  split_ifs with h
  · simp
  · cases parse data with
    | none => cases field <;> simp [Acc.field]
    | some v => simp [field_absorbJson]

theorem field_foldl (events : List Bytes) :
    (events.foldl (Acc.onEvent parse shape) acc).field field
      = events.foldl (fun o data => Option.merge max o (carried parse shape field data)) (acc.field field) := by
  induction events generalizing acc with
  | nil => rfl
  | cons data events ih => rw [List.foldl_cons, List.foldl_cons, ih, field_onEvent]

/-- Each field is the greatest that an event carries. -/
theorem isMaxOf_absorbAll (events : List Bytes) :
    IsMaxOf (fun n => ∃ data ∈ events, carried parse shape field data = some n)
      ((absorbAll parse shape events).field field) := by
  have hnone : Acc.default.field field = none := by cases field <;> rfl
  rw [absorbAll, field_foldl, hnone]
  exact (isMaxOf_foldl (carried parse shape field) events isMaxOf_none).congr fun n => by simp

theorem observed_congr {acc' : Acc} (h : ∀ field, acc.field field = acc'.field field) :
    acc.observed shape = acc'.observed shape := by
  have hinput := h .input
  have houtput := h .output
  have htotal := h .total
  have hread := h .cacheRead
  have hcreation := h .cacheCreation
  simp only [Acc.field] at hinput houtput htotal hread hcreation
  simp only [Acc.observed, hinput, houtput, htotal, hread, hcreation]

end

/-- Each field is the greatest that an event carries; in whatever order and however often the events come,
    the fields and the counts observed are the same; and a field that is set stays set. -/
theorem usage_join (parse : Bytes → Option Json) (shape : Shape) (events : List Bytes) :
    (∀ field, IsMaxOf (fun n => ∃ data ∈ events, carried parse shape field data = some n)
      ((absorbAll parse shape events).field field)) ∧
    (∀ events', (∀ data, data ∈ events' ↔ data ∈ events) →
      (∀ field, (absorbAll parse shape events').field field = (absorbAll parse shape events).field field) ∧
        (absorbAll parse shape events').observed shape = (absorbAll parse shape events).observed shape) ∧
    ∀ later field n, (absorbAll parse shape events).field field = some n →
      ∃ m, (absorbAll parse shape (events ++ later)).field field = some m ∧ n ≤ m := by
  refine ⟨fun field => isMaxOf_absorbAll events, ?_, ?_⟩
  · intro events' hsame
    have hfield : ∀ field, (absorbAll parse shape events').field field
        = (absorbAll parse shape events).field field := fun field =>
      ((isMaxOf_absorbAll events').congr fun n => by simp only [hsame]).unique (isMaxOf_absorbAll events)
    exact ⟨hfield, observed_congr hfield⟩
  · intro later field n hn
    obtain ⟨data, hdata, hcarried⟩ := (isMaxOf_absorbAll events).mem n hn
    exact (isMaxOf_absorbAll (events ++ later)).le n ⟨data, List.mem_append_left _ hdata, hcarried⟩

end Tethra.Gateway
