import Tethra.Core.Error
import Mathlib.Data.List.Lex
import Mathlib.Data.Set.Lattice

set_option autoImplicit false

/-! # What a usage sync replaces (`core/src/vault.rs`, `core/src/usage.rs`)

A sync deletes the stored rows of its provider and kind that start, as text, in the range of the windows it
returned, and records its own. A stored window that starts before that range and reaches into it is kept
beside them (`sliding_window_counted_twice`), and the connector sync has no upper bound. -/

namespace Tethra.SyncReplace

/-- What the syncs read of a row of `usage_snapshots`. -/
structure Snapshot where
  id : Str
  provider : Str
  source : Str
  windowStart : Str
  windowEnd : Str
  deriving DecidableEq, Repr

/-- A fetched row, and the id it is recorded under. -/
structure Bucket where
  id : Str
  windowStart : Str
  windowEnd : Str
  deriving DecidableEq, Repr

def Bucket.snapshot (provider source : Str) (b : Bucket) : Snapshot :=
  ⟨b.id, provider, source, b.windowStart, b.windowEnd⟩

def manual : Str := "manual".toList

/-- A row stays if both bounds parse and the range is not inverted. -/
def validWindow (parse : Str → Option Int) (s : Snapshot) : Bool :=
  match parse s.windowStart, parse s.windowEnd with
  | some start, some stop => start ≤ stop
  | _, _ => false

def retainValidWindows (parse : Str → Option Int) (rows : List Snapshot) : List Snapshot :=
  rows.filter (validWindow parse)

/-- The rows of one kind that a sync records, and the stored rows that they replace. -/
structure Part where
  provider : Str
  ofKind : Str → Bool
  /-- The deletion ends at the latest returned end. -/
  bounded : Bool
  rows : List Snapshot

def Part.covers (p : Part) (s : Snapshot) : Bool := s.provider = p.provider && p.ofKind s.source

/-- The `DELETE` statement: texts are compared. -/
def Part.deletes (p : Part) (s : Snapshot) : Bool :=
  match (p.rows.map (·.windowStart)).min?, (p.rows.map (·.windowEnd)).max? with
  | some minStart, some maxEnd =>
      p.covers s && decide (minStart ≤ s.windowStart) &&
        (!p.bounded || decide (s.windowStart < maxEnd))
  | _, _ => false

/-- The constants of an engine that fetches usage and costs. -/
structure DetailEngine where
  provider : Str
  usageSource : Str
  costsSource : Str

def openai : DetailEngine :=
  ⟨"openai".toList, "openai_usage_api".toList, "openai_costs_api".toList⟩

def anthropic : DetailEngine :=
  ⟨"anthropic".toList, "anthropic_usage_api".toList, "anthropic_costs_api".toList⟩

section

variable (parse : Str → Option Int)

/-- What `openai_sync` and `anthropic_sync` replace. -/
def DetailEngine.parts (e : DetailEngine) (usage costs : List Bucket) : List Part :=
  [{ provider := e.provider
     ofKind := fun source => source ≠ manual && source ≠ e.costsSource
     bounded := true
     rows := retainValidWindows parse (usage.map (·.snapshot e.provider e.usageSource)) },
   { provider := e.provider
     ofKind := fun source => source = e.costsSource
     bounded := true
     rows := retainValidWindows parse (costs.map (·.snapshot e.provider e.costsSource)) }]

/-- What `legacy_connector_sync` replaces. -/
def legacyParts (provider source : Str) (fetched : List Bucket) : List Part :=
  [{ provider := provider
     ofKind := fun source => source ≠ manual
     bounded := false
     rows := retainValidWindows parse (fetched.map (·.snapshot provider source)) }]

/-- A usage sync and what the provider returns. Costs that cannot be fetched are no rows. -/
inductive Sync where
  | failed
  | openai (usage costs : List Bucket)
  | anthropic (usage costs : List Bucket)
  | legacy (provider source : Str) (fetched : List Bucket)

def Sync.parts : Sync → List Part
  | .failed => []
  | .openai usage costs => SyncReplace.openai.parts parse usage costs
  | .anthropic usage costs => SyncReplace.anthropic.parts parse usage costs
  | .legacy provider source fetched => legacyParts parse provider source fetched

/-- The transaction: the deletions, then the rows. -/
def usageSync (db : List Snapshot) (s : Sync) : List Snapshot :=
  (s.parts parse).foldl (fun db p => db.filter fun r => !p.deletes r) db ++
    (s.parts parse).flatMap (·.rows)

/-! ## What a sync should replace -/

/-- The instants of a window; a window without length is the instant of its start. -/
def Snapshot.instants (s : Snapshot) : Set Int :=
  {i | ∃ start stop, parse s.windowStart = some start ∧ parse s.windowEnd = some stop ∧
    (i = start ∨ start ≤ i ∧ i < stop)}

/-- The instants from the first to the last of the returned windows. -/
def Part.range (p : Part) : Set Int :=
  {i | ∃ a ∈ p.rows, ∃ b ∈ p.rows, ∃ j ∈ a.instants parse, ∃ k ∈ b.instants parse, j ≤ i ∧ i ≤ k}

/-- After a sync, a row of its provider and kind is its own or shares no instant with its windows; and
    what is gone was such a row, and reached into the range of the windows. -/
structure Replaced (db : List Snapshot) (s : Sync) : Prop where
  disjoint : ∀ p ∈ s.parts parse, ∀ r ∈ usageSync parse db s, p.covers r →
    r ∈ p.rows ∨ ∀ w ∈ p.rows, Disjoint (r.instants parse) (w.instants parse)
  outside : ∀ r ∈ db, r ∉ usageSync parse db s →
    r.source ≠ manual ∧ ∃ p ∈ s.parts parse, p.covers r ∧
      (r.instants parse ∩ p.range parse).Nonempty

/-! ## When it does -/

/-- The instant of a text. -/
def time (text : Str) : Int := (parse text).getD 0

/-- Texts that parse, and that are ordered as the instants they denote. -/
def SameOrder (texts : List Str) : Prop :=
  (∀ a ∈ texts, parse a ≠ none) ∧ ∀ a ∈ texts, ∀ b ∈ texts, a < b ↔ time parse a < time parse b

/-- A stored row that starts before all returned windows ends before them; one that starts behind them does
    not start with one of them, unless the deletion has no upper bound, where it has to. -/
structure Fits (p : Part) (r : Snapshot) : Prop where
  before : (∀ w ∈ p.rows, time parse r.windowStart < time parse w.windowStart) →
    ∀ w ∈ p.rows, time parse r.windowEnd ≤ time parse w.windowStart
  behind : p.rows ≠ [] → (∀ w ∈ p.rows, time parse w.windowEnd ≤ time parse r.windowStart) →
    if p.bounded then ∀ w ∈ p.rows, time parse w.windowStart ≠ time parse r.windowStart
    else ∃ w ∈ p.rows, time parse w.windowStart = time parse r.windowStart

instance (parse : Str → Option Int) (p : Part) (r : Snapshot) : Decidable (Fits parse p r) :=
  decidable_of_iff
    (((∀ w ∈ p.rows, time parse r.windowStart < time parse w.windowStart) →
        ∀ w ∈ p.rows, time parse r.windowEnd ≤ time parse w.windowStart) ∧
      (p.rows ≠ [] → (∀ w ∈ p.rows, time parse w.windowEnd ≤ time parse r.windowStart) →
        if p.bounded then ∀ w ∈ p.rows, time parse w.windowStart ≠ time parse r.windowStart
        else ∃ w ∈ p.rows, time parse w.windowStart = time parse r.windowStart))
    ⟨fun h => ⟨h.1, h.2⟩, fun h => ⟨h.before, h.behind⟩⟩

end

/-! ## Rows and parts -/

theorem mem_usageSync {parse : Str → Option Int} {db : List Snapshot} {s : Sync} {r : Snapshot} :
    r ∈ usageSync parse db s ↔
      (r ∈ db ∧ ∀ p ∈ s.parts parse, p.deletes r = false) ∨ ∃ p ∈ s.parts parse, r ∈ p.rows := by
  have hfold : ∀ (parts : List Part) (rows : List Snapshot),
      r ∈ parts.foldl (fun db p => db.filter fun r => !p.deletes r) rows ↔
        r ∈ rows ∧ ∀ p ∈ parts, p.deletes r = false := by
    intro parts
    induction parts with
    | nil => simp
    | cons p parts ih =>
        intro rows
        simp [ih, and_assoc]
  simp [usageSync, hfold]

section

variable {parse : Str → Option Int}

/-- The parts of a sync are of different kinds. -/
theorem eq_of_covers {s : Sync} {p q : Part} {r : Snapshot} (hp : p ∈ s.parts parse)
    (hq : q ∈ s.parts parse) (hpr : p.covers r) (hqr : q.covers r) : p = q := by
  cases s with
  | failed => cases hp
  | openai | anthropic =>
      simp only [Sync.parts, DetailEngine.parts, List.mem_cons, List.not_mem_nil, or_false] at hp hq
      rcases hp with rfl | rfl <;> rcases hq with rfl | rfl <;> simp_all [Part.covers]
  | legacy => rw [List.mem_singleton.1 hp, List.mem_singleton.1 hq]

theorem source_of_mem {rows : List Bucket} {provider source : Str} {r : Snapshot}
    (h : r ∈ retainValidWindows parse (rows.map (·.snapshot provider source))) :
    r.source = source ∧ r.provider = provider := by
  obtain ⟨b, _, rfl⟩ := List.mem_map.1 (List.mem_of_mem_filter h)
  exact ⟨rfl, rfl⟩

/-- A recorded row of a kind is recorded by the part of the kind. -/
theorem mem_rows_of_covers {s : Sync} {p q : Part} {r : Snapshot} (hp : p ∈ s.parts parse)
    (hq : q ∈ s.parts parse) (hr : r ∈ q.rows) (hpr : p.covers r) : r ∈ p.rows := by
  have hqr : s.parts parse = [q] ∨ q.covers r := by
    cases s with
    | failed => cases hq
    | openai | anthropic =>
        right
        simp only [Sync.parts, DetailEngine.parts, List.mem_cons, List.not_mem_nil, or_false] at hq
        rcases hq with rfl | rfl <;> obtain ⟨hsource, hprovider⟩ := source_of_mem hr <;>
          simp only [Part.covers, hsource, hprovider, decide_true, Bool.true_and] <;> decide
    | legacy =>
        left
        rw [List.mem_singleton.1 hq]
        rfl
  rcases hqr with hsingle | hqr
  · rw [hsingle] at hp
    rwa [List.mem_singleton.1 hp]
  · rwa [eq_of_covers hp hq hpr hqr]

theorem valid_of_mem_rows {s : Sync} {p : Part} {w : Snapshot} (hp : p ∈ s.parts parse)
    (hw : w ∈ p.rows) : validWindow parse w = true := by
  have : ∀ rows : List Snapshot, p.rows = retainValidWindows parse rows → validWindow parse w = true :=
    fun rows h => (List.mem_filter.1 (h ▸ hw)).2
  cases s with
  | failed => cases hp
  | openai | anthropic =>
      simp only [Sync.parts, DetailEngine.parts, List.mem_cons, List.not_mem_nil, or_false] at hp
      rcases hp with rfl | rfl <;> exact this _ rfl
  | legacy =>
      obtain rfl := List.mem_singleton.1 hp
      exact this _ rfl

theorem start_le_stop {w : Snapshot} (h : validWindow parse w = true) :
    time parse w.windowStart ≤ time parse w.windowEnd := by
  unfold validWindow at h
  split at h
  case h_1 hstart hstop => simpa [time, hstart, hstop] using h
  case h_2 => cases h

/-! ## Texts and instants -/

/-- The texts of the windows of rows. -/
def texts (rows : List Snapshot) : List Str := rows.flatMap fun r => [r.windowStart, r.windowEnd]

theorem windowStart_mem_texts {rows : List Snapshot} {r : Snapshot} (h : r ∈ rows) :
    r.windowStart ∈ texts rows := List.mem_flatMap.2 ⟨r, h, by simp⟩

theorem windowEnd_mem_texts {rows : List Snapshot} {r : Snapshot} (h : r ∈ rows) :
    r.windowEnd ∈ texts rows := List.mem_flatMap.2 ⟨r, h, by simp⟩

theorem SameOrder.subset {t u : List Str} (h : SameOrder parse t) (hsub : u ⊆ t) :
    SameOrder parse u :=
  ⟨fun a ha => h.1 a (hsub ha), fun a ha b hb => h.2 a (hsub ha) b (hsub hb)⟩

theorem SameOrder.le_iff {t : List Str} (h : SameOrder parse t) {a b : Str} (ha : a ∈ t) (hb : b ∈ t) :
    a ≤ b ↔ time parse a ≤ time parse b := by
  rw [← not_lt, h.2 b hb a ha, not_lt]

theorem SameOrder.parse_eq {t : List Str} (h : SameOrder parse t) {a : Str} (ha : a ∈ t) :
    parse a = some (time parse a) := by
  obtain ⟨i, hi⟩ := Option.ne_none_iff_exists'.1 (h.1 a ha)
  simp [time, hi]

/-- The instants of a row whose window parses. -/
theorem mem_instants {t : List Str} (h : SameOrder parse t) {r : Snapshot} (hstart : r.windowStart ∈ t)
    (hstop : r.windowEnd ∈ t) {i : Int} :
    i ∈ r.instants parse ↔ i = time parse r.windowStart ∨
      time parse r.windowStart ≤ i ∧ i < time parse r.windowEnd := by
  simp only [Snapshot.instants, h.parse_eq hstart, h.parse_eq hstop, Set.mem_ofPred_eq,
    Option.some.injEq]
  constructor
  · rintro ⟨start, stop, rfl, rfl, h⟩
    exact h
  · intro h
    exact ⟨_, _, rfl, rfl, h⟩

theorem min?_le_iff {texts : List Str} {lo a : Str} (h : texts.min? = some lo) :
    lo ≤ a ↔ ∃ b ∈ texts, b ≤ a := by
  obtain ⟨hmem, hle⟩ := List.min?_eq_some_iff.1 h
  exact ⟨fun h => ⟨lo, hmem, h⟩, fun ⟨b, hb, h⟩ => le_trans (hle b hb) h⟩

theorem lt_max?_iff {texts : List Str} {hi a : Str} (h : texts.max? = some hi) :
    a < hi ↔ ∃ b ∈ texts, a < b := by
  obtain ⟨hmem, hle⟩ := List.max?_eq_some_iff.1 h
  exact ⟨fun h => ⟨hi, hmem, h⟩, fun ⟨b, hb, h⟩ => lt_of_lt_of_le h (hle b hb)⟩

theorem deletes_eq_true {p : Part} {r : Snapshot} :
    p.deletes r = true ↔ p.covers r = true ∧ (∃ w ∈ p.rows, w.windowStart ≤ r.windowStart) ∧
      (p.bounded = true → ∃ w ∈ p.rows, r.windowStart < w.windowEnd) := by
  unfold Part.deletes
  split
  case h_1 lo hi hlo hhi =>
      simp only [Bool.and_eq_true, decide_eq_true_eq, Bool.or_eq_true, Bool.not_eq_true',
        min?_le_iff hlo, lt_max?_iff hhi, List.mem_map, exists_exists_and_eq_and, and_assoc]
      cases p.bounded <;> simp
  case h_2 hnone =>
      have hrows : p.rows = [] := by
        by_contra hne
        obtain ⟨lo, hlo⟩ := Option.ne_none_iff_exists'.1
          (mt List.min?_eq_none_iff.1 (mt List.map_eq_nil_iff.1 hne : p.rows.map (·.windowStart) ≠ []))
        obtain ⟨hi, hhi⟩ := Option.ne_none_iff_exists'.1
          (mt List.max?_eq_none_iff.1 (mt List.map_eq_nil_iff.1 hne : p.rows.map (·.windowEnd) ≠ []))
        exact hnone lo hi hlo hhi
      simp [hrows]

/-! ## One row -/

section

variable {p : Part} {r : Snapshot}
  (horder : SameOrder parse (texts p.rows ++ [r.windowStart, r.windowEnd]))
  (hvalid : ∀ w ∈ p.rows, validWindow parse w = true)

include horder

theorem mem_instants_row {i : Int} :
    i ∈ r.instants parse ↔ i = time parse r.windowStart ∨
      time parse r.windowStart ≤ i ∧ i < time parse r.windowEnd :=
  mem_instants horder (by simp) (by simp)

theorem mem_instants_part {w : Snapshot} (hw : w ∈ p.rows) {i : Int} :
    i ∈ w.instants parse ↔ i = time parse w.windowStart ∨
      time parse w.windowStart ≤ i ∧ i < time parse w.windowEnd :=
  mem_instants horder (List.mem_append_left _ (windowStart_mem_texts hw))
    (List.mem_append_left _ (windowEnd_mem_texts hw))

/-- The deletion, in instants. -/
theorem deletes_iff_time :
    p.deletes r = true ↔ p.covers r = true ∧
      (∃ w ∈ p.rows, time parse w.windowStart ≤ time parse r.windowStart) ∧
      (p.bounded = true → ∃ w ∈ p.rows, time parse r.windowStart < time parse w.windowEnd) := by
  have hle : ∀ w ∈ p.rows, w.windowStart ≤ r.windowStart ↔
      time parse w.windowStart ≤ time parse r.windowStart := fun w hw =>
    horder.le_iff (List.mem_append_left _ (windowStart_mem_texts hw)) (by simp)
  have hlt : ∀ w ∈ p.rows, r.windowStart < w.windowEnd ↔
      time parse r.windowStart < time parse w.windowEnd := fun w hw =>
    horder.2 _ (by simp) _ (List.mem_append_left _ (windowEnd_mem_texts hw))
  rw [deletes_eq_true]
  refine and_congr_right fun _ => and_congr ?_ (imp_congr_right fun _ => ?_)
  · exact exists_congr fun w => and_congr_right (hle w)
  · exact exists_congr fun w => and_congr_right (hlt w)

include hvalid

theorem start_lt_of_mem_instants {w : Snapshot} (hw : w ∈ p.rows) {i : Int}
    (hi : i ∈ w.instants parse) :
    time parse w.windowStart ≤ i ∧ (i = time parse w.windowStart ∨ i < time parse w.windowEnd) ∧
      time parse w.windowStart ≤ time parse w.windowEnd := by
  have hle := start_le_stop (hvalid w hw)
  rcases (mem_instants_part horder hw).1 hi with rfl | ⟨hstart, hstop⟩
  · exact ⟨le_rfl, .inl rfl, hle⟩
  · exact ⟨hstart, .inr hstop, hle⟩

/-- A row that is kept shares no instant with the returned windows exactly when it fits. -/
theorem disjoint_iff_fits (hcovers : p.covers r = true) (hkept : p.deletes r = false) :
    (∀ w ∈ p.rows, Disjoint (r.instants parse) (w.instants parse)) ↔ Fits parse p r := by
  have hmem := @mem_instants_row parse p r horder
  rw [← Bool.not_eq_true, deletes_iff_time horder, and_iff_right hcovers, not_and_or] at hkept
  constructor
  · intro hdisjoint
    have hshare : ∀ w ∈ p.rows, ∀ i, i ∈ r.instants parse → i ∈ w.instants parse → False :=
      fun w hw i hi hi' => Set.disjoint_left.1 (hdisjoint w hw) hi hi'
    constructor
    · intro hbefore w hw
      by_contra hlate
      refine hshare w hw (time parse w.windowStart) (hmem.2 (.inr ⟨(hbefore w hw).le, ?_⟩))
        ((mem_instants_part horder hw).2 (.inl rfl))
      omega
    · intro hne hbehind
      rcases hkept with hstart | hbound
      · -- Behind all windows, it does not start before them.
        obtain ⟨w, hw⟩ := List.exists_mem_of_ne_nil _ hne
        exact absurd ⟨w, hw, le_trans (start_le_stop (hvalid w hw)) (hbehind w hw)⟩ hstart
      · rw [Classical.not_imp] at hbound
        rw [if_pos hbound.1]
        intro w hw heq
        exact hshare w hw (time parse r.windowStart) (hmem.2 (.inl rfl))
          ((mem_instants_part horder hw).2 (.inl heq.symm))
  · intro hfits w hw
    rw [Set.disjoint_left]
    intro i hi hi'
    obtain ⟨hlow, hhigh, hle⟩ := start_lt_of_mem_instants horder hvalid hw hi'
    rcases hkept with hstart | hbound
    · have hbefore : ∀ w ∈ p.rows, time parse r.windowStart < time parse w.windowStart :=
        fun w hw => not_le.1 fun h => hstart ⟨w, hw, h⟩
      have hend := hfits.before hbefore w hw
      have := hbefore w hw
      rcases hmem.1 hi with rfl | ⟨_, h⟩ <;> omega
    · rw [Classical.not_imp] at hbound
      have hbehind : ∀ w ∈ p.rows, time parse w.windowEnd ≤ time parse r.windowStart :=
        fun w hw => not_lt.1 fun h => hbound.2 ⟨w, hw, h⟩
      have hne := hfits.behind (List.ne_nil_of_mem hw) hbehind
      rw [if_pos hbound.1] at hne
      have := hne w hw
      have := hbehind w hw
      rcases hmem.1 hi with rfl | ⟨h, _⟩ <;> omega

/-- A row that is deleted reaches into the range of the returned windows exactly when it fits. -/
theorem range_iff_fits (hdeleted : p.deletes r = true) :
    (r.instants parse ∩ p.range parse).Nonempty ↔ Fits parse p r := by
  have hmem := @mem_instants_row parse p r horder
  obtain ⟨_, ⟨a, ha, hstart⟩, hbound⟩ := (deletes_iff_time horder).1 hdeleted
  have hbefore : (∀ w ∈ p.rows, time parse r.windowStart < time parse w.windowStart) →
      ∀ w ∈ p.rows, time parse r.windowEnd ≤ time parse w.windowStart :=
    fun h => absurd (h a ha) (not_lt.2 hstart)
  have hreach : ∀ b ∈ p.rows, ∀ k, k ∈ b.instants parse → time parse r.windowStart ≤ k →
      (r.instants parse ∩ p.range parse).Nonempty := fun b hb k hk hle =>
    ⟨_, hmem.2 (.inl rfl), a, ha, b, hb, _, (mem_instants_part horder ha).2 (.inl rfl), k, hk,
      hstart, hle⟩
  constructor
  · rintro ⟨i, hi, b, hb, c, hc, j, hj, k, hk, hji, hik⟩
    refine ⟨hbefore, fun _ hbehind => ?_⟩
    have hri : time parse r.windowStart ≤ i := by
      rcases hmem.1 hi with rfl | ⟨h, _⟩
      · exact le_rfl
      · exact h
    obtain ⟨_, hhigh, hle⟩ := start_lt_of_mem_instants horder hvalid hc hk
    have := hbehind c hc
    split
    case isTrue hbounded =>
        obtain ⟨w, hw, hlt⟩ := hbound hbounded
        exact absurd hlt (not_lt.2 (hbehind w hw))
    case isFalse => exact ⟨c, hc, by omega⟩
  · intro hfits
    by_cases hbehind : ∀ w ∈ p.rows, time parse w.windowEnd ≤ time parse r.windowStart
    · have hfit := hfits.behind (List.ne_nil_of_mem ha) hbehind
      split at hfit
      case isTrue hbounded =>
          obtain ⟨w, hw, hlt⟩ := hbound hbounded
          exact absurd hlt (not_lt.2 (hbehind w hw))
      case isFalse =>
          obtain ⟨w, hw, heq⟩ := hfit
          exact hreach w hw _ ((mem_instants_part horder hw).2 (.inl rfl)) heq.ge
    · push Not at hbehind
      obtain ⟨w, hw, hlt⟩ := hbehind
      have hle := start_le_stop (hvalid w hw)
      rcases lt_or_ge (time parse w.windowStart) (time parse w.windowEnd) with h | h
      · refine hreach w hw (time parse w.windowEnd - 1) ?_ (by omega)
        exact (mem_instants_part horder hw).2 (.inr ⟨by omega, by omega⟩)
      · exact hreach w hw _ ((mem_instants_part horder hw).2 (.inl rfl)) (by omega)

end

/-! ## One sync, and a sequence of them -/

/-- The rows that a sync records. -/
def Sync.rows (parse : Str → Option Int) (s : Sync) : List Snapshot :=
  (s.parts parse).flatMap (·.rows)

theorem not_manual_of_covers {s : Sync} {p : Part} {r : Snapshot} (hp : p ∈ s.parts parse)
    (hcovers : p.covers r = true) : r.source ≠ manual := by
  rintro hmanual
  cases s with
  | failed => cases hp
  | openai | anthropic =>
      simp only [Sync.parts, DetailEngine.parts, List.mem_cons, List.not_mem_nil, or_false] at hp
      rcases hp with rfl | rfl <;> simp [Part.covers, hmanual] at hcovers <;>
        exact absurd hcovers.2 (by decide)
  | legacy =>
      obtain rfl := List.mem_singleton.1 hp
      simp [Part.covers, hmanual] at hcovers

theorem covers_of_deletes {p : Part} {r : Snapshot} (h : p.deletes r = true) :
    p.covers r = true := (deletes_eq_true.1 h).1

/-- A sync replaces what it should exactly when every stored row of its provider and kind fits. -/
theorem replaced_iff {s : Sync} {db : List Snapshot}
    (horder : SameOrder parse (texts (db ++ s.rows parse)))
    (hfresh : ∀ r ∈ db, r ∉ s.rows parse) :
    Replaced parse db s ↔
      ∀ p ∈ s.parts parse, ∀ r ∈ db, p.covers r = true → Fits parse p r := by
  have hrow : ∀ p ∈ s.parts parse, ∀ r ∈ db,
      SameOrder parse (texts p.rows ++ [r.windowStart, r.windowEnd]) := by
    intro p hp r hr
    refine horder.subset fun t ht => ?_
    rw [texts, List.flatMap_append, List.mem_append]
    rcases List.mem_append.1 ht with ht | ht
    · obtain ⟨w, hw, ht⟩ := List.mem_flatMap.1 ht
      exact .inr (List.mem_flatMap.2 ⟨w, List.mem_flatMap.2 ⟨p, hp, hw⟩, ht⟩)
    · exact .inl (List.mem_flatMap.2 ⟨r, hr, ht⟩)
  have hvalid : ∀ p ∈ s.parts parse, ∀ w ∈ p.rows, validWindow parse w = true :=
    fun p hp w => valid_of_mem_rows hp
  have hstored : ∀ p ∈ s.parts parse, ∀ r ∈ db, r ∉ p.rows :=
    fun p hp r hr hmem => hfresh r hr (List.mem_flatMap.2 ⟨p, hp, hmem⟩)
  have hkept : ∀ p ∈ s.parts parse, ∀ r ∈ db, p.covers r = true →
      (r ∈ usageSync parse db s ↔ p.deletes r = false) := by
    intro p hp r hr hcovers
    rw [mem_usageSync]
    constructor
    · rintro (⟨_, h⟩ | ⟨q, hq, h⟩)
      · exact h p hp
      · exact absurd h (hstored q hq r hr)
    · intro h
      refine .inl ⟨hr, fun q hq => ?_⟩
      by_contra hdel
      rw [Bool.not_eq_false] at hdel
      rw [eq_of_covers hq hp (covers_of_deletes hdel) hcovers] at hdel
      simp [h] at hdel
  constructor
  · intro h p hp r hr hcovers
    cases hdel : p.deletes r with
    | false =>
        rw [← disjoint_iff_fits (hrow p hp r hr) (hvalid p hp) hcovers hdel]
        exact (h.disjoint p hp r ((hkept p hp r hr hcovers).2 hdel) hcovers).resolve_left
          (hstored p hp r hr)
    | true =>
        rw [← range_iff_fits (hrow p hp r hr) (hvalid p hp) hdel]
        have hgone : r ∉ usageSync parse db s := by
          rw [hkept p hp r hr hcovers, hdel]
          exact Bool.noConfusion
        obtain ⟨_, q, hq, hqr, hrange⟩ := h.outside r hr hgone
        rwa [eq_of_covers hq hp hqr hcovers] at hrange
  · intro h
    constructor
    · intro p hp r hr hcovers
      rcases mem_usageSync.1 hr with ⟨hmem, hdel⟩ | ⟨q, hq, hmem⟩
      · exact .inr ((disjoint_iff_fits (hrow p hp r hmem) (hvalid p hp) hcovers (hdel p hp)).2
          (h p hp r hmem hcovers))
      · exact .inl (mem_rows_of_covers hp hq hmem hcovers)
    · intro r hr hgone
      rw [mem_usageSync, not_or, not_and] at hgone
      have hdel := hgone.1 hr
      push Not at hdel
      obtain ⟨p, hp, hdel⟩ := hdel
      rw [Bool.ne_false_iff] at hdel
      have hcovers := covers_of_deletes hdel
      exact ⟨not_manual_of_covers hp hcovers, p, hp, hcovers,
        (range_iff_fits (hrow p hp r hr) (hvalid p hp) hdel).2 (h p hp r hr hcovers)⟩

/-- The rows after a sequence of syncs were stored before it, or were recorded by one of them. -/
theorem mem_run {syncs : List Sync} {db : List Snapshot} {r : Snapshot}
    (h : r ∈ syncs.foldl (usageSync parse) db) : r ∈ db ++ syncs.flatMap (·.rows parse) := by
  induction syncs generalizing db with
  | nil => simpa using h
  | cons s syncs ih =>
      rw [List.flatMap_cons, ← List.append_assoc, List.mem_append]
      refine (List.mem_append.1 (ih h)).imp (fun h => ?_) id
      rcases mem_usageSync.1 h with ⟨hmem, _⟩ | ⟨p, hp, hmem⟩
      · exact List.mem_append_left _ hmem
      · exact List.mem_append_right _ (List.mem_flatMap.2 ⟨p, hp, hmem⟩)

/-- For every sequence of syncs from any stored rows, with windows that compare as text as they do in time:
    after each sync no stored row counts what its windows count again, and nothing outside their range is
    gone, if and only if at each sync every stored row of its provider and kind fits. -/
theorem syncs_replace_iff (db : List Snapshot) (syncs : List Sync)
    (horder : SameOrder parse (texts (db ++ syncs.flatMap (·.rows parse))))
    (hids : ((db ++ syncs.flatMap (·.rows parse)).map (·.id)).Nodup) :
    (∀ earlier s later, syncs = earlier ++ s :: later →
        Replaced parse (earlier.foldl (usageSync parse) db) s) ↔
      ∀ earlier s later, syncs = earlier ++ s :: later →
        ∀ p ∈ s.parts parse, ∀ r ∈ earlier.foldl (usageSync parse) db,
          p.covers r = true → Fits parse p r := by
  refine forall_congr' fun earlier => forall_congr' fun s => forall₂_congr fun later hsyncs => ?_
  have hall : db ++ syncs.flatMap (·.rows parse) =
      (db ++ earlier.flatMap (·.rows parse)) ++
        (s.rows parse ++ later.flatMap (·.rows parse)) := by
    simp [hsyncs]
  apply replaced_iff
  · refine horder.subset fun t ht => ?_
    obtain ⟨r, hr, ht⟩ := List.mem_flatMap.1 ht
    refine List.mem_flatMap.2 ⟨r, ?_, ht⟩
    rw [hall]
    refine (List.mem_append.1 hr).elim (fun h => List.mem_append_left _ (mem_run h)) fun h => ?_
    exact List.mem_append_right _ (List.mem_append_left _ h)
  · intro r hr hmem
    rw [hall, List.map_append, List.nodup_append] at hids
    exact hids.2.2 r.id (List.mem_map_of_mem (mem_run hr)) r.id
      (List.mem_map_of_mem (List.mem_append_left _ hmem)) rfl

/-- Half days of July 2026, counted from the first. -/
def julyText : List (Str × Int) :=
  [("2026-07-01T00:00:00Z".toList, 0), ("2026-07-01T12:00:00Z".toList, 1),
   ("2026-07-02T00:00:00Z".toList, 2), ("2026-07-02T12:00:00Z".toList, 3),
   ("2026-07-03T00:00:00Z".toList, 4)]

def parseJuly (text : Str) : Option Int := List.lookup text julyText

def julyBucket (id start stop : String) : Bucket := ⟨id.toList, start.toList, stop.toList⟩

/-- The first of July. -/
def stored : Snapshot :=
  (julyBucket "a" "2026-07-01T00:00:00Z" "2026-07-02T00:00:00Z").snapshot openai.provider
    openai.usageSource

theorem syncs_replace_iff_july :
    Replaced parseJuly [stored]
      (.openai [julyBucket "b" "2026-07-01T00:00:00Z" "2026-07-03T00:00:00Z"] []) := by
  have hfits : ∀ p ∈ (Sync.openai
      [julyBucket "b" "2026-07-01T00:00:00Z" "2026-07-03T00:00:00Z"] []).parts parseJuly,
        Fits parseJuly p stored := by
    decide
  refine (syncs_replace_iff [stored] [_] (by unfold SameOrder; decide)
    (by decide)).2 ?_ [] _ [] rfl
  intro earlier s later hsyncs p hp r hr _
  cases earlier with
  | nil =>
      obtain ⟨rfl, _⟩ := List.cons.inj hsyncs
      rw [List.mem_singleton.1 hr]
      exact hfits p hp
  | cons a earlier => simp at hsyncs

/-- A day of usage is stored, and a sync returns the day from noon to noon: the afternoon is counted
    twice. -/
theorem sliding_window_counted_twice :
    ¬Replaced parseJuly (usageSync parseJuly []
        (.openai [julyBucket "a" "2026-07-01T00:00:00Z" "2026-07-02T00:00:00Z"] []))
      (.openai [julyBucket "b" "2026-07-01T12:00:00Z" "2026-07-02T12:00:00Z"] []) := by
  intro h
  have hstored : stored ∈ usageSync parseJuly (usageSync parseJuly []
        (.openai [julyBucket "a" "2026-07-01T00:00:00Z" "2026-07-02T00:00:00Z"] []))
      (.openai [julyBucket "b" "2026-07-01T12:00:00Z" "2026-07-02T12:00:00Z"] []) := by
    decide
  let returned : Snapshot :=
    (julyBucket "b" "2026-07-01T12:00:00Z" "2026-07-02T12:00:00Z").snapshot openai.provider
      openai.usageSource
  rcases h.disjoint _ List.mem_cons_self stored hstored (by decide) with hmem | hdisjoint
  · exact absurd hmem (by decide)
  · have hnoon : (1 : Int) ∈ stored.instants parseJuly :=
      ⟨0, 2, by decide, by decide, .inr (by decide)⟩
    have hnoon' : (1 : Int) ∈ returned.instants parseJuly :=
      ⟨1, 3, by decide, by decide, .inl rfl⟩
    exact Set.disjoint_left.1 (hdisjoint returned (by decide)) hnoon hnoon'

end

end Tethra.SyncReplace
