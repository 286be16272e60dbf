import Tethra.Core.Error

set_option autoImplicit false

/-! # The window of a default usage sync (`core/src/vault.rs`)

A sync without a range starts two days before the end that the last successful one has stored, at most
thirty days back. It fetches usage and then costs; when only the costs fail, the usage checkpoint advances
and the one of the costs stays. The next window is computed from the usage checkpoint alone, so the costs
that failed are asked for again only within its two days (`costs_covered_iff`). Instants are nanoseconds. -/

namespace Tethra.UsageSync

def second : Int := 1000000000

def day : Int := 86400 * second

def defaultDays : Int := 30

def overlapDays : Int := 2

/-- `clock::to_rfc3339` and `clock::parse_rfc3339`. -/
structure Clock where
  toRfc3339 : Int → Str
  parseRfc3339 : Str → Option Int

/-- The providers whose costs are fetched. -/
inductive Engine where
  | openai
  | anthropic
  deriving DecidableEq, Repr

/-- An instant as it is sent: OpenAI is asked in whole seconds. -/
def Engine.requested : Engine → Int → Int
  | .openai, t => t / second * second
  | .anthropic, t => t

/-- The rows of `provider_sync_state` for the provider: the start and the end of a window. -/
structure SyncState where
  usage : Option (Str × Str)
  costs : Option (Str × Str)
  deriving DecidableEq, Repr

structure Window where
  start : Int
  stop : Int
  deriving DecidableEq, Repr

/-- What the provider answers; usage that fails fails the sync. -/
inductive Fetched where
  | nothing
  | usage
  | usageAndCosts
  deriving DecidableEq, Repr

/-- A default sync: when it runs, and what the provider answers. -/
structure Attempt where
  now : Int
  fetched : Fetched
  deriving DecidableEq, Repr

/-- The start of the window, from the end of the stored one. -/
def windowStart (stored : Option Int) (now : Int) : Int :=
  match stored with
  | some cp =>
      if cp - overlapDays * day < now - defaultDays * day ∨ cp - overlapDays * day > now then
        now - defaultDays * day
      else cp - overlapDays * day
  | none => now - defaultDays * day

section

variable (clock : Clock)

/-- The end of the stored window of usage. -/
def SyncState.usageEnd (s : SyncState) : Option Int :=
  s.usage.bind fun window => clock.parseRfc3339 window.2

/-- The start of the window; a stored end that does not parse is an error. -/
def defaultFrom (s : SyncState) (now : Int) : Option Int :=
  match s.usage with
  | some (_, windowEnd) => (clock.parseRfc3339 windowEnd).map fun cp => windowStart (some cp) now
  | none => some (windowStart none now)

/-- The window that is asked for: `usage_sync_range` refuses an empty one. -/
def asked (s : SyncState) (now : Int) : Option Window :=
  (defaultFrom clock s now).bind fun start => if start ≥ now then none else some ⟨start, now⟩

/-- The checkpoints that are stored with the fetched rows. -/
def SyncState.advance (s : SyncState) (w : Window) : Fetched → SyncState
  | .nothing => s
  | .usage => { s with usage := some (clock.toRfc3339 w.start, clock.toRfc3339 w.stop) }
  | .usageAndCosts =>
      { usage := some (clock.toRfc3339 w.start, clock.toRfc3339 w.stop)
        costs := some (clock.toRfc3339 w.start, clock.toRfc3339 w.stop) }

/-- The state after `usage_sync_default`. -/
def usageSyncDefault (s : SyncState) (a : Attempt) : SyncState :=
  match asked clock s a.now with
  | some w => s.advance clock w a.fetched
  | none => s

/-- The window whose costs the sync has fetched. -/
def costWindow (s : SyncState) (a : Attempt) : Option Window :=
  if a.fetched = .usageAndCosts then asked clock s a.now else none

/-- The windows whose costs a sequence of syncs has fetched. -/
def costWindows : SyncState → List Attempt → List Window
  | _, [] => []
  | s, a :: rest => (costWindow clock s a).toList ++ costWindows (usageSyncDefault clock s a) rest

/-- The start of the first window of a sequence. -/
def firstStart (s : SyncState) (attempts : List Attempt) : Option Int :=
  attempts.head?.bind fun a => defaultFrom clock s a.now

end

/-- Every instant from the start of the first window to the end of the last sync is in a window whose costs
    were fetched. -/
def CostsCovered (engine : Engine) (clock : Clock) (s : SyncState) (earlier : List Attempt)
    (last : Attempt) : Prop :=
  ∀ start, firstStart clock s (earlier ++ [last]) = some start →
    ∀ i, engine.requested start ≤ i → i < engine.requested last.now →
      ∃ w ∈ costWindows clock s (earlier ++ [last]),
        engine.requested w.start ≤ i ∧ i < engine.requested w.stop

/-! ## When a failed fetch is repeated -/

/-- The stored end of usage is at most two days behind `reached`, and `reached` at most thirty days behind
    the sync. (A stored end more than two days ahead of the clock is not used.) -/
def InReach (engine : Engine) (clock : Clock) (reached : Int) (s : SyncState) (now : Int) : Prop :=
  engine.requested now ≤ reached + defaultDays * day ∧
    ∀ cp ∈ s.usageEnd clock, cp ≤ now + overlapDays * day →
      engine.requested cp ≤ reached + overlapDays * day

/-- Each sync that fetches costs has `reached` in reach, which is the end of the last one that did. -/
def RetriedInTime (engine : Engine) (clock : Clock) : Int → SyncState → List Attempt → Prop
  | _, _, [] => True
  | reached, s, a :: rest =>
      if costWindow clock s a = none then
        RetriedInTime engine clock reached (usageSyncDefault clock s a) rest
      else
        InReach engine clock reached s a.now ∧
          RetriedInTime engine clock (engine.requested a.now) (usageSyncDefault clock s a) rest

instance (engine : Engine) (clock : Clock) (reached : Int) (s : SyncState) (now : Int) :
    Decidable (InReach engine clock reached s now) :=
  inferInstanceAs (Decidable (_ ∧ _))

instance decidableRetriedInTime (engine : Engine) (clock : Clock) :
    ∀ (reached : Int) (s : SyncState) (attempts : List Attempt),
      Decidable (RetriedInTime engine clock reached s attempts)
  | _, _, [] => inferInstanceAs (Decidable True)
  | reached, s, a :: rest =>
      have := decidableRetriedInTime engine clock reached (usageSyncDefault clock s a) rest
      have := decidableRetriedInTime engine clock (engine.requested a.now)
        (usageSyncDefault clock s a) rest
      inferInstanceAs (Decidable (ite _ _ _))

/-! ## Windows -/

theorem Engine.requested_mono (engine : Engine) {t u : Int} (h : t ≤ u) :
    engine.requested t ≤ engine.requested u := by
  cases engine with
  | openai =>
      have := Int.ediv_le_ediv (a := t) (b := u) (c := second) (by decide) h
      simp only [requested, second] at *
      omega
  | anthropic => exact h

/-- A day is a number of whole seconds. -/
theorem Engine.requested_sub (engine : Engine) (t n : Int) :
    engine.requested (t - n * day) = engine.requested t - n * day := by
  cases engine with
  | openai =>
      simp only [requested, day, second]
      omega
  | anthropic => rfl

theorem windowStart_le_iff (engine : Engine) (stored : Option Int) (now reached : Int) :
    engine.requested (windowStart stored now) ≤ reached ↔
      engine.requested now ≤ reached + defaultDays * day ∧
        ∀ cp ∈ stored, cp ≤ now + overlapDays * day →
          engine.requested cp ≤ reached + overlapDays * day := by
  cases stored with
  | none => simp [windowStart, engine.requested_sub]
  | some cp =>
      simp only [windowStart, Option.mem_some_iff, forall_eq']
      split
      case isTrue hout =>
          rw [engine.requested_sub]
          have hmono : cp - overlapDays * day < now - defaultDays * day →
              engine.requested cp - overlapDays * day ≤
                engine.requested now - defaultDays * day := by
            intro h
            simpa only [engine.requested_sub] using engine.requested_mono (le_of_lt h)
          constructor
          · intro h
            exact ⟨by omega, fun _ => by have := hmono (by omega); omega⟩
          · rintro ⟨h, _⟩
            omega
      case isFalse hin =>
          rw [engine.requested_sub]
          have hmono := engine.requested_mono (t := now - defaultDays * day)
            (u := cp - overlapDays * day) (by omega)
          simp only [engine.requested_sub] at hmono
          constructor
          · intro h
            exact ⟨by omega, fun _ => by omega⟩
          · rintro ⟨_, h⟩
            have := h (by omega)
            omega

section

variable {clock : Clock} {s : SyncState} {a : Attempt} {w : Window}

theorem defaultFrom_eq {now start : Int} (h : defaultFrom clock s now = some start) :
    start = windowStart (s.usageEnd clock) now := by
  unfold defaultFrom at h
  unfold SyncState.usageEnd
  split at h
  case h_1 heq =>
      obtain ⟨cp, hcp, rfl⟩ := Option.map_eq_some_iff.1 h
      simp [heq, hcp]
  case h_2 heq => simpa [heq] using h.symm

theorem asked_eq_some {now : Int} (h : asked clock s now = some w) :
    w = ⟨windowStart (s.usageEnd clock) now, now⟩ ∧ w.start < now := by
  obtain ⟨start, hstart, h⟩ := Option.bind_eq_some_iff.1 h
  rw [Option.ite_none_left_eq_some, not_le] at h
  obtain ⟨hlt, h⟩ := h
  obtain rfl := Option.some.inj h
  exact ⟨by rw [defaultFrom_eq hstart], hlt⟩

theorem costWindow_eq_some (h : costWindow clock s a = some w) :
    w = ⟨windowStart (s.usageEnd clock) a.now, a.now⟩ ∧ w.start < a.now :=
  asked_eq_some (Option.ite_none_right_eq_some.1 h).2

/-- The clock reads back the instants that the syncs store. -/
def ReadsBack (clock : Clock) (attempts : List Attempt) : Prop :=
  ∀ a ∈ attempts, clock.parseRfc3339 (clock.toRfc3339 a.now) = some a.now

/-- A sync leaves the state as it is, or stores its own time as the end of usage. -/
theorem usageSyncDefault_cases
    (hclock : clock.parseRfc3339 (clock.toRfc3339 a.now) = some a.now) :
    usageSyncDefault clock s a = s ∨
      (usageSyncDefault clock s a).usageEnd clock = some a.now := by
  unfold usageSyncDefault
  split
  case h_1 w hw =>
      have hstop : w.stop = a.now := by rw [(asked_eq_some hw).1]
      cases a.fetched with
      | nothing => exact .inl rfl
      | usage | usageAndCosts =>
          right
          simp [SyncState.advance, SyncState.usageEnd, hstop, hclock]
  case h_2 => exact .inl rfl

/-- A sync that fetches costs stores its own time. -/
theorem usageEnd_of_costWindow (h : costWindow clock s a = some w)
    (hclock : clock.parseRfc3339 (clock.toRfc3339 a.now) = some a.now) :
    (usageSyncDefault clock s a).usageEnd clock = some a.now := by
  obtain ⟨hboth, hasked⟩ := Option.ite_none_right_eq_some.1 h
  have hstop : w.stop = a.now := by rw [(asked_eq_some hasked).1]
  simp [usageSyncDefault, hasked, hboth, SyncState.advance, SyncState.usageEnd, hstop, hclock]

theorem windowStart_some_bounds {cp now : Int} (h : cp ≤ now) :
    cp - overlapDays * day ≤ windowStart (some cp) now ∧
      windowStart (some cp) now ≤ now - overlapDays * day := by
  simp only [windowStart]
  constructor <;> split <;> simp only [overlapDays, defaultDays, day, second] at * <;> omega

/-- Once `cp` is stored, no later sync asks for more than the two days before it. -/
theorem start_of_mem_costWindows {cp : Int} {attempts : List Attempt}
    (hclock : ReadsBack clock attempts) (horder : attempts.Pairwise (·.now ≤ ·.now))
    (hcp : s.usageEnd clock = some cp) (hlater : ∀ a ∈ attempts, cp ≤ a.now)
    (hw : w ∈ costWindows clock s attempts) : cp - overlapDays * day ≤ w.start := by
  induction attempts generalizing s cp with
  | nil => cases hw
  | cons a rest ih =>
      have hle : cp ≤ a.now := hlater a List.mem_cons_self
      obtain ⟨hall, horder⟩ := List.pairwise_cons.1 horder
      rcases List.mem_append.1 hw with hw | hw
      · obtain ⟨rfl, _⟩ := costWindow_eq_some (Option.mem_toList.1 hw)
        rw [hcp]
        exact (windowStart_some_bounds hle).1
      · have hrest : ReadsBack clock rest := fun b hb => hclock b (List.mem_cons_of_mem _ hb)
        rcases usageSyncDefault_cases (s := s) (hclock a List.mem_cons_self) with hs | hs
        · rw [hs] at hw
          exact ih hrest horder hcp (fun b hb => hlater b (List.mem_cons_of_mem _ hb)) hw
        · have := ih hrest horder hs hall hw
          omega

end

/-! ## Every instant is covered exactly when each failed fetch is repeated in time -/

section

variable {engine : Engine} {clock : Clock}

theorem inReach_of_costWindow {s : SyncState} {a : Attempt} {w : Window} {reached : Int}
    (h : costWindow clock s a = some w) :
    InReach engine clock reached s a.now ↔ engine.requested w.start ≤ reached := by
  obtain ⟨rfl, _⟩ := costWindow_eq_some h
  exact (windowStart_le_iff ..).symm

theorem covered_of_retried {s : SyncState} {attempts : List Attempt} {last : Attempt}
    {reached i : Int} (h : RetriedInTime engine clock reached s (attempts ++ [last]))
    (hlast : costWindow clock (attempts.foldl (usageSyncDefault clock) s) last ≠ none)
    (hfrom : reached ≤ i) (hto : i < engine.requested last.now) :
    ∃ w ∈ costWindows clock s (attempts ++ [last]),
      engine.requested w.start ≤ i ∧ i < engine.requested w.stop := by
  induction attempts generalizing s reached with
  | nil =>
      obtain ⟨w, hw⟩ := Option.ne_none_iff_exists'.1 hlast
      have hreach := h
      simp only [List.nil_append, RetriedInTime, List.foldl_nil] at hreach hw
      rw [if_neg (by simp [hw]), inReach_of_costWindow hw] at hreach
      refine ⟨w, by simp [costWindows, hw], by omega, ?_⟩
      rwa [(costWindow_eq_some hw).1]
  | cons a rest ih =>
      simp only [List.cons_append, RetriedInTime] at h
      simp only [List.cons_append, costWindows, List.mem_append]
      cases hw : costWindow clock s a with
      | none =>
          rw [if_pos hw] at h
          obtain ⟨w, hmem, hcov⟩ := ih h hlast hfrom
          exact ⟨w, .inr hmem, hcov⟩
      | some w =>
          rw [if_neg (by simp [hw]), inReach_of_costWindow hw] at h
          rcases lt_or_ge i (engine.requested a.now) with hi | hi
          · refine ⟨w, .inl (by simp), by omega, ?_⟩
            rwa [(costWindow_eq_some hw).1]
          · obtain ⟨w, hmem, hcov⟩ := ih h.2 hlast hi
            exact ⟨w, .inr hmem, hcov⟩

/-- A window that starts behind `reached` starts at least two days before its sync, or `reached` is that far
    before the sync anyway. -/
def Behind (engine : Engine) (stored : Option Int) (reached now : Int) : Prop :=
  reached < engine.requested (windowStart stored now) →
    reached < engine.requested (now - overlapDays * day)

theorem behind_of_stored {cp reached now : Int} (h : cp ≤ now) :
    Behind engine (some cp) reached now :=
  fun hlt => lt_of_lt_of_le hlt (engine.requested_mono (windowStart_some_bounds h).2)

theorem behind_of_first {stored : Option Int} {first now : Int} (h : first ≤ now) :
    Behind engine stored (engine.requested (windowStart stored first)) now := by
  intro hlt
  have hstart : windowStart stored first < windowStart stored now := by
    by_contra hge
    have := engine.requested_mono (not_lt.1 hge)
    omega
  -- The start moves on only from the thirty days.
  have hfirst : windowStart stored first ≤ now - defaultDays * day := by
    cases stored with
    | none =>
        simp only [windowStart]
        omega
    | some cp =>
        simp only [windowStart] at hstart ⊢
        split at hstart <;> split at hstart <;> split <;> omega
  have hle := engine.requested_mono hfirst
  rw [engine.requested_sub] at hle ⊢
  have : overlapDays * day < defaultDays * day := by decide
  omega

theorem retried_of_covered {s : SyncState} {attempts : List Attempt} {reached stop : Int}
    (hclock : ReadsBack clock attempts) (horder : attempts.Pairwise (·.now ≤ ·.now))
    (hstop : ∀ a ∈ attempts, a.now ≤ stop)
    (hreached : ∀ a ∈ attempts, reached ≤ engine.requested a.now)
    (hbehind : ∀ a ∈ attempts, Behind engine (s.usageEnd clock) reached a.now)
    (hcovered : ∀ i, reached ≤ i → i < engine.requested stop →
      ∃ w ∈ costWindows clock s attempts,
        engine.requested w.start ≤ i ∧ i < engine.requested w.stop) :
    RetriedInTime engine clock reached s attempts := by
  induction attempts generalizing s reached with
  | nil => exact trivial
  | cons a rest ih =>
      obtain ⟨hall, horder⟩ := List.pairwise_cons.1 horder
      have hback : clock.parseRfc3339 (clock.toRfc3339 a.now) = some a.now :=
        hclock a List.mem_cons_self
      have hrest : ReadsBack clock rest := fun b hb => hclock b (List.mem_cons_of_mem _ hb)
      have hstops : ∀ b ∈ rest, b.now ≤ stop := fun b hb => hstop b (List.mem_cons_of_mem _ hb)
      rw [RetriedInTime]
      cases hw : costWindow clock s a with
      | none =>
          rw [if_pos rfl]
          refine ih hrest horder hstops (fun b hb => hreached b (List.mem_cons_of_mem _ hb)) ?_
            fun i hfrom hto => ?_
          · intro b hb
            rcases usageSyncDefault_cases (s := s) hback with hs | hs
            · rw [hs]
              exact hbehind b (List.mem_cons_of_mem _ hb)
            · rw [hs]
              exact behind_of_stored (hall b hb)
          · simpa [costWindows, hw] using hcovered i hfrom hto
      | some w =>
          rw [if_neg (by simp), inReach_of_costWindow hw]
          have hstored := usageEnd_of_costWindow hw hback
          obtain ⟨hwindow, hlt⟩ := costWindow_eq_some hw
          have hwstop : w.stop = a.now := by rw [hwindow]
          have hend : engine.requested a.now ≤ engine.requested stop :=
            engine.requested_mono (hstop a List.mem_cons_self)
          constructor
          · -- No later sync asks for the instant `reached`, were it not in this window.
            by_contra hgap
            have hnow := engine.requested_mono hlt.le
            obtain ⟨w', hmem, hstart, _⟩ := hcovered reached le_rfl (by omega)
            rw [costWindows, hw, Option.toList_some, List.singleton_append, List.mem_cons] at hmem
            rcases hmem with rfl | hmem
            · exact hgap hstart
            · have hlater := engine.requested_mono
                (start_of_mem_costWindows hrest horder hstored hall hmem)
              have := hbehind a List.mem_cons_self (by rw [hwindow] at hgap; exact not_le.1 hgap)
              omega
          · refine ih hrest horder hstops (fun b hb => engine.requested_mono (hall b hb))
              (fun b hb => ?_) fun i hfrom hto => ?_
            · rw [hstored]
              exact behind_of_stored (hall b hb)
            · obtain ⟨w', hmem, hcov⟩ :=
                hcovered i (le_trans (hreached a List.mem_cons_self) hfrom) hto
              rw [costWindows, hw, Option.toList_some, List.singleton_append, List.mem_cons] at hmem
              rcases hmem with rfl | hmem
              · rw [hwstop] at hcov
                omega
              · exact ⟨w', hmem, hcov⟩

theorem windowStart_le (stored : Option Int) (now : Int) : windowStart stored now ≤ now := by
  cases stored with
  | none => simp [windowStart, defaultDays, day, second]
  | some cp =>
      simp only [windowStart]
      split <;> simp only [overlapDays, defaultDays, day, second] at * <;> omega

/-- For every sequence of default syncs in time order that ends with a fetch of the costs: the costs of
    every instant since the start of the first window have been asked for with success if and only if each
    sync that fetched costs had the end of the previous one that did in reach. -/
theorem costs_covered_iff (s : SyncState) (earlier : List Attempt) (last : Attempt)
    (hclock : ReadsBack clock (earlier ++ [last]))
    (horder : (earlier ++ [last]).Pairwise (·.now ≤ ·.now))
    (hlast : costWindow clock (earlier.foldl (usageSyncDefault clock) s) last ≠ none) :
    CostsCovered engine clock s earlier last ↔
      ∀ start, firstStart clock s (earlier ++ [last]) = some start →
        RetriedInTime engine clock (engine.requested start) s (earlier ++ [last]) := by
  refine forall₂_congr fun start hstart => ?_
  constructor
  · obtain ⟨first, hfirst, hfrom⟩ := Option.bind_eq_some_iff.1 hstart
    obtain ⟨rest, hsyncs⟩ := List.head?_eq_some_iff.1 hfirst
    obtain rfl := defaultFrom_eq hfrom
    have hle : ∀ a ∈ earlier ++ [last], first.now ≤ a.now := by
      rw [hsyncs, List.pairwise_cons] at horder
      rw [hsyncs, List.forall_mem_cons]
      exact ⟨le_rfl, horder.1⟩
    have hstop : ∀ a ∈ earlier ++ [last], a.now ≤ last.now := by
      intro a ha
      rcases List.mem_append.1 ha with ha | ha
      · exact (List.pairwise_append.1 horder).2.2 a ha last (by simp)
      · rw [List.mem_singleton.1 ha]
    refine retried_of_covered hclock horder hstop (fun a ha => ?_) fun a ha =>
      behind_of_first (hle a ha)
    exact engine.requested_mono (le_trans (windowStart_le ..) (hle a ha))
  · intro h i hfrom hto
    exact covered_of_retried h hlast hfrom hto

end

/-- A clock for the days of July 2026. -/
def julyClock : Clock where
  toRfc3339 t :=
    "2026-07-".toList ++ (Nat.toDigits 10 (101 + ((t - 1782864000 * second) / day).toNat)).tail ++
      "T00:00:00Z".toList
  parseRfc3339 text :=
    some (1782864000 * second +
      (Nat.ofDigitChars 10 ((text.drop 8).take 2) 0 - 1 : Int) * day)

/-- The first of July 2026. -/
def july : Int := 1782864000 * second

theorem costs_covered_iff_july :
    CostsCovered .openai julyClock ⟨none, none⟩ [⟨july, .usageAndCosts⟩]
      ⟨july + 10 * day, .usageAndCosts⟩ :=
  (costs_covered_iff ⟨none, none⟩ [⟨july, .usageAndCosts⟩] ⟨july + 10 * day, .usageAndCosts⟩
    (by unfold ReadsBack; decide) (by decide) (by decide)).2
    fun start hstart => by
      have hfirst : firstStart julyClock ⟨none, none⟩
        ([⟨july, .usageAndCosts⟩] ++ [⟨july + 10 * day, .usageAndCosts⟩]) =
          some (july - 30 * day) := by decide
      obtain rfl := Option.some.inj (hfirst.symm.trans hstart)
      decide

/-- Usage without costs on the first of July, and both three days later: the costs of June are never asked
    for. -/
theorem june_never_fetched :
    costWindow julyClock (usageSyncDefault julyClock ⟨none, none⟩ ⟨july, .usage⟩)
        ⟨july + 3 * day, .usageAndCosts⟩ ≠ none ∧
      ¬CostsCovered .openai julyClock ⟨none, none⟩ [⟨july, .usage⟩]
        ⟨july + 3 * day, .usageAndCosts⟩ := by
  refine ⟨by decide, fun hcovered => ?_⟩
  have hfirst : firstStart julyClock ⟨none, none⟩
    ([⟨july, .usage⟩] ++ [⟨july + 3 * day, .usageAndCosts⟩]) = some (july - 30 * day) := by
      decide
  have hnone : ∀ w ∈ costWindows julyClock ⟨none, none⟩
      ([⟨july, .usage⟩] ++ [⟨july + 3 * day, .usageAndCosts⟩]),
        july - 10 * day < Engine.openai.requested w.start := by decide
  obtain ⟨w, hw, hstart, _⟩ := hcovered _ hfirst (july - 10 * day) (by decide)
    (by decide)
  exact absurd hstart (not_le.2 (hnone w hw))

end Tethra.UsageSync
