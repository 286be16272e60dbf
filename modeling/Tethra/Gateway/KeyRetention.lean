import Mathlib

set_option autoImplicit false

/-! # The retention window of the matching key (`gateway/src/service.rs`)

A locked vault may keep the matching key for a while. The window has a deadline on the monotonic and
one on the wall clock and ends when either passes; a repeated arm compares the monotonic ones only.
Beside the window the state has what it is judged by: every deadline that was armed since the window
was last empty, and how far the monotonic clock, which never goes back, has come. -/

namespace Tethra.Gateway

/-- An instant of the monotonic clock and one of the wall clock. -/
structure Deadline where
  mono : Int
  wall : Int
  deriving DecidableEq, Repr

/-- What both clocks show. -/
structure Reading where
  mono : Int
  wall : Int
  deriving DecidableEq, Repr

def Reading.plus (now : Reading) (ttl : Nat) : Deadline := ⟨now.mono + ttl, now.wall + ttl⟩

/-- `now >= *instant || now >= *wall`. -/
def Deadline.Passed (d : Deadline) (now : Reading) : Prop := d.mono ≤ now.mono ∨ d.wall ≤ now.wall

instance (d : Deadline) (now : Reading) : Decidable (d.Passed now) :=
  inferInstanceAs (Decidable (_ ∨ _))

structure KeyRetention where
  deadline : Option Deadline
  expired : Bool

/-- Arm the window; one that runs is kept unless the new one ends before it on the monotonic clock. -/
def KeyRetention.armNoLaterThan (k : KeyRetention) (candidate : Deadline) : KeyRetention :=
  match k.deadline with
  | some existing =>
      if existing.mono ≤ candidate.mono then k else { k with deadline := some candidate }
  | none => { k with deadline := some candidate }

def KeyRetention.disarm (k : KeyRetention) : KeyRetention := { k with deadline := none }

/-- Whether the window has ended: the caller then drops the key. -/
def KeyRetention.isDue (k : KeyRetention) (now : Reading) : Bool :=
  match k.deadline with
  | some d => d.Passed now
  | none => false

def KeyRetention.expireIfDue (k : KeyRetention) (now : Reading) : KeyRetention :=
  if k.isDue now then ⟨none, true⟩ else k

/-- What happens to the window. -/
inductive RetentionEvent where
  | arm (ttl : Nat) (now : Reading)
  | disarm
  | check (now : Reading)

/-- The window, what was armed since it was last empty, and the monotonic clock. -/
structure RetentionState where
  window : KeyRetention
  armed : List Deadline
  clock : Int

def RetentionState.start (clock : Int) : RetentionState := ⟨⟨none, false⟩, [], clock⟩

def RetentionState.step (s : RetentionState) : RetentionEvent → RetentionState
  | .arm ttl now =>
      ⟨s.window.armNoLaterThan (now.plus ttl), now.plus ttl :: s.armed, now.mono⟩
  | .disarm => ⟨s.window.disarm, [], s.clock⟩
  | .check now =>
      ⟨s.window.expireIfDue now, if s.window.isDue now then [] else s.armed, now.mono⟩

/-- The monotonic clock has not gone back. -/
def RetentionState.Timely (s : RetentionState) : RetentionEvent → Prop
  | .arm _ now => s.clock ≤ now.mono
  | .disarm => True
  | .check now => s.clock ≤ now.mono

/-- The states that a sequence of events goes through. -/
def RetentionState.reached (s : RetentionState) : List RetentionEvent → List RetentionState
  | [] => [s]
  | e :: events => s :: (s.step e).reached events

/-- A condition on each event, in the state in which it happens. -/
def RetentionState.Along (P : RetentionState → RetentionEvent → Prop) (s : RetentionState) :
    List RetentionEvent → Prop
  | [] => True
  | e :: events => P s e ∧ (s.step e).Along P events

/-- A check drops the key as soon as any deadline that was armed has passed on either clock. -/
def RetentionState.DropsInTime (s : RetentionState) : Prop :=
  ∀ now : Reading, s.clock ≤ now.mono → (∃ d ∈ s.armed, d.Passed now) → s.window.isDue now = true

/-- Of the running deadline and the new one, the arm keeps one that has passed on the monotonic clock
    or is not the later of the two on the wall clock. -/
def RetentionState.Aligned (s : RetentionState) : RetentionEvent → Prop
  | .arm ttl now =>
      ∀ d, s.window.deadline = some d →
        if d.mono ≤ (now.plus ttl).mono then d.mono ≤ now.mono ∨ d.wall ≤ (now.plus ttl).wall
        else (now.plus ttl).mono ≤ now.mono ∨ (now.plus ttl).wall ≤ d.wall
  | _ => True

/-! ## What every arm keeps -/

/-- The running deadline is one of those armed, and none of them is earlier on the monotonic clock. -/
structure RetentionState.Kept (s : RetentionState) : Prop where
  empty : s.window.deadline = none → s.armed = []
  mem : ∀ d, s.window.deadline = some d → d ∈ s.armed
  earliest : ∀ d, s.window.deadline = some d → ∀ a ∈ s.armed, d.mono ≤ a.mono

/-- The running deadline has passed on the monotonic clock, or none of those armed is earlier on the
    wall clock. -/
def RetentionState.Tight (s : RetentionState) : Prop :=
  ∀ d, s.window.deadline = some d → d.mono ≤ s.clock ∨ ∀ a ∈ s.armed, d.wall ≤ a.wall

theorem kept_cleared (expired : Bool) (clock : Int) :
    RetentionState.Kept ⟨⟨none, expired⟩, [], clock⟩ :=
  ⟨fun _ => rfl, nofun, nofun⟩

theorem kept_step {s : RetentionState} (hs : s.Kept) (e : RetentionEvent) : (s.step e).Kept := by
  cases e with
  | disarm => exact kept_cleared s.window.expired s.clock
  | check now =>
      unfold RetentionState.step KeyRetention.expireIfDue
      by_cases hdue : s.window.isDue now = true
      · simp only [hdue, if_true]
        exact kept_cleared true now.mono
      · simp only [hdue, if_false, Bool.false_eq_true]
        exact ⟨hs.empty, hs.mem, hs.earliest⟩
  | arm ttl now =>
      unfold RetentionState.step KeyRetention.armNoLaterThan
      cases hd : s.window.deadline with
      | none =>
          have hempty := hs.empty hd
          refine ⟨nofun, fun d hd' => ?_, fun d hd' a ha => ?_⟩
          · obtain rfl := Option.some.inj hd'
            exact List.mem_cons_self
          · obtain rfl := Option.some.inj hd'
            rw [hempty, List.mem_singleton] at ha
            rw [ha]
      | some d =>
          have hearliest := hs.earliest d hd
          by_cases hkeep : d.mono ≤ (now.plus ttl).mono
          -- the running deadline is kept
          · simp only [hkeep, if_true]
            refine ⟨fun hnone => ?_, fun d' hd' => ?_, fun d' hd' a ha => ?_⟩
            · rw [hd] at hnone
              cases hnone
            · exact List.mem_cons_of_mem _ (hs.mem d' hd')
            · obtain rfl : d = d' := Option.some.inj (hd.symm.trans hd')
              rcases List.mem_cons.1 ha with rfl | ha
              · exact hkeep
              · exact hearliest a ha
          -- the new one replaces it
          · simp only [hkeep, if_false]
            refine ⟨nofun, fun d' hd' => ?_, fun d' hd' a ha => ?_⟩
            · obtain rfl := Option.some.inj hd'
              exact List.mem_cons_self
            · obtain rfl := Option.some.inj hd'
              rcases List.mem_cons.1 ha with rfl | ha
              · exact le_refl _
              · exact (le_of_not_ge hkeep).trans (hearliest a ha)

/-- A window that is tight drops the key in time, and only such a one. -/
theorem dropsInTime_iff_tight {s : RetentionState} (hs : s.Kept) : s.DropsInTime ↔ s.Tight := by
  constructor
  · intro hdrops d hd
    by_contra hnot
    push Not at hnot
    obtain ⟨hclock, a, ha, hwall⟩ := hnot
    have hdue := hdrops ⟨s.clock, a.wall⟩ (le_refl _) ⟨a, ha, Or.inr (le_refl _)⟩
    have hpassed : d.Passed ⟨s.clock, a.wall⟩ := by simpa [KeyRetention.isDue, hd] using hdue
    rcases hpassed with hpassed | hpassed
    · exact absurd hpassed (not_le.2 hclock)
    · exact absurd hpassed (not_le.2 hwall)
  · rintro htight now hclock ⟨a, ha, hpassed⟩
    cases hd : s.window.deadline with
    | none =>
        rw [hs.empty hd] at ha
        cases ha
    | some d =>
        simp only [KeyRetention.isDue, hd, decide_eq_true_eq]
        have hmono := hs.earliest d hd a ha
        rcases hpassed with hpassed | hpassed
        · exact Or.inl (hmono.trans hpassed)
        · rcases htight d hd with hgone | hwall
          · exact Or.inl (hgone.trans hclock)
          · exact Or.inr ((hwall a ha).trans hpassed)

/-- From a tight window, the next one is tight exactly when the event is aligned. -/
theorem tight_step {s : RetentionState} (hs : s.Kept) (htight : s.Tight) {e : RetentionEvent}
    (htimely : s.Timely e) : (s.step e).Tight ↔ s.Aligned e := by
  cases e with
  | disarm => exact ⟨fun _ => trivial, fun _ => nofun⟩
  | check now =>
      refine ⟨fun _ => trivial, fun _ => ?_⟩
      unfold RetentionState.step KeyRetention.expireIfDue
      by_cases hdue : s.window.isDue now = true
      · simp only [hdue, if_true]
        exact nofun
      · simp only [hdue, if_false, Bool.false_eq_true]
        intro d hd
        exact (htight d hd).imp_left fun hgone => hgone.trans htimely
  | arm ttl now =>
      unfold RetentionState.step KeyRetention.armNoLaterThan RetentionState.Aligned
      unfold RetentionState.Tight
      cases hd : s.window.deadline with
      | none =>
          simp [hs.empty hd]
      | some d =>
          have hmem := hs.mem d hd
          have htimely' : s.clock ≤ now.mono := htimely
          have hold := htight d hd
          simp only [Option.some.injEq, forall_eq']
          by_cases hkeep : d.mono ≤ (now.plus ttl).mono
          · simp only [hkeep, if_true, hd, Option.some.injEq, forall_eq', List.forall_mem_cons]
            constructor
            · exact Or.imp_right And.left
            · rintro (hgone | hwall)
              · exact Or.inl hgone
              · exact hold.imp (fun hgone => hgone.trans htimely') fun hall => ⟨hwall, hall⟩
          · simp only [hkeep, if_false, Option.some.injEq, forall_eq', List.forall_mem_cons]
            constructor
            · rintro (hgone | ⟨-, hall⟩)
              · exact Or.inl hgone
              · exact Or.inr (hall d hmem)
            · rintro (hgone | hwall)
              · exact Or.inl hgone
              · rcases hold with hgone | hall
                · refine Or.inl ((le_of_not_ge hkeep).trans (hgone.trans htimely'))
                · exact Or.inr ⟨le_refl _, fun a ha => hwall.trans (hall a ha)⟩

theorem reached_dropsInTime_iff {s : RetentionState} (hs : s.Kept) (htight : s.Tight)
    {events : List RetentionEvent} (htimely : s.Along RetentionState.Timely events) :
    (∀ t ∈ s.reached events, t.DropsInTime) ↔ s.Along RetentionState.Aligned events := by
  induction events generalizing s with
  | nil => simp [RetentionState.reached, RetentionState.Along, dropsInTime_iff_tight hs, htight]
  | cons e events ih =>
      obtain ⟨hfirst, hrest⟩ := htimely
      have hnext := kept_step hs e
      have hstep := tight_step hs htight hfirst
      simp only [RetentionState.reached, RetentionState.Along, List.forall_mem_cons]
      constructor
      · rintro ⟨-, hall⟩
        have hhead : (s.step e).DropsInTime := hall _ (by cases events <;> exact List.mem_cons_self)
        have htight' := (dropsInTime_iff_tight hnext).1 hhead
        exact ⟨hstep.1 htight', (ih hnext htight' hrest).1 hall⟩
      · rintro ⟨haligned, hall⟩
        have htight' := hstep.2 haligned
        exact ⟨(dropsInTime_iff_tight hs).2 htight, (ih hnext htight' hrest).2 hall⟩

/-- Through every sequence of arms, cancellations and checks, the key is dropped in time exactly when
    no arm keeps a deadline that is later on the wall clock than the one it gives up. -/
theorem retention_tightens_iff (clock : Int) {events : List RetentionEvent}
    (htimely : (RetentionState.start clock).Along RetentionState.Timely events) :
    (∀ s ∈ (RetentionState.start clock).reached events, s.DropsInTime) ↔
      (RetentionState.start clock).Along RetentionState.Aligned events :=
  reached_dropsInTime_iff (kept_cleared false clock) nofun htimely

/-- Two arms an hour long, ten seconds apart, with the wall clock set back between them. -/
def setBack : List RetentionEvent := [.arm 3600 ⟨0, 10000⟩, .arm 3600 ⟨10, 10⟩]

theorem setBack_timely : (RetentionState.start 0).Along RetentionState.Timely setBack := by
  simp [setBack, RetentionState.Along, RetentionState.Timely, RetentionState.step,
    RetentionState.start]

/-- One arm alone is dropped in time. -/
theorem retention_tightens_once :
    (∀ s ∈ (RetentionState.start 0).reached [.arm 3600 ⟨0, 10000⟩], s.DropsInTime) ∧
      (RetentionState.start 0).Along RetentionState.Aligned [.arm 3600 ⟨0, 10000⟩] := by
  have haligned : (RetentionState.start 0).Along RetentionState.Aligned [.arm 3600 ⟨0, 10000⟩] :=
    ⟨nofun, trivial⟩
  exact ⟨(@retention_tightens_iff 0 [.arm 3600 ⟨0, 10000⟩] ⟨le_refl _, trivial⟩).2 haligned, haligned⟩

/-- The second deadline on the wall clock, 3610, has passed at 5000, and the key is kept. -/
theorem setBack_kept :
    ¬∀ events : List RetentionEvent, (RetentionState.start 0).Along RetentionState.Timely events →
      ∀ s ∈ (RetentionState.start 0).reached events, s.DropsInTime := by
  intro h
  have hlast := h setBack setBack_timely
    (((RetentionState.start 0).step (.arm 3600 ⟨0, 10000⟩)).step (.arm 3600 ⟨10, 10⟩))
    (by simp [setBack, RetentionState.reached])
  have hdue := hlast ⟨100, 5000⟩ (by decide) ⟨⟨3610, 3610⟩, by decide, by decide⟩
  exact absurd hdue (by decide)

end Tethra.Gateway
