import Mathlib

set_option autoImplicit false

/-! # Runs of a step relation

A system is a relation between a state and the next one. `Steps r s t` says that `t` is reached from
`s`; an invariant of the steps is an invariant of the runs (`Steps.invariant`), and what holds along
the steps that meet a condition holds along the runs whose steps all meet it (`Steps.invariant_of`). -/

namespace Runs

variable {σ : Type} {r : σ → σ → Prop}

/-- A run from `s` to `t`. -/
abbrev Steps (r : σ → σ → Prop) : σ → σ → Prop := Relation.ReflTransGen r

/-- The steps of `r` that meet `c`. -/
def Restrict (r c : σ → σ → Prop) : σ → σ → Prop := fun s t => r s t ∧ c s t

/-- What every step keeps, every run keeps. -/
theorem Steps.invariant {I : σ → Prop} (hstep : ∀ s t, I s → r s t → I t) {s t : σ}
    (hs : I s) (h : Steps r s t) : I t := by
  induction h with
  | refl => exact hs
  | tail _ hlast ih => exact hstep _ _ ih hlast

/-- What the steps that meet `c` keep, on states with the invariant `J` of all steps, the runs of such
    steps keep. -/
theorem Steps.invariant_of {I J : σ → Prop} {c : σ → σ → Prop}
    (hJ : ∀ s t, J s → r s t → J t) (hI : ∀ s t, J s → I s → r s t → c s t → I t) {s t : σ}
    (hsJ : J s) (hsI : I s) (h : Steps (Restrict r c) s t) : I t := by
  have hboth : J t ∧ I t := by
    refine Steps.invariant (I := fun u => J u ∧ I u) ?_ ⟨hsJ, hsI⟩ h
    rintro u v ⟨hu, hu'⟩ ⟨hr, hc⟩
    exact ⟨hJ u v hu hr, hI u v hu hu' hr hc⟩
  exact hboth.2

end Runs
