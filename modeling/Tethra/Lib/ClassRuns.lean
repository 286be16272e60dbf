import Mathlib

set_option autoImplicit false

/-! # Runs of a class

`maxRun p` is the loop that looks for the longest run of consecutive elements of a class; no run of
the class in the list is longer (`length_le_maxRun`). A run that has no separator in it lies on one
side of each separator (`infix_of_infix_append_cons`). -/

namespace ClassRuns

variable {α : Type}

/-- The loop over the list, with the best run so far and the length of the one that is going on. -/
def scanRuns (p : α → Bool) : List α → Nat → Nat → Nat
  | [], best, _ => best
  | a :: as, best, cur =>
      if p a then scanRuns p as (max best (cur + 1)) (cur + 1) else scanRuns p as best 0

def maxRun (p : α → Bool) (as : List α) : Nat := scanRuns p as 0 0

theorem best_le_scanRuns (p : α → Bool) (as : List α) (best cur : Nat) :
    best ≤ scanRuns p as best cur := by
  induction as generalizing best cur with
  | nil => exact le_refl best
  | cons a as ih =>
      unfold scanRuns
      split
      · exact (le_max_left _ _).trans (ih _ _)
      · exact ih _ _

/-- A run at the start of the list goes on with the current one. -/
theorem prefix_le_scanRuns {p : α → Bool} {run as : List α} (h : run <+: as) (hne : run ≠ [])
    (hall : run.all p = true) (best cur : Nat) : cur + run.length ≤ scanRuns p as best cur := by
  induction as generalizing run best cur with
  | nil => exact absurd (List.prefix_nil.1 h) hne
  | cons a as ih =>
      obtain ⟨b, run, rfl⟩ := List.exists_cons_of_ne_nil hne
      obtain ⟨rfl, hrun⟩ := List.cons_prefix_cons.1 h
      rw [List.all_cons, Bool.and_eq_true] at hall
      rw [scanRuns, if_pos hall.1, List.length_cons]
      by_cases hrest : run = []
      · have hbest := best_le_scanRuns p as (max best (cur + 1)) (cur + 1)
        rw [hrest, List.length_nil]
        omega
      · have := ih hrun hrest hall.2 (max best (cur + 1)) (cur + 1)
        omega

theorem infix_le_scanRuns {p : α → Bool} {run as : List α} (h : run <:+: as)
    (hall : run.all p = true) (best cur : Nat) : run.length ≤ scanRuns p as best cur := by
  induction as generalizing best cur with
  | nil =>
      rw [List.infix_nil.1 h]
      exact Nat.zero_le _
  | cons a as ih =>
      rcases List.infix_cons_iff.1 h with hstart | hrest
      · by_cases hne : run = []
        · rw [hne]
          exact Nat.zero_le _
        · have := prefix_le_scanRuns hstart hne hall best cur
          omega
      · unfold scanRuns
        split
        · exact ih hrest _ _
        · exact ih hrest _ _

/-- No run of the class is longer than the longest one. -/
theorem length_le_maxRun {p : α → Bool} {run as : List α} (h : run <:+: as)
    (hall : run.all p = true) : run.length ≤ maxRun p as :=
  infix_le_scanRuns h hall 0 0

/-! ## Separators -/

theorem prefix_of_prefix_append_cons {run x y : List α} {sep : α} (h : run <+: x ++ sep :: y)
    (hsep : sep ∉ run) : run <+: x := by
  rcases List.prefix_or_prefix_of_prefix h (List.prefix_append x (sep :: y)) with hin | hover
  · exact hin
  · obtain ⟨more, rfl⟩ := hover
    cases more with
    | nil => simp
    | cons b more =>
        have hcons := (List.prefix_append_right_inj x).1 h
        obtain ⟨rfl, -⟩ := List.cons_prefix_cons.1 hcons
        exact absurd (by simp) hsep

/-- A run without the separator lies on one side of it. -/
theorem infix_of_infix_append_cons {run x y : List α} {sep : α} (h : run <:+: x ++ sep :: y)
    (hsep : sep ∉ run) : run <:+: x ∨ run <:+: y := by
  induction x with
  | nil =>
      rcases List.infix_cons_iff.1 h with hstart | hrest
      · have hnil := prefix_of_prefix_append_cons (x := []) hstart hsep
        exact Or.inl hnil.isInfix
      · exact Or.inr hrest
  | cons a x ih =>
      rcases List.infix_cons_iff.1 h with hstart | hrest
      · have hprefix := prefix_of_prefix_append_cons (x := a :: x) hstart hsep
        exact Or.inl hprefix.isInfix
      · exact (ih hrest).imp_left fun hin => hin.trans (List.suffix_cons a x).isInfix

end ClassRuns
