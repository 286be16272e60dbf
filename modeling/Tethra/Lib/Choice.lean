import Mathlib

set_option autoImplicit false

/-! # Choices from lists

The best of a list under a map, and of a list of which one part is always bettered by the other. -/

namespace Choice

variable {α β γ δ : Type} [LinearOrder γ] [LinearOrder δ]

theorem argmax_map {f : β → γ} {f' : α → δ} {g : α → β} (h : ∀ a b, f (g a) < f (g b) ↔ f' a < f' b) (l : List α) :
    (l.map g).argmax f = (l.argmax f').map g := by
  induction l with
  | nil => rfl
  | cons a l ih =>
      rw [List.map_cons, List.argmax_cons, ih, List.argmax_cons]
      cases l.argmax f' with
      | none => rfl
      | some c =>
          dsimp only [Option.map_some]
          by_cases hc : f' a < f' c
          · rw [if_pos hc, if_pos ((h a c).2 hc), Option.map_some]
          · rw [if_neg hc, if_neg ((h a c).not.2 hc), Option.map_some]

theorem argmin_map {f : β → γ} {f' : α → δ} {g : α → β} (h : ∀ a b, f (g a) < f (g b) ↔ f' a < f' b) (l : List α) :
    (l.map g).argmin f = (l.argmin f').map g := by
  induction l with
  | nil => rfl
  | cons a l ih =>
      rw [List.map_cons, List.argmin_cons, ih, List.argmin_cons]
      cases l.argmin f' with
      | none => rfl
      | some c =>
          dsimp only [Option.map_some]
          by_cases hc : f' c < f' a
          · rw [if_pos hc, if_pos ((h c a).2 hc), Option.map_some]
          · rw [if_neg hc, if_neg ((h c a).not.2 hc), Option.map_some]

/-- The front is bettered by what is behind. -/
theorem argmax_append_of_lt {f : α → γ} {xs ys : List α} (h : ∀ x ∈ xs, ∃ y ∈ ys, f x < f y) :
    (xs ++ ys).argmax f = ys.argmax f := by
  induction xs with
  | nil => rfl
  | cons x xs ih =>
      rw [List.cons_append, List.argmax_cons, ih fun x' hx' => h x' (List.mem_cons_of_mem _ hx')]
      obtain ⟨y, hy, hlt⟩ := h x List.mem_cons_self
      cases hc : ys.argmax f with
      | none =>
          rw [List.argmax_eq_none.1 hc] at hy
          cases hy
      | some c => exact if_pos (hlt.trans_le (List.le_of_mem_argmax hy hc))

/-- What is behind is bettered by the front. -/
theorem argmin_append_of_lt {f : α → γ} {xs ys : List α} (h : ∀ y ∈ ys, ∃ x ∈ xs, f x < f y) :
    (xs ++ ys).argmin f = xs.argmin f := by
  induction ys using List.reverseRecOn with
  | nil => rw [List.append_nil]
  | append_singleton ys y ih =>
      rw [← List.append_assoc, List.argmin_concat, ih fun y' hy' => h y' (List.mem_append_left _ hy')]
      obtain ⟨x, hx, hlt⟩ := h y (List.mem_append_right _ (List.mem_singleton_self y))
      cases hc : xs.argmin f with
      | none =>
          rw [List.argmin_eq_none.1 hc] at hx
          cases hx
      | some c => exact if_neg (not_lt.2 ((List.le_of_mem_argmin hx hc).trans hlt.le))

end Choice
