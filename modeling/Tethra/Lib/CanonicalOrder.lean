import Mathlib.Data.List.Chain
import Mathlib.Tactic.SplitIfs

set_option autoImplicit false

/-! # Canonical order

A class for each element, and a pair of neighbours that may change places when the first has the greater class and the
second a class that is not zero. An element of class zero starts a run, and no other passes it. A list is in order when
it has no such pair, and `reorder` exchanges them until there is none. -/

namespace CanonicalOrder

variable {α : Type} (cls : α → Nat)

/-- Two neighbours stay as they are. -/
def Stays (a b : α) : Prop := cls b = 0 ∨ cls a ≤ cls b

def Ordered (l : List α) : Prop := l.IsChain (Stays cls)

/-- An element in front of a list in order goes behind those that it does not stay before. -/
def place (c : α) : List α → List α
  | [] => [c]
  | d :: l => if cls d ≠ 0 ∧ cls d < cls c then d :: place c l else c :: d :: l

theorem mem_place {a c : α} {l : List α} : a ∈ place cls c l ↔ a = c ∨ a ∈ l := by
  induction l with
  | nil => simp [place]
  | cons d l ih =>
      rw [place]
      split_ifs
      · rw [List.mem_cons, ih, List.mem_cons]
        exact or_left_comm
      · rw [List.mem_cons]

def reorder : List α → List α
  | [] => []
  | c :: l => place cls c (reorder l)

variable {cls} {l : List α} {a c : α}

theorem mem_reorder : a ∈ reorder cls l ↔ a ∈ l := by
  induction l with
  | nil => rfl
  | cons c l ih => rw [reorder, mem_place, ih, List.mem_cons]

/-- What comes first in a list with an element placed: that element, or what came first. -/
theorem head_place (c : α) (l : List α) :
    (place cls c l).head? = some c ∨ ∃ d, l.head? = some d ∧ (place cls c l).head? = some d ∧ cls d < cls c := by
  cases l with
  | nil => exact .inl rfl
  | cons d l =>
      rw [place]
      split_ifs with h
      · exact .inr ⟨d, rfl, rfl, h.2⟩
      · exact .inl rfl

theorem ordered_place (h : Ordered cls l) (c : α) : Ordered cls (place cls c l) := by
  induction l with
  | nil => exact List.isChain_singleton c
  | cons d l ih =>
      have htail : Ordered cls l := List.IsChain.tail h
      rw [place]
      split_ifs with hpass
      · refine List.isChain_cons.2 ⟨fun y hy => ?_, ih htail⟩
        -- Behind `d` comes the placed element, or what came behind `d`.
        obtain hc | ⟨e, he, hhead, -⟩ := @head_place _ cls c l
        · obtain rfl := Option.some.inj (hc.symm.trans hy)
          exact .inr hpass.2.le
        · obtain rfl := Option.some.inj (hhead.symm.trans hy)
          exact (List.isChain_cons.1 h).1 e he
      · refine List.isChain_cons.2 ⟨fun y hy => ?_, h⟩
        obtain rfl := Option.some.inj hy
        by_cases hzero : cls d = 0
        · exact .inl hzero
        · exact .inr (not_lt.1 fun hlt => hpass ⟨hzero, hlt⟩)

theorem ordered_reorder (l : List α) : Ordered cls (reorder cls l) := by
  induction l with
  | nil => exact List.isChain_nil
  | cons c l ih => exact ordered_place ih c

theorem place_of_ordered (h : Ordered cls (c :: l)) : place cls c l = c :: l := by
  cases l with
  | nil => rfl
  | cons d l =>
      have hstays : Stays cls c d := (List.isChain_cons.1 h).1 d rfl
      rw [place, if_neg]
      rintro ⟨hzero, hlt⟩
      obtain hd | hle := hstays
      · exact hzero hd
      · exact absurd hlt (not_lt.2 hle)

theorem reorder_eq_self_iff : reorder cls l = l ↔ Ordered cls l := by
  refine ⟨fun h => h ▸ ordered_reorder l, fun h => ?_⟩
  induction l with
  | nil => rfl
  | cons c l ih => rw [reorder, ih (List.IsChain.tail h), place_of_ordered h]

end CanonicalOrder
