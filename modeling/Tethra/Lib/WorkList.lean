import Mathlib

set_option autoImplicit false

/-! # Work lists

A walk over a graph with a stack of nodes to come and a list of nodes met. Each hop takes the node on top; one
that was met before is dropped, a new one is met and its successors are put on top, the last of them first. A
walk of at most `n` hops meets only what is reachable, each node once (`nodup_visit`). -/

namespace WorkList

variable {V : Type} [DecidableEq V] (next : V → List V)

/-- The nodes that the first `n` hops take, in their order; a node that was met before takes a hop too. -/
def hops : Nat → List V → List V → List V
  | 0, _, _ => []
  | _ + 1, [], _ => []
  | n + 1, v :: stack, met =>
      if v ∈ met then v :: hops n stack met else v :: hops n ((next v).reverse ++ stack) (met ++ [v])

/-- The nodes met after at most `n` hops. -/
def visit : Nat → List V → List V → List V
  | 0, _, met => met
  | _ + 1, [], met => met
  | n + 1, v :: stack, met => if v ∈ met then visit n stack met else visit n ((next v).reverse ++ stack) (met ++ [v])

def Reachable : V → V → Prop := Relation.ReflTransGen fun a b => b ∈ next a

variable {next} {n : Nat} {stack met : List V} {x : V}

theorem mem_visit : x ∈ visit next n stack met ↔ x ∈ met ∨ x ∈ hops next n stack met := by
  fun_induction hops next n stack met with
  | case1 stack met => simp [visit]
  | case2 n met => simp [visit]
  | case3 n v stack met hmet ih =>
      rw [visit, if_pos hmet, ih, List.mem_cons]
      constructor
      · exact fun h => h.imp_right .inr
      · rintro (h | rfl | h)
        · exact .inl h
        · exact .inl hmet
        · exact .inr h
  | case4 n v stack met hmet ih =>
      rw [visit, if_neg hmet, ih, List.mem_cons, List.mem_append, List.mem_singleton, or_assoc]

theorem nodup_visit (h : met.Nodup) : (visit next n stack met).Nodup := by
  fun_induction visit next n stack met with
  | case1 stack met => exact h
  | case2 n met => exact h
  | case3 n v stack met hmet ih => exact ih h
  | case4 n v stack met hmet ih => exact ih (h.append (List.nodup_singleton v) (by simpa using hmet))

/-- Every hop goes to a node that can be reached from the stack. -/
theorem reachable_of_mem_hops (h : x ∈ hops next n stack met) : ∃ v ∈ stack, Reachable next v x := by
  fun_induction hops next n stack met with
  | case1 stack met => cases h
  | case2 n met => cases h
  | case3 n v stack met hmet ih =>
      rcases List.mem_cons.1 h with rfl | h
      · exact ⟨x, List.mem_cons_self .., .refl⟩
      · obtain ⟨w, hw, hreach⟩ := ih h
        exact ⟨w, List.mem_cons_of_mem _ hw, hreach⟩
  | case4 n v stack met hmet ih =>
      rcases List.mem_cons.1 h with rfl | h
      · exact ⟨x, List.mem_cons_self .., .refl⟩
      · obtain ⟨w, hw, hreach⟩ := ih h
        rcases List.mem_append.1 hw with hw | hw
        · exact ⟨v, List.mem_cons_self .., .head (List.mem_reverse.1 hw) hreach⟩
        · exact ⟨w, List.mem_cons_of_mem _ hw, hreach⟩

end WorkList
