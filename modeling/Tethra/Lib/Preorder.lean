import Mathlib

set_option autoImplicit false

/-! # The preorder of a tree, up to a level

A tree is given by the children of each node, and only so many levels of it are seen. A node comes before
those below it, and the last child comes first. What is below a node stands together, behind it
(`preorder_split`), and another order of the children permutes the whole (`preorder_perm`). -/

namespace Preorder

variable {α β : Type}

/-- The node and what is below it, on so many levels. -/
def preorder (children : α → List α) : Nat → α → List α
  | 0, _ => []
  | n + 1, a => a :: (children a).reverse.flatMap (preorder children n)

/-- Where a member of a concatenation stands. -/
theorem flatMap_eq_append_cons {l : List α} {f : α → List β} {as bs : List β} {b : β}
    (h : l.flatMap f = as ++ b :: bs) :
    ∃ l₁ x l₂ as' bs', l = l₁ ++ x :: l₂ ∧ f x = as' ++ b :: bs' ∧ as = l₁.flatMap f ++ as' ∧
      bs = bs' ++ l₂.flatMap f := by
  induction l generalizing as with
  | nil => simp at h
  | cons y l ih =>
      rw [List.flatMap_cons] at h
      rcases List.append_eq_append_iff.1 h with ⟨as', rfl, hrest⟩ | ⟨mid, hy, hrest⟩
      · obtain ⟨l₁, x, l₂, as'', bs', rfl, hx, rfl, rfl⟩ := ih hrest
        exact ⟨y :: l₁, x, l₂, as'', bs', rfl, hx, by simp, rfl⟩
      · cases mid with
        | nil =>
            have hrest : l.flatMap f = [] ++ b :: bs := by simpa using hrest.symm
            obtain ⟨l₁, x, l₂, as', bs', rfl, hx, has, rfl⟩ := ih hrest
            refine ⟨y :: l₁, x, l₂, as', bs', rfl, hx, ?_, rfl⟩
            rw [List.flatMap_cons, List.append_assoc, ← has, hy]
            simp
        | cons c mid =>
            obtain ⟨rfl, rfl⟩ := List.cons.inj hrest
            exact ⟨[], y, l, as, mid, rfl, hy, rfl, rfl⟩

section

variable {children children' : α → List α} {n : Nat} {a d : α}

theorem preorder_succ : preorder children (n + 1) a =
    a :: (children a).reverse.flatMap (preorder children n) := rfl

theorem preorder_perm (h : ∀ a, (children a).Perm (children' a)) (n : Nat) (a : α) :
    (preorder children n a).Perm (preorder children' n a) := by
  induction n generalizing a with
  | zero => exact .refl _
  | succ n ih =>
      have hreverse : (children a).reverse.Perm (children' a).reverse :=
        ((List.reverse_perm _).trans (h a)).trans (List.reverse_perm _).symm
      exact (hreverse.flatMap fun x _ => ih x).cons a

variable {level : α → Nat} (hlevel : ∀ a, ∀ b ∈ children a, level b = level a + 1)
include hlevel

/-- What is seen is on the levels that are seen. -/
theorem level_lt (h : d ∈ preorder children n a) : level d < n + level a := by
  induction n generalizing a with
  | zero => simp [preorder] at h
  | succ n ih =>
      rcases List.mem_cons.1 h with rfl | h
      · omega
      · obtain ⟨x, hx, hd⟩ := List.mem_flatMap.1 h
        have := ih hd
        rw [hlevel a x (List.mem_reverse.1 hx)] at this
        omega

/-- What is below a node stands behind it. -/
theorem preorder_split {as bs : List α} (h : preorder children n a = as ++ d :: bs) :
    ∃ rest, d :: bs = preorder children (n + level a - level d) d ++ rest := by
  induction n generalizing a as bs with
  | zero => simp [preorder] at h
  | succ n ih =>
      cases as with
      | nil =>
          obtain ⟨rfl, rfl⟩ := List.cons.inj h
          exact ⟨[], by rw [Nat.add_sub_cancel, List.append_nil, preorder_succ]⟩
      | cons a' as =>
          have htail : (children a).reverse.flatMap (preorder children n) = as ++ d :: bs :=
            (List.cons.inj h).2
          obtain ⟨l₁, x, l₂, as', bs', hl, hx, -, rfl⟩ := flatMap_eq_append_cons htail
          have hmem : x ∈ children a := List.mem_reverse.1 (hl ▸ by simp)
          obtain ⟨rest, hrest⟩ := ih hx
          refine ⟨rest ++ l₂.flatMap (preorder children n), ?_⟩
          have hsame : n + level x - level d = n + 1 + level a - level d := by
            rw [hlevel a x hmem]
            omega
          rw [← List.cons_append, hrest, hsame, List.append_assoc]

/-- At most what is not below a node comes before it. -/
theorem length_before_le {as bs : List α} (h : preorder children n a = as ++ d :: bs) :
    as.length + (preorder children (n + level a - level d) d).length ≤ (preorder children n a).length := by
  obtain ⟨rest, hrest⟩ := preorder_split hlevel h
  rw [h, hrest]
  simp only [List.length_append]
  omega

end

end Preorder
