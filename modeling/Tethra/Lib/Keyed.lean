import Mathlib

set_option autoImplicit false

/-! # Keyed lists

A list whose elements carry a key: changing the elements under a key (`modify`), and inserting or
changing one (`upsert`). The keys stay distinct. -/

namespace Keyed

variable {α κ : Type} [DecidableEq κ] (key : α → κ)

/-- Change the elements under the key `k`. -/
def modify (k : κ) (f : α → α) (xs : List α) : List α :=
  xs.map fun x => if key x = k then f x else x

/-- Change the elements under the key `k`, or append `new` when there is none. -/
def upsert (k : κ) (f : α → α) (new : α) (xs : List α) : List α :=
  if xs.any (key · = k) then modify key k f xs else xs ++ [new]

variable {key} {k : κ} {f : α → α} {new : α} {xs : List α}

theorem keys_modify (hf : ∀ x, key x = k → key (f x) = k) :
    (modify key k f xs).map key = xs.map key := by
  rw [modify, List.map_map]
  apply List.map_congr_left
  intro x _
  by_cases hx : key x = k
  · simp [hx, hf x hx]
  · simp [hx]

theorem mem_modify {y : α} :
    y ∈ modify key k f xs ↔ ∃ x ∈ xs, y = if key x = k then f x else x := by
  simp [modify, eq_comm]

/-- Changing the one element under a key changes the sum by as much. -/
theorem sum_modify {v : α → Int} {d n : Int} (hf : ∀ x, v (f x) ≡ v x + d [ZMOD n])
    (hnodup : (xs.map key).Nodup) (hk : k ∈ xs.map key) :
    ((modify key k f xs).map v).sum ≡ (xs.map v).sum + d [ZMOD n] := by
  induction xs with
  | nil => cases hk
  | cons x xs ih =>
      obtain ⟨hnot, hnodup⟩ := List.nodup_cons.1 hnodup
      have hcons : ((modify key k f (x :: xs)).map v).sum
          = v (if key x = k then f x else x) + ((modify key k f xs).map v).sum := rfl
      rw [hcons, List.map_cons, List.sum_cons]
      by_cases hx : key x = k
      · have hrest : modify key k f xs = xs := by
          refine (List.map_congr_left fun y hy => if_neg ?_).trans (List.map_id _)
          intro hy'
          exact hnot (List.mem_map.2 ⟨y, hy, hy'.trans hx.symm⟩)
        rw [if_pos hx, hrest, add_right_comm]
        exact (hf x).add_right _
      · have hin : k ∈ xs.map key := (List.mem_cons.1 hk).resolve_left fun h => hx h.symm
        rw [if_neg hx, add_assoc]
        exact (ih hnodup hin).add_left _

/-- The keys of an upsert: those there were, and `k`. -/
theorem keys_upsert (hf : ∀ x, key x = k → key (f x) = k) (hnew : key new = k) :
    (upsert key k f new xs).map key
      = if k ∈ xs.map key then xs.map key else xs.map key ++ [k] := by
  have hany : xs.any (key · = k) = true ↔ k ∈ xs.map key := by
    simp [List.any_eq_true]
  unfold upsert
  by_cases h : k ∈ xs.map key
  · rw [if_pos (hany.2 h), if_pos h, keys_modify hf]
  · rw [if_neg fun h' => h (hany.1 h'), if_neg h, List.map_append, List.map_singleton, hnew]

theorem nodup_keys_upsert (hf : ∀ x, key x = k → key (f x) = k) (hnew : key new = k)
    (h : (xs.map key).Nodup) : ((upsert key k f new xs).map key).Nodup := by
  rw [keys_upsert hf hnew]
  split
  · exact h
  · rename_i hk
    exact h.append (List.nodup_singleton k) (by simpa using hk)

theorem mem_keys_upsert (hf : ∀ x, key x = k → key (f x) = k) (hnew : key new = k) {k' : κ} :
    k' ∈ (upsert key k f new xs).map key ↔ k' ∈ xs.map key ∨ k' = k := by
  rw [keys_upsert hf hnew]
  split
  · rename_i hk
    exact ⟨.inl, fun h => h.elim id fun h => h ▸ hk⟩
  · simp

/-- An element of an upsert is an old one, a changed one, or the new one. -/
theorem mem_upsert {y : α} (h : y ∈ upsert key k f new xs) :
    y ∈ xs ∨ (∃ x ∈ xs, key x = k ∧ y = f x) ∨ y = new := by
  unfold upsert at h
  split at h
  · obtain ⟨x, hx, rfl⟩ := mem_modify.1 h
    split
    · rename_i hk
      exact .inr (.inl ⟨x, hx, hk, rfl⟩)
    · exact .inl hx
  · rcases List.mem_append.1 h with h | h
    · exact .inl h
    · exact .inr (.inr (List.mem_singleton.1 h))

/-- An old element is still there, changed if it was under `k`. -/
theorem mem_upsert_of_mem {x : α} (hx : x ∈ xs) :
    (if key x = k then f x else x) ∈ upsert key k f new xs := by
  unfold upsert
  split
  · exact mem_modify.2 ⟨x, hx, rfl⟩
  · rename_i hany
    have hne : key x ≠ k := by
      intro hk
      exact hany (List.any_eq_true.2 ⟨x, hx, decide_eq_true hk⟩)
    rw [if_neg hne]
    exact List.mem_append_left _ hx

/-- The element under `k` is `f` of an old one, or the new one. -/
theorem exists_mem_upsert (k : κ) (f : α → α) (new : α) (xs : List α) :
    (∃ x ∈ xs, key x = k ∧ f x ∈ upsert key k f new xs) ∨ new ∈ upsert key k f new xs := by
  unfold upsert
  split
  · rename_i hany
    obtain ⟨x, hx, hk⟩ := List.any_eq_true.1 hany
    have hk' : key x = k := of_decide_eq_true hk
    exact .inl ⟨x, hx, hk', mem_modify.2 ⟨x, hx, by rw [if_pos hk']⟩⟩
  · exact .inr (List.mem_append_right _ (List.mem_singleton_self new))

end Keyed
